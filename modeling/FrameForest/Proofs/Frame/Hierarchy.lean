import FrameForest.Proofs.Frame.Reachability
import Mathlib.Data.List.Nodup

/-!
# Graphs that are forests

A graph is a forest when no frame hangs twice and no frame lies below itself.
`setParent` starts from such a graph and keeps it one, also when it moves a
frame with everything below it.  `Accepts` lists what it can do to a graph and
`Refuses` why it does nothing; later proofs argue about these cases and not about
its tests.
-/

namespace FrameForest

namespace FrameGraph

variable {graph : FrameGraph} {parent child : String}

structure IsForest (graph : FrameGraph) : Prop where
  /-- No two links end at the same child. -/
  single : (graph.links.map Link.child).Nodup
  /-- No chain of links returns to its start. -/
  acyclic : ∀ frame, ¬Relation.TransGen graph.Hangs frame frame

theorem hangs_of_parent? (found : graph.parent? child = some parent) :
    graph.Hangs parent child := by
  obtain ⟨link, first, rfl⟩ := Option.map_eq_some_iff.1 found
  have member := List.mem_of_find?_eq_some first
  have ends : link.child = child := by simpa using List.find?_some first
  subst ends
  exact member

theorem parent?_eq_none_iff : graph.parent? child = none ↔ ∀ parent, ¬graph.Hangs parent child := by
  simp only [parent?, Option.map_eq_none_iff, List.find?_eq_none, decide_eq_true_eq]
  constructor
  · intro absent parent hangs
    exact absent ⟨parent, child⟩ hangs rfl
  · rintro absent ⟨parent, _⟩ member rfl
    exact absent parent member

theorem mem_frames_of_parent? (found : graph.parent? child = some parent) :
    parent ∈ graph.frames ∧ child ∈ graph.frames :=
  graph.closed _ (hangs_of_parent? found)

namespace IsForest

theorem empty : IsForest ∅ where
  single := List.nodup_nil
  acyclic := by
    intro frame cycle
    obtain ⟨_, _, hangs⟩ := Relation.TransGen.tail'_iff.1 cycle
    exact List.not_mem_nil hangs

variable (forest : graph.IsForest)

include forest

theorem hangs_unique {first second : String} (left : graph.Hangs first child)
    (right : graph.Hangs second child) : first = second := by
  have equal := List.inj_on_of_nodup_map forest.single left right rfl
  exact congrArg Link.parent equal

theorem parent?_eq_some_iff : graph.parent? child = some parent ↔ graph.Hangs parent child := by
  constructor
  · exact hangs_of_parent?
  · intro hangs
    cases found : graph.parent? child with
    | none => exact absurd hangs (parent?_eq_none_iff.1 found parent)
    | some other => rw [forest.hangs_unique hangs (hangs_of_parent? found)]

theorem length_filter_child_le (child : String) :
    (graph.links.filter fun link => link.child = child).length ≤ 1 := by
  have count := List.nodup_iff_count_le_one.1 forest.single child
  rw [List.count_eq_countP, List.countP_map] at count
  rw [← List.countP_eq_length_filter]
  refine Nat.le_trans (Nat.le_of_eq ?_) count
  exact List.countP_congr fun link _ => by simp

end IsForest

/-! ## Registering and linking -/

@[simp] theorem hangs_register (frame : String) : (graph.register frame).Hangs = graph.Hangs := by
  funext parent child
  simp [Hangs]

@[simp] theorem parent?_register (frame child : String) :
    (graph.register frame).parent? child = graph.parent? child := by
  simp [parent?]

theorem IsForest.register (forest : graph.IsForest) (frame : String) :
    (graph.register frame).IsForest where
  single := by simpa using forest.single
  acyclic := by simpa using forest.acyclic

theorem links_link (parent child : String) (previous : Option String) :
    (graph.link parent child previous).links = ⟨parent, child⟩ ::
      (match previous with
        | none => graph.links
        | some previous => graph.links.erase ⟨previous, child⟩) := rfl

private theorem find?_erase_other {links : List Link} {previous child other : String}
    (differ : other ≠ child) :
    (links.erase ⟨previous, child⟩).find? (fun link => link.child = other) =
      links.find? fun link => link.child = other := by
  induction links with
  | nil => rfl
  | cons link links ih =>
      by_cases erased : link = ⟨previous, child⟩
      · subst erased
        simp [differ.symm]
      · rw [List.erase_cons_tail (by simpa using erased), List.find?_cons, List.find?_cons, ih]

theorem parent?_link (parent child : String) (previous : Option String) (other : String) :
    (graph.link parent child previous).parent? other =
      if other = child then some parent else graph.parent? other := by
  by_cases same : other = child
  · simp [parent?, links_link, same]
  · have differ : child ≠ other := Ne.symm same
    cases previous with
    | none => simp [parent?, links_link, same, differ]
    | some previous => simp [parent?, links_link, same, differ, find?_erase_other same]

/-- A moved child hangs from its new parent only, and nothing else moves. -/
theorem IsForest.hangs_link_iff (forest : graph.IsForest) {upper lower : String} :
    (graph.link parent child (graph.parent? child)).Hangs upper lower ↔
      if lower = child then upper = parent else graph.Hangs upper lower := by
  have linksNodup : graph.links.Nodup := forest.single.of_map
  simp only [Hangs, links_link, List.mem_cons, Link.mk.injEq]
  cases held : graph.parent? child with
  | none =>
      have unhung : ∀ parent, (⟨parent, child⟩ : Link) ∉ graph.links := parent?_eq_none_iff.1 held
      by_cases same : lower = child
      · subst same
        simpa using fun hangs => (unhung upper hangs).elim
      · simp [same]
  | some previous =>
      rw [linksNodup.mem_erase_iff]
      by_cases same : lower = child
      · subst same
        have only : (⟨upper, lower⟩ : Link) ∈ graph.links → upper = previous := fun hangs =>
          forest.hangs_unique hangs (hangs_of_parent? held)
        simpa using fun other hangs => (other (only hangs)).elim
      · simp [same]

private theorem transGen_link (forest : graph.IsForest) {start goal : String}
    (path : Relation.TransGen (graph.link parent child (graph.parent? child)).Hangs start goal) :
    Relation.TransGen graph.Hangs start goal ∨
      Relation.ReflTransGen graph.Hangs start parent ∧
        Relation.ReflTransGen graph.Hangs child goal := by
  have step : ∀ {upper lower : String},
      (graph.link parent child (graph.parent? child)).Hangs upper lower →
        graph.Hangs upper lower ∨ upper = parent ∧ lower = child := by
    intro upper lower hangs
    rw [forest.hangs_link_iff] at hangs
    by_cases same : lower = child
    · rw [if_pos same] at hangs
      exact .inr ⟨hangs, same⟩
    · rw [if_neg same] at hangs
      exact .inl hangs
  induction path with
  | single hangs =>
      rcases step hangs with old | ⟨rfl, rfl⟩
      · exact .inl (.single old)
      · exact .inr ⟨.refl, .refl⟩
  | tail _ hangs ih =>
      rcases step hangs with old | ⟨rfl, rfl⟩
      · rcases ih with path | ⟨first, last⟩
        · exact .inl (path.tail old)
        · exact .inr ⟨first, last.tail old⟩
      · rcases ih with path | ⟨first, _⟩
        · exact .inr ⟨path.to_reflTransGen, .refl⟩
        · exact .inr ⟨first, .refl⟩

/-- A child may hang from any frame that does not lie below it. -/
theorem IsForest.link (forest : graph.IsForest)
    (free : ¬Relation.ReflTransGen graph.Hangs child parent) :
    (graph.link parent child (graph.parent? child)).IsForest where
  single := by
    rw [links_link, List.map_cons, List.nodup_cons]
    cases held : graph.parent? child with
    | none =>
        refine ⟨fun member => ?_, forest.single⟩
        obtain ⟨link, present, rfl⟩ := List.mem_map.1 member
        exact parent?_eq_none_iff.1 held link.parent present
    | some previous =>
        refine ⟨fun member => ?_, forest.single.sublist ((List.erase_sublist).map _)⟩
        obtain ⟨link, present, rfl⟩ := List.mem_map.1 member
        have ⟨other, old⟩ := (forest.single.of_map).mem_erase_iff.1 present
        have same : link.parent = previous := forest.hangs_unique old (hangs_of_parent? held)
        exact other (by rw [← same])
  acyclic := by
    intro frame cycle
    rcases transGen_link forest cycle with old | ⟨first, last⟩
    · exact forest.acyclic frame old
    · exact free (last.trans first)

/-! ## Accepted parents -/

/-- Everything that a request for a parent can come to, under either policy. -/
inductive Settles (graph : FrameGraph) (parent child : String) :
    ReparentPolicy → Except Failure (ParentChange × FrameGraph) → Prop
  | cycle {policy : ReparentPolicy} (below : Relation.ReflTransGen graph.Hangs child parent) :
      Settles graph parent child policy (.error (.cycle parent child))
  | unchanged {policy : ReparentPolicy} (held : graph.parent? child = some parent) :
      Settles graph parent child policy (.ok (.unchanged, graph))
  | attached {policy : ReparentPolicy} (root : graph.parent? child = none)
      (free : ¬Relation.ReflTransGen graph.Hangs child parent) :
      Settles graph parent child policy (.ok (.attached, graph.link parent child none))
  | reparented {previous : String} (held : graph.parent? child = some previous)
      (moves : previous ≠ parent) (free : ¬Relation.ReflTransGen graph.Hangs child parent) :
      Settles graph parent child .replace
        (.ok (.reparented previous, graph.link parent child (some previous)))
  | conflict {current : String} (held : graph.parent? child = some current)
      (moves : current ≠ parent) (free : ¬Relation.ReflTransGen graph.Hangs child parent) :
      Settles graph parent child .reject (.error (.conflictingParent child current parent))

theorem settles_setParent (graph : FrameGraph) (parent child : String) (policy : ReparentPolicy) :
    graph.Settles parent child policy (graph.setParent parent child policy) := by
  unfold setParent
  split
  case isTrue same =>
    subst same
    exact .cycle .refl
  case isFalse differ =>
    split
    case isTrue held => exact .unchanged held
    case isFalse moves =>
      split
      case isTrue reached => exact .cycle (reaches_iff.1 reached)
      case isFalse unreached =>
        have free : ¬Relation.ReflTransGen graph.Hangs child parent :=
          fun path => unreached (reaches_iff.2 path)
        split
        case h_1 root => exact .attached root free
        case h_2 previous held => exact .reparented held (fun same => moves (same ▸ held)) free
        case h_3 current held => exact .conflict held (fun same => moves (same ▸ held)) free

/-- What `setParent` does to a graph when it accepts. -/
inductive Accepts (graph : FrameGraph) (parent child : String) : ParentChange → FrameGraph → Prop
  | unchanged (held : graph.parent? child = some parent) :
      Accepts graph parent child .unchanged graph
  | attached (root : graph.parent? child = none)
      (free : ¬Relation.ReflTransGen graph.Hangs child parent) :
      Accepts graph parent child .attached (graph.link parent child none)
  | reparented {previous : String} (held : graph.parent? child = some previous)
      (moves : previous ≠ parent) (free : ¬Relation.ReflTransGen graph.Hangs child parent) :
      Accepts graph parent child (.reparented previous) (graph.link parent child (some previous))

theorem accepts_of_setParent {policy : ReparentPolicy} {change : ParentChange} {next : FrameGraph}
    (accepted : graph.setParent parent child policy = .ok (change, next)) :
    graph.Accepts parent child change next := by
  have settles := graph.settles_setParent parent child policy
  rw [accepted] at settles
  cases settles with
  | unchanged held => exact .unchanged held
  | attached root free => exact .attached root free
  | reparented held moves free => exact .reparented held moves free

/-- Why `setParent` refuses a parent. -/
inductive Refuses (graph : FrameGraph) (parent child : String) : Failure → Prop
  | cycle (below : Relation.ReflTransGen graph.Hangs child parent) :
      Refuses graph parent child (.cycle parent child)
  | conflict {current : String} (held : graph.parent? child = some current)
      (moves : current ≠ parent) :
      Refuses graph parent child (.conflictingParent child current parent)

theorem refuses_of_setParent {policy : ReparentPolicy} {failure : Failure}
    (refused : graph.setParent parent child policy = .error failure) :
    graph.Refuses parent child failure := by
  have settles := graph.settles_setParent parent child policy
  rw [refused] at settles
  cases settles with
  | cycle below => exact .cycle below
  | conflict held moves free => exact .conflict held moves

theorem IsForest.ne_of_parent? (forest : graph.IsForest)
    (held : graph.parent? child = some parent) : parent ≠ child := by
  rintro rfl
  exact forest.acyclic parent (.single (hangs_of_parent? held))

/-- The parent that a child has already is accepted again. -/
theorem IsForest.accepts_held (forest : graph.IsForest) (held : graph.parent? child = some parent)
    (policy : ReparentPolicy) : graph.setParent parent child policy = .ok (.unchanged, graph) := by
  unfold setParent
  rw [if_neg (forest.ne_of_parent? held), if_pos held]

/-- The first parent of all is accepted. -/
theorem accepts_first (apart : parent ≠ child) (policy : ReparentPolicy) :
    ∃ change next, (∅ : FrameGraph).setParent parent child policy = .ok (change, next) := by
  cases asked : (∅ : FrameGraph).setParent parent child policy with
  | ok accepted => exact ⟨accepted.1, accepted.2, rfl⟩
  | error failure =>
      cases refuses_of_setParent asked with
      | conflict held => cases held
      | cycle below =>
          rcases Relation.ReflTransGen.cases_tail below with same | ⟨_, _, link⟩
          · exact absurd same apart
          · exact absurd link List.not_mem_nil

namespace Accepts

variable {change : ParentChange} {next : FrameGraph}

theorem isForest (forest : graph.IsForest) (accepted : graph.Accepts parent child change next) :
    next.IsForest := by
  cases accepted with
  | unchanged held => exact forest
  | attached root free => simpa [root] using forest.link free
  | reparented held moves free => simpa [held] using forest.link free

/-- After an accepted request the child hangs from the requested parent, and no other frame
moves. -/
theorem parent?_eq (accepted : graph.Accepts parent child change next) (frame : String) :
    next.parent? frame = if frame = child then some parent else graph.parent? frame := by
  cases accepted with
  | unchanged held =>
      by_cases same : frame = child
      · rw [if_pos same, same, held]
      · rw [if_neg same]
  | attached root free => exact parent?_link _ _ _ _
  | reparented held moves free => exact parent?_link _ _ _ _

/-- An accepted request registers both frames, the parent first. -/
theorem frames_eq (accepted : graph.Accepts parent child change next) :
    next.frames = ((graph.register parent).register child).frames := by
  cases accepted with
  | unchanged held =>
      have ⟨parentKnown, childKnown⟩ := mem_frames_of_parent? held
      have parentStays : graph.register parent = graph := dif_pos parentKnown
      have childStays : graph.register child = graph := dif_pos childKnown
      rw [parentStays, childStays]
  | attached root free => rfl
  | reparented held moves free => rfl

theorem mem_frames (accepted : graph.Accepts parent child change next) {frame : String} :
    frame ∈ next.frames ↔ frame = child ∨ frame = parent ∨ frame ∈ graph.frames := by
  rw [accepted.frames_eq, mem_register, mem_register]

end Accepts

end FrameGraph

end FrameForest
