import FrameForest.Proofs.Frame.CommonAncestors
import FrameForest.Proofs.Frame.Unfolding

/-!
# The frame that a scene is drawn in

The default frame is a root with a conventional name, or else the root of the
largest tree.  How large a tree is can be seen from below, by climbing from every
frame to its root: the walk down from the root meets just these frames.  Of trees
of one size the root with the smallest name is taken.
-/

namespace FrameForest

namespace FrameGraph

variable {graph : FrameGraph}

/-- A registered frame without parent. -/
def IsRoot (graph : FrameGraph) (frame : String) : Prop :=
  frame ∈ graph.frames ∧ graph.parent? frame = none

/-- The number of frames with a given root. -/
def treeSize (graph : FrameGraph) (root : String) : Nat :=
  (graph.frames.filter fun frame => graph.rootOf frame = .ok root).length

/-- More weight, or as much and the smaller name. -/
def Outweighs (weight : String → Nat) (name other : String) : Prop :=
  weight other < weight name ∨ weight other = weight name ∧ name < other

/-- Which root is suggested, by rules of which the earlier one comes first. -/
inductive Suggests (graph : FrameGraph) : String → Prop
  | conventional {name : String} {before after : List String}
      (listed : ["map", "odom", "world"] = before ++ name :: after) (root : graph.IsRoot name)
      (first : ∀ other ∈ before, ¬graph.IsRoot other) : Suggests graph name
  | largest {root : String} (unconventional : ∀ name ∈ ["map", "odom", "world"], ¬graph.IsRoot name)
      (isRoot : graph.IsRoot root)
      (largest : ∀ other, graph.IsRoot other → other ≠ root →
        Outweighs graph.treeSize root other) : Suggests graph root

theorem Suggests.isRoot {frame : String} (suggests : graph.Suggests frame) :
    graph.IsRoot frame := by
  cases suggests with
  | conventional listed root first => exact root
  | largest unconventional isRoot largest => exact isRoot

/-- How the default frame is picked. -/
structure PicksRoot (graph : FrameGraph) : Prop where
  none : graph.defaultFrame? = none ↔ graph.frames = []
  root : ∀ frame, graph.defaultFrame? = some frame → graph.IsRoot frame
  suggested : ∀ frame, graph.defaultFrame? = some frame ↔ graph.Suggests frame

/-! ## The heaviest of several names -/

section Weights

variable {weight : String → Nat}

theorem Outweighs.asymm {name other : String} (outweighs : Outweighs weight name other) :
    ¬Outweighs weight other name := by
  rintro (less | ⟨same, smaller⟩)
  · rcases outweighs with more | ⟨equal, _⟩ <;> omega
  · rcases outweighs with more | ⟨_, greater⟩
    · omega
    · exact Std.lt_irrefl (Std.lt_trans smaller greater)

/-- Going through names in ascending order and changing only to heavier ones, one ends with the name
that outweighs all others. -/
private theorem foldl_heavier (held : String) (items : List String)
    (ascending : (held :: items).Pairwise (· < ·)) :
    ∃ best ∈ held :: items,
      items.foldl
        (fun best item =>
          match best with
          | none => some item
          | some held => if weight held < weight item then some item else some held)
        (some held) = some best ∧
      ∀ other ∈ held :: items, other ≠ best → Outweighs weight best other := by
  induction items generalizing held with
  | nil => exact ⟨held, List.mem_cons_self, rfl, by simp⟩
  | cons item rest ih =>
      obtain ⟨first, later⟩ := List.pairwise_cons.1 ascending
      rw [List.foldl_cons]
      by_cases heavier : weight held < weight item
      · obtain ⟨best, member, told, others⟩ := ih item later
        refine ⟨best, List.mem_cons_of_mem _ member, ?_, fun other present apart => ?_⟩
        · rw [← told]
          exact congrArg (List.foldl _ · rest) (if_pos heavier)
        · rcases List.mem_cons.1 present with rfl | further
          · left
            by_cases same : item = best
            · exact same ▸ heavier
            · rcases others item List.mem_cons_self same with less | ⟨equal, _⟩ <;> omega
          · exact others other further apart
      · have skipped : (held :: rest).Pairwise (· < ·) :=
          ascending.sublist ((List.sublist_cons_self item rest).cons_cons held)
        obtain ⟨best, member, told, others⟩ := ih held skipped
        refine ⟨best, ?_, ?_, fun other present apart => ?_⟩
        · rcases List.mem_cons.1 member with rfl | further
          · exact List.mem_cons_self
          · exact List.mem_cons_of_mem _ (List.mem_cons_of_mem _ further)
        · rw [← told]
          exact congrArg (List.foldl _ · rest) (if_neg heavier)
        · rcases List.mem_cons.1 present with rfl | further
          · exact others other List.mem_cons_self apart
          · rcases List.mem_cons.1 further with rfl | further
            · by_cases same : held = best
              · subst same
                rcases Nat.lt_or_eq_of_le (Nat.le_of_not_lt heavier) with less | equal
                · exact .inl less
                · exact .inr ⟨equal, first _ List.mem_cons_self⟩
              · rcases others held List.mem_cons_self same with less | ⟨_, smaller⟩
                · exact .inl (Nat.lt_of_le_of_lt (Nat.le_of_not_lt heavier) less)
                · -- a later name is not smaller
                  have later := (List.mem_cons.1 member).resolve_left (Ne.symm same)
                  have greater := List.rel_of_pairwise_cons skipped later
                  exact absurd (Std.lt_trans smaller greater) Std.lt_irrefl
            · exact others other (List.mem_cons_of_mem _ further) apart

theorem heaviest?_cases {names : List String} (ascending : names.Pairwise (· < ·)) :
    names = [] ∧ heaviest? weight names = none ∨
      ∃ best ∈ names, heaviest? weight names = some best ∧
        ∀ other ∈ names, other ≠ best → Outweighs weight best other := by
  cases names with
  | nil => exact .inl ⟨rfl, rfl⟩
  | cons held items => exact .inr (foldl_heavier held items ascending)

end Weights

/-! ## The size of a tree -/

namespace IsForest

variable (forest : graph.IsForest)

include forest

theorem rootOf_iff_of_isRoot {root frame : String} (isRoot : graph.IsRoot root) :
    frame ∈ graph.frames ∧ graph.rootOf frame = .ok root ↔
      Relation.ReflTransGen graph.Hangs root frame := by
  rw [forest.rootOf_eq_ok_iff]
  constructor
  · rintro ⟨_, _, _, above⟩
    exact above
  · intro above
    have known := (mem_frames_iff_of_path above).1 isRoot.1
    exact ⟨known, known, isRoot.2, above⟩

/-- A tree consists of its root and the frames below it. -/
theorem treeSize_eq {root : String} (isRoot : graph.IsRoot root) :
    graph.treeSize root = graph.descendantCount root + 1 := by
  have level : ∀ child ∈ graph.children root, child ∈ graph.frames ∧ graph.Lies child 1 := by
    intro child member
    have hangs := mem_children.1 member
    exact ⟨(graph.closed _ hangs).2,
      forest.lies_children (.of_parent?_eq_none isRoot.2) child member⟩
  have distinct : (graph.children root).Nodup :=
    (forest.ascending_children root).imp Std.ne_of_lt
  have unfolds := forest.unfolds_walk level distinct
  have listed := unfolds.mem_iff
  have once := unfolds.nodup forest (fun child member => (level child member).2) distinct
  have below : ∀ frame, frame ∈ (graph.walk ((graph.children root).map (·, 1)) []).map Prod.fst ↔
      Relation.TransGen graph.Hangs root frame := by
    intro frame
    rw [listed, Relation.TransGen.head'_iff]
    simp only [mem_children]
  have same : (graph.frames.filter fun frame => graph.rootOf frame = .ok root).Perm
      (root :: (graph.walk ((graph.children root).map (·, 1)) []).map Prod.fst) := by
    apply (List.perm_ext_iff_of_nodup (graph.distinct.filter _) _).2
    · intro frame
      rw [List.mem_filter, decide_eq_true_eq, forest.rootOf_iff_of_isRoot isRoot, List.mem_cons,
        below, Relation.reflTransGen_iff_eq_or_transGen]
    · exact List.nodup_cons.2 ⟨fun listed => forest.acyclic root ((below root).1 listed), once⟩
  have length := same.length_eq
  rwa [List.length_cons, List.length_map] at length

theorem outweighs_treeSize {root other : String} (isRoot : graph.IsRoot root)
    (isOther : graph.IsRoot other) : Outweighs graph.treeSize root other ↔
      Outweighs graph.descendantCount root other := by
  unfold Outweighs
  rw [forest.treeSize_eq isRoot, forest.treeSize_eq isOther, Nat.add_lt_add_iff_right,
    Nat.add_right_cancel_iff]

/-! ## Picking -/

omit forest in
theorem find?_conventional_eq_some_iff {name : String} :
    conventionalRoots.find? (· ∈ graph.roots) = some name ↔ graph.IsRoot name ∧
      ∃ before after, ["map", "odom", "world"] = before ++ name :: after ∧
        ∀ other ∈ before, ¬graph.IsRoot other := by
  have isRoot_iff (other : String) : other ∈ graph.roots ↔ graph.IsRoot other := mem_roots
  rw [List.find?_eq_some_iff_append]
  simp [isRoot_iff, conventionalRoots]

omit forest in
theorem find?_conventional_eq_none_iff :
    conventionalRoots.find? (· ∈ graph.roots) = none ↔
      ∀ name ∈ ["map", "odom", "world"], ¬graph.IsRoot name := by
  have isRoot_iff (other : String) : other ∈ graph.roots ↔ graph.IsRoot other := mem_roots
  rw [List.find?_eq_none]
  simp [isRoot_iff, conventionalRoots]

theorem roots_eq_nil_iff : graph.roots = [] ↔ graph.frames = [] := by
  constructor
  · intro none
    apply List.eq_nil_iff_forall_not_mem.2
    intro frame known
    obtain ⟨root, told⟩ := forest.exists_rootOf known
    obtain ⟨_, highest, above⟩ := forest.rootOf_eq_ok_iff.1 told
    have member := mem_roots.2 ⟨(mem_frames_iff_of_path above).2 known, highest⟩
    rw [none] at member
    cases member
  · intro none
    simp [roots, none]

theorem defaultFrame?_eq_some_iff {frame : String} :
    graph.defaultFrame? = some frame ↔ graph.Suggests frame := by
  unfold defaultFrame?
  cases found : conventionalRoots.find? (· ∈ graph.roots) with
  | some name =>
      obtain ⟨isRoot, before, after, listed, first⟩ := find?_conventional_eq_some_iff.1 found
      rw [Option.some_or, Option.some.injEq]
      constructor
      · rintro rfl
        exact .conventional listed isRoot first
      · intro suggested
        cases suggested with
        | conventional listed root first =>
            rw [find?_conventional_eq_some_iff.2 ⟨root, _, _, listed, first⟩] at found
            exact (Option.some.inj found).symm
        | largest unconventional =>
            rw [find?_conventional_eq_none_iff.2 unconventional] at found
            cases found
  | none =>
      have unconventional := find?_conventional_eq_none_iff.1 found
      rw [Option.none_or]
      rcases heaviest?_cases ascending_roots with ⟨empty, told⟩ | ⟨best, member, told, others⟩
      · -- without roots nothing is suggested either
        rw [told]
        constructor
        · rintro ⟨⟩
        · intro suggested
          have member := mem_roots.2 suggested.isRoot
          rw [empty] at member
          cases member
      · rw [told, Option.some.injEq]
        have largest : ∀ other, graph.IsRoot other → other ≠ best →
            Outweighs graph.treeSize best other := by
          intro other isOther apart
          rw [forest.outweighs_treeSize (mem_roots.1 member) isOther]
          exact others other (mem_roots.2 isOther) apart
        constructor
        · rintro rfl
          exact .largest unconventional (mem_roots.1 member) largest
        · intro suggested
          cases suggested with
          | conventional listed root first =>
              rw [find?_conventional_eq_some_iff.2 ⟨root, _, _, listed, first⟩] at found
              cases found
          | largest _ isRoot dominates =>
              by_contra apart
              have heavier := largest frame isRoot (Ne.symm apart)
              exact heavier.asymm (dominates best (mem_roots.1 member) apart)

theorem picksRoot : graph.PicksRoot where
  none := by
    rw [← forest.roots_eq_nil_iff]
    unfold defaultFrame?
    rw [Option.or_eq_none_iff, find?_conventional_eq_none_iff]
    constructor
    · rintro ⟨_, told⟩
      rcases heaviest?_cases ascending_roots with ⟨empty, _⟩ | ⟨best, _, found, _⟩
      · exact empty
      · rw [told] at found
        cases found
    · intro empty
      refine ⟨fun name _ isRoot => ?_, by rw [empty]; rfl⟩
      have member := mem_roots.2 isRoot
      rw [empty] at member
      cases member
  root frame told := (forest.defaultFrame?_eq_some_iff.1 told).isRoot
  suggested frame := forest.defaultFrame?_eq_some_iff

end IsForest

end FrameGraph

/-- Whatever was requested before. -/
theorem Enumeration.picksRoot_run (calls : List RosterCall) :
    (empty.run calls).2.roster.graph.PicksRoot :=
  (isForest_run calls).picksRoot

end FrameForest
