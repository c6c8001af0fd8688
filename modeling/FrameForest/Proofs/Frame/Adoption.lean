import FrameForest.Proofs.Frame.Enumeration

/-!
# Which parents are accepted

A request for a parent is refused as a cycle exactly when the link would close one,
also when a whole tree would move along with the child.  Of the other requests a
policy may refuse those that move a child, and no more.
-/

namespace FrameForest

namespace FrameGraph

variable {graph : FrameGraph} {parent child : String}

/-- The child is its new parent, or lies above it. -/
def Closes (graph : FrameGraph) (parent child : String) : Prop :=
  parent = child ∨
    parent ∈ graph.frames ∧ child ∈ graph.frames ∧ Relation.TransGen graph.Hangs child parent

theorem closes_iff :
    graph.Closes parent child ↔ Relation.ReflTransGen graph.Hangs child parent := by
  constructor
  · rintro (rfl | ⟨_, _, above⟩)
    · exact .refl
    · exact above.to_reflTransGen
  · intro above
    rcases Relation.reflTransGen_iff_eq_or_transGen.1 above with same | path
    · exact .inl same
    · obtain ⟨upper, _, last⟩ := Relation.TransGen.tail'_iff.1 path
      obtain ⟨lower, first, _⟩ := Relation.TransGen.head'_iff.1 path
      exact .inr ⟨(graph.closed _ last).2, (graph.closed _ first).1, path⟩

namespace IsForest

variable (forest : graph.IsForest)

include forest

/-- Links below a child stay when the child moves. -/
private theorem transGen_link_of_transGen {previous : Option String}
    (held : graph.parent? child = previous) {frame : String}
    (path : Relation.TransGen graph.Hangs child frame) :
    Relation.TransGen (graph.link parent child previous).Hangs child frame := by
  subst held
  have stays : ∀ {upper lower : String}, graph.Hangs upper lower → lower ≠ child →
      (graph.link parent child (graph.parent? child)).Hangs upper lower := by
    intro upper lower hangs other
    rwa [forest.hangs_link_iff, if_neg other]
  induction path with
  | single hangs =>
      apply Relation.TransGen.single (stays hangs _)
      rintro rfl
      exact forest.acyclic _ (.single hangs)
  | tail path hangs ih =>
      apply ih.tail (stays hangs _)
      rintro rfl
      exact forest.acyclic _ (path.tail hangs)

/-- A link keeps the graph a forest unless it closes a cycle. -/
theorem isForest_link_iff :
    (graph.link parent child (graph.parent? child)).IsForest ↔ ¬graph.Closes parent child := by
  constructor
  · intro linked closes
    have new : (graph.link parent child (graph.parent? child)).Hangs parent child := by
      rw [forest.hangs_link_iff, if_pos rfl]
    rcases closes with rfl | ⟨_, _, path⟩
    · exact linked.acyclic _ (.single new)
    · exact linked.acyclic _ ((forest.transGen_link_of_transGen rfl path).tail new)
  · intro free
    rw [closes_iff] at free
    exact forest.link free

theorem not_closes_of_parent? (held : graph.parent? child = some parent) :
    ¬graph.Closes parent child := by
  rw [closes_iff]
  intro above
  exact forest.acyclic child (.tail' above (hangs_of_parent? held))

end IsForest

/-- What is answered to a request for a parent, by rules of which the earlier ones come first. -/
inductive Verdict (graph : FrameGraph) (parent child : String) (policy : ReparentPolicy) :
    Except Failure ParentChange → Prop
  | cycle (closes : graph.Closes parent child) :
      Verdict graph parent child policy (.error (.cycle parent child))
  | unchanged (free : ¬graph.Closes parent child) (held : graph.parent? child = some parent) :
      Verdict graph parent child policy (.ok .unchanged)
  | conflict {current : String} (free : ¬graph.Closes parent child)
      (held : graph.parent? child = some current) (moves : current ≠ parent)
      (rejects : policy = .reject) :
      Verdict graph parent child policy (.error (.conflictingParent child current parent))
  | attached (free : ¬graph.Closes parent child) (root : graph.parent? child = none) :
      Verdict graph parent child policy (.ok .attached)
  | reparented {previous : String} (free : ¬graph.Closes parent child)
      (held : graph.parent? child = some previous) (moves : previous ≠ parent)
      (replaces : policy = .replace) :
      Verdict graph parent child policy (.ok (.reparented previous))

variable {policy : ReparentPolicy}

theorem Verdict.unique {first second : Except Failure ParentChange}
    (left : graph.Verdict parent child policy first)
    (right : graph.Verdict parent child policy second) : first = second := by
  cases left with
  | cycle closes => cases right <;> simp_all
  | unchanged free held => cases right <;> simp_all
  | conflict free held moves rejects => cases right <;> simp_all
  | attached free root => cases right <;> simp_all
  | reparented free held moves replaces => cases right <;> simp_all

theorem IsForest.verdict_setParent (forest : graph.IsForest) (parent child : String)
    (policy : ReparentPolicy) :
    graph.Verdict parent child policy ((graph.setParent parent child policy).map Prod.fst) := by
  have settles := graph.settles_setParent parent child policy
  generalize graph.setParent parent child policy = answer at settles ⊢
  cases settles with
  | cycle below => exact .cycle (closes_iff.2 below)
  | unchanged held => exact .unchanged (forest.not_closes_of_parent? held) held
  | attached root free => exact .attached (mt closes_iff.1 free) root
  | reparented held moves free => exact .reparented (mt closes_iff.1 free) held moves rfl
  | conflict held moves free => exact .conflict (mt closes_iff.1 free) held moves rfl

end FrameGraph

/-! ## Requests to a roster -/

namespace Roster

variable {roster next : Roster} {parent child : String} {policy : ReparentPolicy}
  {change : ParentChange}

theorem map_fst_setParent (roster : Roster) (parent child : String) (policy : ReparentPolicy) :
    (roster.setParent parent child policy).map Prod.fst =
      (roster.graph.setParent parent child policy).map Prod.fst := by
  unfold setParent
  cases roster.graph.setParent parent child policy with
  | error failure => rfl
  | ok accepted =>
      obtain ⟨change, graph⟩ := accepted
      cases change <;> rfl

/-- The child hangs from the requested parent, no other frame moves, and what was missing of the two
is appended. -/
structure Adopts (roster : Roster) (parent child : String) (next : Roster) : Prop where
  hangs : next.graph.parent? child = some parent
  others : ∀ other, other ≠ child → next.graph.parent? other = roster.graph.parent? other
  frames : next.graph.frames =
    roster.graph.frames ++ [parent, child].filter (· ∉ roster.graph.frames)
  isForest : next.graph.IsForest

theorem adopts_of_setParent (forest : roster.graph.IsForest)
    (accepted : roster.setParent parent child policy = .ok (change, next)) :
    roster.Adopts parent child next := by
  have accepts := (setParent_cases accepted).1
  have moved := accepts.parent?_eq
  have linked := accepts.isForest forest
  have hangs : next.graph.parent? child = some parent := by rw [moved, if_pos rfl]
  refine ⟨hangs, fun other apart => by rw [moved, if_neg apart], ?_, linked⟩
  have apart : child ≠ parent := (linked.ne_of_parent? hangs).symm
  rw [accepts.frames_eq, FrameGraph.frames_register, FrameGraph.frames_register]
  by_cases parentKnown : parent ∈ roster.graph.frames <;>
    by_cases childKnown : child ∈ roster.graph.frames <;> simp [parentKnown, childKnown, apart]

/-- How a roster decides on a request. -/
structure Decides (roster : Roster) (parent child : String) (policy : ReparentPolicy) : Prop where
  told : ∀ answer, (roster.setParent parent child policy).map Prod.fst = answer ↔
    roster.graph.Verdict parent child policy answer
  /-- Closing is what a link must not do to a forest. -/
  closes : roster.graph.Closes parent child ↔
    ¬(roster.graph.link parent child (roster.graph.parent? child)).IsForest
  adopts : ∀ change next, roster.setParent parent child policy = .ok (change, next) →
    roster.Adopts parent child next

theorem decides_of_isForest (forest : roster.graph.IsForest) (parent child : String)
    (policy : ReparentPolicy) : roster.Decides parent child policy where
  told := by
    have verdict := forest.verdict_setParent parent child policy
    intro answer
    rw [map_fst_setParent]
    constructor
    · rintro rfl
      exact verdict
    · exact verdict.unique
  closes := by rw [forest.isForest_link_iff, not_not]
  adopts := fun _ _ => adopts_of_setParent forest

end Roster

namespace Enumeration

theorem isForest_perform {enumeration : Enumeration} (forest : enumeration.roster.graph.IsForest)
    (call : RosterCall) : (call.perform enumeration).2.roster.graph.IsForest := by
  obtain ⟨roster, cursors⟩ := enumeration
  cases call with
  | register frame =>
      show (roster.register frame).graph.IsForest
      rw [Roster.graph_register]
      exact forest.register frame
  | setParent parent child policy =>
      cases told : roster.setParent parent child policy with
      | error failure =>
          rw [RosterCall.perform, told]
          exact forest
      | ok accepted =>
          rw [RosterCall.perform, told]
          exact (Roster.setParent_cases told).1.isForest forest
  | clear => exact .empty
  | list => exact forest
  | next number => exact forest
  | copy number => exact forest
  | restart number => exact forest

theorem isForest_run (calls : List RosterCall) : (empty.run calls).2.roster.graph.IsForest := by
  induction calls using List.reverseRecOn with
  | nil => exact .empty
  | append_singleton earlier call ih =>
      rw [run_concat]
      exact isForest_perform ih call

/-- Whatever was requested before. -/
theorem decides_run (calls : List RosterCall) (parent child : String) (policy : ReparentPolicy) :
    (empty.run calls).2.roster.Decides parent child policy :=
  Roster.decides_of_isForest (isForest_run calls) parent child policy

end Enumeration

end FrameForest
