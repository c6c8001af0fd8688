import FrameForest.Frame.Graph
import Mathlib.Logic.Relation

/-!
# Reachability in the graph of frames

A walk lists exactly the frames that links lead to from its pending frames, on
cyclic graphs too.  What `setParent` asks the walk is therefore whether a chain
of links leads from the child down to its new parent.
-/

namespace FrameForest

namespace FrameGraph

/-- Some link puts `child` under `parent`. -/
def Hangs (graph : FrameGraph) (parent child : String) : Prop :=
  ⟨parent, child⟩ ∈ graph.links

@[simp] theorem mem_children {graph : FrameGraph} {frame child : String} :
    child ∈ graph.children frame ↔ graph.Hangs frame child := by
  simp only [children, List.mem_mergeSort, List.mem_map, List.mem_filter, decide_eq_true_eq]
  constructor
  · rintro ⟨link, ⟨member, rfl⟩, rfl⟩
    exact member
  · intro hangs
    exact ⟨⟨frame, child⟩, ⟨hangs, rfl⟩, rfl⟩

/-- Links only lead between registered frames. -/
theorem mem_frames_iff_of_path {graph : FrameGraph} {top frame : String}
    (path : Relation.ReflTransGen graph.Hangs top frame) :
    top ∈ graph.frames ↔ frame ∈ graph.frames := by
  induction path with
  | refl => exact Iff.rfl
  | tail _ hangs ih =>
      have ⟨upper, lower⟩ := graph.closed _ hangs
      exact iff_of_true (ih.2 upper) lower

/-- A walk meets only frames below a pending one. -/
theorem below_pending_of_mem_walk {graph : FrameGraph} {pending : List (String × Nat)}
    {visited : List String} {met : String × Nat} (member : met ∈ graph.walk pending visited) :
    ∃ start ∈ pending, Relation.ReflTransGen graph.Hangs start.1 met.1 := by
  induction pending, visited using walk.induct graph with
  | case1 visited => simp [walk] at member
  | case2 visited frame depth rest old ih =>
      rw [walk, if_pos old] at member
      obtain ⟨start, present, path⟩ := ih member
      exact ⟨start, List.mem_cons_of_mem _ present, path⟩
  | case3 visited frame depth rest fresh ih =>
      rw [walk, if_neg fresh] at member
      rcases List.mem_cons.1 member with rfl | later
      · exact ⟨(frame, depth), List.mem_cons_self, .refl⟩
      · obtain ⟨start, present, path⟩ := ih later
        rcases List.mem_append.1 present with below | present
        · obtain ⟨child, hangs, rfl⟩ := List.mem_map.1 below
          exact ⟨(frame, depth), List.mem_cons_self, .head (mem_children.1 hangs) path⟩
        · exact ⟨start, List.mem_cons_of_mem _ present, path⟩

/-- A walk passes over a pending frame only if it was visited before. -/
theorem pending_met {graph : FrameGraph} {pending : List (String × Nat)} {visited : List String}
    {start : String × Nat} (present : start ∈ pending) :
    start.1 ∈ visited ∨ start.1 ∈ (graph.walk pending visited).map Prod.fst := by
  induction pending, visited using walk.induct graph with
  | case1 visited => simp at present
  | case2 visited frame depth rest old ih =>
      rw [walk, if_pos old]
      rcases List.mem_cons.1 present with rfl | later
      · exact .inl old
      · exact ih later
  | case3 visited frame depth rest fresh ih =>
      rw [walk, if_neg fresh, List.map_cons, List.mem_cons]
      rcases List.mem_cons.1 present with rfl | later
      · exact .inr (.inl rfl)
      · rcases ih (List.mem_append_right _ later) with old | met
        · exact (List.mem_cons.1 old).elim (.inr ∘ .inl) .inl
        · exact .inr (.inr met)

/-- A walk goes on to the children of every frame that it meets. -/
theorem children_met {graph : FrameGraph} {pending : List (String × Nat)} {visited : List String}
    {frame child : String} (met : frame ∈ (graph.walk pending visited).map Prod.fst)
    (hangs : graph.Hangs frame child) :
    child ∈ visited ∨ child ∈ (graph.walk pending visited).map Prod.fst := by
  induction pending, visited using walk.induct graph with
  | case1 visited => simp [walk] at met
  | case2 visited head depth rest old ih =>
      rw [walk, if_pos old] at met ⊢
      exact ih met
  | case3 visited head depth rest fresh ih =>
      rw [walk, if_neg fresh, List.map_cons, List.mem_cons] at met ⊢
      have further : child ∈ head :: visited ∨ child ∈ (graph.walk
          ((graph.children head).map (·, depth + 1) ++ rest) (head :: visited)).map Prod.fst := by
        rcases met with rfl | later
        · have pushed : (child, depth + 1) ∈ (graph.children frame).map (·, depth + 1) ++ rest :=
            List.mem_append_left _ (List.mem_map.2 ⟨child, mem_children.2 hangs, rfl⟩)
          exact pending_met pushed
        · exact ih later
      rcases further with old | met
      · exact (List.mem_cons.1 old).elim (.inr ∘ .inl) .inl
      · exact .inr (.inr met)

theorem reaches_iff {graph : FrameGraph} {start goal : String} :
    graph.reaches start goal = true ↔ Relation.ReflTransGen graph.Hangs start goal := by
  have metGoal : graph.reaches start goal = true ↔
      goal ∈ (graph.walk [(start, 0)] []).map Prod.fst := by
    simp [reaches]
  rw [metGoal]
  constructor
  · intro listed
    obtain ⟨met, member, rfl⟩ := List.mem_map.1 listed
    obtain ⟨origin, present, path⟩ := below_pending_of_mem_walk member
    rw [List.mem_singleton] at present
    rwa [present] at path
  · intro path
    have first : start ∈ (graph.walk [(start, 0)] []).map Prod.fst :=
      (pending_met (List.mem_singleton_self (start, 0))).resolve_left List.not_mem_nil
    clear metGoal
    induction path with
    | refl => exact first
    | tail _ hangs ih => exact (children_met ih hangs).resolve_left List.not_mem_nil

/-- A walk sees no more of a graph than the sorted children of its frames. -/
theorem walk_congr {left right : FrameGraph}
    (same : ∀ frame, left.children frame = right.children frame)
    (pending : List (String × Nat)) (visited : List String) :
    left.walk pending visited = right.walk pending visited := by
  induction pending, visited using walk.induct left with
  | case1 visited => simp [walk]
  | case2 visited frame depth rest old ih => rw [walk, if_pos old, ih, walk, if_pos old]
  | case3 visited frame depth rest fresh ih =>
      rw [walk, if_neg fresh, ih, walk, if_neg fresh, same]

end FrameGraph

end FrameForest
