import FrameForest.Proofs.Frame.Climbing

/-!
# Lineages and routes

In a forest every frame has a lineage, so that the bound of the climb is never
reached, and a route between two frames can fail only because one of them is
unknown or because their trees differ.
-/

namespace FrameForest

namespace FrameGraph

variable {graph : FrameGraph}

theorem IsForest.exists_lineage (forest : graph.IsForest) (frame : String) :
    ∃ chain, graph.lineage frame = .ok chain := by
  cases told : graph.lineage frame with
  | ok chain => exact ⟨chain, rfl⟩
  | error failure =>
      obtain ⟨child, _, _, _, round⟩ := round_of_lineage told
      exact absurd (below_of_rises round) (forest.acyclic child)

/-- How many frames there are bounds the climb and does not change the lineage. -/
theorem IsForest.lineage_congr (forest : graph.IsForest) {other : FrameGraph}
    (otherForest : other.IsForest) (same : ∀ child, graph.parent? child = other.parent? child)
    (frame : String) : graph.lineage frame = other.lineage frame := by
  obtain ⟨first, left⟩ := forest.exists_lineage frame
  obtain ⟨second, right⟩ := otherForest.exists_lineage frame
  have equal : first = second :=
    ((climbs_of_climb left).congr same).unique (climbs_of_climb right)
  rw [left, right, equal]

/-! ## Numbers of frames -/

theorem index_eq_ok_iff {frame : String} {number : Nat} :
    graph.index frame = .ok number ↔ graph.frames[number]? = some frame := by
  unfold index
  split
  case h_1 found known =>
    obtain ⟨inside, here, _⟩ := List.idxOf?_eq_some_iff.1 known
    rw [Except.ok.injEq]
    constructor
    · rintro rfl
      rw [List.getElem?_eq_getElem inside, here]
    · intro there
      obtain ⟨inside', there⟩ := List.getElem?_eq_some_iff.1 there
      exact (graph.distinct.getElem_inj_iff).1 (here.trans there.symm)
  case h_2 unknown =>
    have absent := List.idxOf?_eq_none_iff.1 unknown
    simp only [reduceCtorEq, false_iff]
    exact fun there => absent (List.mem_of_getElem? there)

theorem index_of_mem {frame : String} (known : frame ∈ graph.frames) :
    ∃ number, graph.index frame = .ok number := by
  obtain ⟨number, there⟩ := List.getElem?_of_mem known
  exact ⟨number, index_eq_ok_iff.2 there⟩

theorem index_of_not_mem {frame : String} (unknown : frame ∉ graph.frames) :
    graph.index frame = .error (.unknownFrame frame) := by
  unfold index
  rw [List.idxOf?_eq_none_iff.2 unknown]

/-! ## Routes -/

/-- The route between two frames whose lineages are given, when both are registered. -/
def join (source target : String) (ascent descent : List String) : Except Failure Route :=
  match ascent.find? (· ∈ descent) with
  | none => .error (.unconnected source target)
  | some ancestor =>
    .ok
      { ancestor
        up := ascent.takeWhile (· ≠ ancestor)
        down := (descent.takeWhile (· ≠ ancestor)).reverse }

/-- The answer of `route` in one expression, once the lineages are known. -/
theorem route_eq {source target : String} {ascent descent : List String}
    (up : graph.lineage source = .ok ascent) (down : graph.lineage target = .ok descent) :
    graph.route source target =
      if source ∉ graph.frames then .error (.unknownFrame source)
      else if target ∉ graph.frames then .error (.unknownFrame target)
      else if source = target then .ok ⟨source, [], []⟩
      else join source target ascent descent := by
  unfold route
  by_cases sourceKnown : source ∈ graph.frames
  · obtain ⟨first, sourceIndex⟩ := index_of_mem sourceKnown
    by_cases targetKnown : target ∈ graph.frames
    · obtain ⟨second, targetIndex⟩ := index_of_mem targetKnown
      simp only [sourceIndex, targetIndex, up, down, sourceKnown, targetKnown, not_true_eq_false,
        if_false, bind, Except.bind]
      split
      · rfl
      · unfold join
        cases ascent.find? (· ∈ descent) <;> rfl
    · simp [sourceIndex, index_of_not_mem targetKnown, sourceKnown, targetKnown, bind, Except.bind]
  · simp [index_of_not_mem sourceKnown, sourceKnown, bind, Except.bind]

/-- Why there is no route, by rules of which the earlier ones come first. -/
inductive Unrouted (graph : FrameGraph) (source target : String) : Failure → Prop
  | source (unknown : source ∉ graph.frames) : Unrouted graph source target (.unknownFrame source)
  | target (known : source ∈ graph.frames) (unknown : target ∉ graph.frames) :
      Unrouted graph source target (.unknownFrame target)
  | apart (sourceKnown : source ∈ graph.frames) (targetKnown : target ∈ graph.frames) :
      Unrouted graph source target (.unconnected source target)

theorem IsForest.unrouted_of_route (forest : graph.IsForest) {source target : String}
    {failure : Failure} (failed : graph.route source target = .error failure) :
    graph.Unrouted source target failure := by
  obtain ⟨ascent, up⟩ := forest.exists_lineage source
  obtain ⟨descent, down⟩ := forest.exists_lineage target
  rw [route_eq up down] at failed
  split at failed
  case isTrue unknown =>
    cases failed
    exact .source unknown
  case isFalse sourceKnown =>
    have sourceKnown := Classical.not_not.1 sourceKnown
    split at failed
    case isTrue unknown =>
      cases failed
      exact .target sourceKnown unknown
    case isFalse targetKnown =>
      split at failed
      case isTrue => cases failed
      case isFalse =>
        unfold join at failed
        split at failed
        · cases failed
          exact .apart sourceKnown (Classical.not_not.1 targetKnown)
        · cases failed

theorem IsForest.route_congr (forest : graph.IsForest) {other : FrameGraph}
    (otherForest : other.IsForest) (known : ∀ frame, frame ∈ graph.frames ↔ frame ∈ other.frames)
    (same : ∀ child, graph.parent? child = other.parent? child) (source target : String) :
    graph.route source target = other.route source target := by
  obtain ⟨ascent, up⟩ := forest.exists_lineage source
  obtain ⟨descent, down⟩ := forest.exists_lineage target
  have upOther := (forest.lineage_congr otherForest same source).symm.trans up
  have downOther := (forest.lineage_congr otherForest same target).symm.trans down
  rw [route_eq up down, route_eq upOther downOther]
  simp only [known]

/-- A further frame takes no route away. -/
theorem IsForest.route_register (forest : graph.IsForest) {source target : String} {route : Route}
    (found : graph.route source target = .ok route) (frame : String) :
    (graph.register frame).route source target = .ok route := by
  obtain ⟨ascent, up⟩ := forest.exists_lineage source
  obtain ⟨descent, down⟩ := forest.exists_lineage target
  have same : ∀ child, graph.parent? child = (graph.register frame).parent? child :=
    fun child => (parent?_register frame child).symm
  have upNext := (forest.lineage_congr (forest.register frame) same source).symm.trans up
  have downNext := (forest.lineage_congr (forest.register frame) same target).symm.trans down
  rw [route_eq up down] at found
  rw [route_eq upNext downNext]
  split at found
  · cases found
  · split at found
    · cases found
    · rename_i sourceKnown targetKnown
      rw [Classical.not_not] at sourceKnown targetKnown
      rw [if_neg (by simp [mem_register, sourceKnown]),
        if_neg (by simp [mem_register, targetKnown])]
      exact found

end FrameGraph

end FrameForest
