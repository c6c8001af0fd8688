import FrameForest.Proofs.Frame.Lineage

/-!
# Routes run through the first frame that two lineages share

The lineages of two connected frames end alike, from their first common frame
on, and have nothing in common before it.  A route consists of these two
beginnings, so that the way back is the same route read backwards.
-/

namespace FrameForest

/-- The way back. -/
def Route.reverse (route : Route) : Route :=
  ⟨route.ancestor, route.down.reverse, route.up.reverse⟩

namespace FrameGraph

variable {graph : FrameGraph}

private theorem Climbs.transGen {frame : String} {chain : List String}
    (climbs : graph.Climbs frame chain) :
    ∀ member ∈ chain.tail, Relation.TransGen graph.Hangs member frame := by
  induction climbs with
  | root => simp
  | step hangs above ih =>
      rename_i frame parent chain
      have link := hangs_of_parent? hangs
      obtain ⟨rest, rfl⟩ := above.exists_cons
      intro member present
      rcases List.mem_cons.1 present with rfl | higher
      · exact .single link
      · exact .tail (ih member higher) link

/-- Both ends climb to the ancestor of the route, where their lineages meet for the first time and
go on with `upper`. -/
structure Meets (graph : FrameGraph) (source target : String) (route : Route)
    (upper : List String) : Prop where
  ascent : graph.Climbs source (route.up ++ route.ancestor :: upper)
  descent : graph.Climbs target (route.down.reverse ++ route.ancestor :: upper)
  apart : route.up.Disjoint route.down

namespace Meets

variable {source target : String} {route : Route} {upper : List String}

theorem reverse (meets : graph.Meets source target route upper) :
    graph.Meets target source route.reverse upper where
  ascent := meets.descent
  descent := by
    rw [Route.reverse, List.reverse_reverse]
    exact meets.ascent
  apart := by
    intro frame rising falling
    exact meets.apart (List.mem_reverse.1 falling) (List.mem_reverse.1 rising)

/-- The frames below the ancestor are off the other lineage. -/
theorem not_mem_of_mem_up (meets : graph.Meets source target route upper) {frame : String}
    (rising : frame ∈ route.up) :
    frame ≠ route.ancestor ∧ frame ∉ route.down.reverse ++ route.ancestor :: upper := by
  have distinct := meets.ascent.nodup
  have off : frame ∉ route.ancestor :: upper :=
    fun present => (List.nodup_append.1 distinct).2.2 frame rising frame present rfl
  constructor
  · rintro rfl
    exact off List.mem_cons_self
  · intro present
    rcases List.mem_append.1 present with falling | higher
    · exact meets.apart rising (List.mem_reverse.1 falling)
    · exact off higher

/-- The route does not come down to where it starts. -/
theorem source_not_mem_down (meets : graph.Meets source target route upper) :
    source ∉ route.down := by
  intro falling
  have apart := meets.reverse.not_mem_of_mem_up (List.mem_reverse.2 falling)
  obtain ⟨rest, start⟩ := meets.ascent.exists_cons
  apply apart.2
  rw [Route.reverse, List.reverse_reverse]
  show source ∈ route.up ++ route.ancestor :: upper
  rw [start]
  exact List.mem_cons_self

private theorem takeWhile_split {lower upper : List String} {top : String}
    (before : ∀ frame ∈ lower, frame ≠ top) :
    (lower ++ top :: upper).takeWhile (· ≠ top) = lower := by
  rw [List.takeWhile_append_of_pos (by simpa using before), List.takeWhile_cons_of_neg (by simp),
    List.append_nil]

theorem join_eq (meets : graph.Meets source target route upper) :
    join source target (route.up ++ route.ancestor :: upper)
      (route.down.reverse ++ route.ancestor :: upper) = .ok route := by
  have first : (route.up ++ route.ancestor :: upper).find?
      (· ∈ route.down.reverse ++ route.ancestor :: upper) = some route.ancestor := by
    apply List.find?_eq_some_iff_append.2
    refine ⟨by simp, route.up, upper, rfl, fun frame rising => ?_⟩
    simpa using (meets.not_mem_of_mem_up rising).2
  have back : ∀ frame ∈ route.down.reverse, frame ≠ route.ancestor :=
    fun frame falling => (meets.reverse.not_mem_of_mem_up falling).1
  unfold join
  rw [first]
  dsimp only
  rw [takeWhile_split fun frame rising => (meets.not_mem_of_mem_up rising).1,
    takeWhile_split back, List.reverse_reverse]

theorem eq_of_same_ends (meets : graph.Meets source source route upper) :
    route = ⟨source, [], []⟩ := by
  have same := List.append_cancel_right (meets.ascent.unique meets.descent)
  have none : route.up = [] := by
    apply List.eq_nil_iff_forall_not_mem.2
    intro frame rising
    exact meets.apart rising (List.mem_reverse.1 (same ▸ rising))
  have start := meets.ascent.exists_cons
  rw [none] at same start
  obtain ⟨rest, start⟩ := start
  have ancestor : route.ancestor = source := (List.cons.inj start).1
  have down : route.down = [] := List.reverse_eq_nil_iff.1 same.symm
  cases route
  simp_all

end Meets

private theorem exists_split_at {ancestor : String} {chain : List String}
    (member : ancestor ∈ chain) :
    ∃ upper, chain = chain.takeWhile (· ≠ ancestor) ++ ancestor :: upper := by
  induction chain with
  | nil => cases member
  | cons head rest ih =>
      by_cases same : head = ancestor
      · exact ⟨rest, by simp [same]⟩
      · obtain ⟨upper, split⟩ := ih ((List.mem_cons.1 member).resolve_left (Ne.symm same))
        refine ⟨upper, ?_⟩
        rw [List.takeWhile_cons_of_pos (by simpa using same), List.cons_append, ← split]

private theorem meets_of_join (source target : String) {ascent descent : List String}
    {route : Route} (up : graph.Climbs source ascent) (down : graph.Climbs target descent)
    (joined : join source target ascent descent = .ok route) :
    ∃ upper, graph.Meets source target route upper := by
  unfold join at joined
  split at joined
  case h_1 => cases joined
  case h_2 ancestor first =>
    obtain ⟨shared, lower, upper, split, before⟩ := List.find?_eq_some_iff_append.1 first
    have member : ancestor ∈ descent := by simpa using shared
    have off : ∀ frame ∈ lower, frame ∉ descent := by simpa using before
    obtain ⟨others, splitDown⟩ := exists_split_at member
    -- above the first shared frame both lineages are its own
    have same : upper = others := by
      have equal := (up.split split).2.unique (down.split splitDown).2
      exact (List.cons.inj equal).2
    have rising : ascent.takeWhile (· ≠ ancestor) = lower := by
      rw [split]
      exact Meets.takeWhile_split fun frame low equal => off frame low (equal ▸ member)
    cases joined
    refine ⟨upper, ?_, ?_, ?_⟩
    · rw [rising, ← split]
      exact up
    · rw [List.reverse_reverse, same, ← splitDown]
      exact down
    · intro frame low falling
      rw [rising] at low
      exact off frame low (List.takeWhile_subset _ (List.mem_reverse.1 falling))

/-- In a forest a route is found between registered frames whose lineages meet, and nowhere else. -/
theorem IsForest.route_eq_ok_iff (forest : graph.IsForest) {source target : String}
    {route : Route} : graph.route source target = .ok route ↔
      source ∈ graph.frames ∧ target ∈ graph.frames ∧
        ∃ upper, graph.Meets source target route upper := by
  obtain ⟨ascent, up⟩ := forest.exists_lineage source
  obtain ⟨descent, down⟩ := forest.exists_lineage target
  have climbs := climbs_of_climb up
  have climbsDown := climbs_of_climb down
  rw [route_eq up down]
  by_cases sourceKnown : source ∈ graph.frames
  · by_cases targetKnown : target ∈ graph.frames
    · rw [if_neg (not_not_intro sourceKnown), if_neg (not_not_intro targetKnown)]
      by_cases same : source = target
      · subst same
        obtain ⟨upper, rfl⟩ := climbs.exists_cons
        rw [if_pos rfl]
        constructor
        · intro found
          cases found
          exact ⟨sourceKnown, sourceKnown, upper, climbs, climbs, by simp⟩
        · rintro ⟨_, _, upper, meets⟩
          rw [meets.eq_of_same_ends]
      · rw [if_neg same]
        constructor
        · intro joined
          exact ⟨sourceKnown, targetKnown, meets_of_join source target climbs climbsDown joined⟩
        · rintro ⟨_, _, upper, meets⟩
          rw [climbs.unique meets.ascent, climbsDown.unique meets.descent]
          exact meets.join_eq
    · simp [sourceKnown, targetKnown]
  · simp [sourceKnown]

theorem IsForest.route_reverse (forest : graph.IsForest) {source target : String} {route : Route}
    (found : graph.route source target = .ok route) :
    graph.route target source = .ok route.reverse := by
  obtain ⟨sourceKnown, targetKnown, upper, meets⟩ := forest.route_eq_ok_iff.1 found
  exact forest.route_eq_ok_iff.2 ⟨targetKnown, sourceKnown, upper, meets.reverse⟩

/-- Every frame that a route climbs from or goes down to hangs from another one. -/
theorem IsForest.parent?_isSome_of_route (forest : graph.IsForest) {source target : String}
    {route : Route} (found : graph.route source target = .ok route) :
    ∀ frame ∈ route.up ++ route.down, (graph.parent? frame).isSome := by
  obtain ⟨_, _, upper, meets⟩ := forest.route_eq_ok_iff.1 found
  intro frame member
  rcases List.mem_append.1 member with rising | falling
  · exact (meets.ascent.split rfl).1.isSome_parent? frame rising
  · exact (meets.descent.split rfl).1.isSome_parent? frame (List.mem_reverse.2 falling)

/-! ## Connected frames -/

/-- Both frames are registered, and some frame is both or lies above them. -/
def Connected (graph : FrameGraph) (source target : String) : Prop :=
  source ∈ graph.frames ∧ target ∈ graph.frames ∧
    ∃ top, Relation.ReflTransGen graph.Hangs top source ∧
      Relation.ReflTransGen graph.Hangs top target

theorem IsForest.mem_of_climbs_iff (forest : graph.IsForest) {frame : String} {chain : List String}
    (climbs : graph.Climbs frame chain) (top : String) :
    top ∈ chain ↔ Relation.ReflTransGen graph.Hangs top frame := by
  constructor
  · intro member
    obtain ⟨rest, rfl⟩ := climbs.exists_cons
    rcases List.mem_cons.1 member with rfl | higher
    · exact .refl
    · exact (climbs.transGen top higher).to_reflTransGen
  · intro above
    induction above generalizing chain with
    | refl =>
        obtain ⟨rest, rfl⟩ := climbs.exists_cons
        exact List.mem_cons_self
    | tail above link ih =>
        cases climbs with
        | root highest => exact absurd link (parent?_eq_none_iff.1 highest _)
        | step hangs higher =>
            rw [forest.parent?_eq_some_iff.2 link] at hangs
            cases hangs
            exact List.mem_cons_of_mem _ (ih higher)

/-- A route leads between two frames exactly when they are connected. -/
theorem IsForest.exists_route_iff (forest : graph.IsForest) {source target : String} :
    (∃ route, graph.route source target = .ok route) ↔ graph.Connected source target := by
  constructor
  · rintro ⟨route, found⟩
    obtain ⟨sourceKnown, targetKnown, upper, meets⟩ := forest.route_eq_ok_iff.1 found
    refine ⟨sourceKnown, targetKnown, route.ancestor, ?_, ?_⟩
    · exact (forest.mem_of_climbs_iff meets.ascent _).1 (by simp)
    · exact (forest.mem_of_climbs_iff meets.descent _).1 (by simp)
  · rintro ⟨sourceKnown, targetKnown, top, aboveSource, aboveTarget⟩
    obtain ⟨ascent, up⟩ := forest.exists_lineage source
    obtain ⟨descent, down⟩ := forest.exists_lineage target
    have rising := (forest.mem_of_climbs_iff (climbs_of_climb up) top).2 aboveSource
    have falling := (forest.mem_of_climbs_iff (climbs_of_climb down) top).2 aboveTarget
    rw [route_eq up down, if_neg (not_not_intro sourceKnown), if_neg (not_not_intro targetKnown)]
    by_cases same : source = target
    · exact ⟨_, if_pos same⟩
    · rw [if_neg same, join]
      cases first : ascent.find? (· ∈ descent) with
      | none =>
          have apart := List.find?_eq_none.1 first top rising
          exact absurd falling (by simpa using apart)
      | some ancestor => exact ⟨_, rfl⟩

/-- The route from a frame to itself is the only trivial one. -/
theorem IsForest.isTrivial_iff (forest : graph.IsForest) {source target : String} {route : Route}
    (found : graph.route source target = .ok route) : route.isTrivial = true ↔ source = target := by
  obtain ⟨_, _, upper, meets⟩ := forest.route_eq_ok_iff.1 found
  unfold Route.isTrivial
  rw [Bool.and_eq_true, List.isEmpty_iff, List.isEmpty_iff]
  constructor
  · rintro ⟨up, down⟩
    obtain ⟨above, ascent⟩ := meets.ascent.exists_cons
    obtain ⟨further, descent⟩ := meets.descent.exists_cons
    rw [up] at ascent
    rw [down] at descent
    exact (List.cons.inj ascent).1.symm.trans (List.cons.inj descent).1
  · rintro rfl
    rw [meets.eq_of_same_ends]
    exact ⟨rfl, rfl⟩

end FrameGraph

end FrameForest
