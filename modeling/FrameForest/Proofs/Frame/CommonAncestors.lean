import FrameForest.Proofs.Frame.Adoption
import FrameForest.Proofs.Frame.Routes

/-!
# Routes through the lowest common ancestor

Two registered frames have the same root exactly when some frame is above both.
The route between them then climbs to the lowest such frame and goes down from it
without passing any frame twice, and there is no other such way.
-/

namespace FrameForest

namespace FrameGraph

variable {graph : FrameGraph}

theorem Ascends.climbs {start stop : String} {frames above : List String}
    (ascends : graph.Ascends stop start frames) (climbs : graph.Climbs stop above) :
    graph.Climbs start (frames ++ above) := by
  induction ascends with
  | arrived => exact climbs
  | step hangs further ih => exact .step hangs ih

theorem Ascends.head?_getD {start stop : String} {frames : List String}
    (ascends : graph.Ascends stop start frames) : start = frames.head?.getD stop := by
  cases ascends <;> rfl

/-- The frames met below `stop` tell from which frame each of them hangs. -/
theorem Ascends.parent?_congr {other : FrameGraph} {start stop : String} {frames : List String}
    (ascends : graph.Ascends stop start frames) (ascendsOther : other.Ascends stop start frames) :
    ∀ frame ∈ frames, graph.parent? frame = other.parent? frame := by
  induction ascends with
  | arrived => simp
  | step hangs further ih =>
      cases ascendsOther with
      | step hangsOther furtherOther =>
          have same := further.head?_getD.trans furtherOther.head?_getD.symm
          subst same
          intro frame present
          rcases List.mem_cons.1 present with rfl | higher
          · exact hangs.trans hangsOther.symm
          · exact ih furtherOther frame higher

/-! ## Roots -/

/-- Of a lineage only the last frame has no parent. -/
theorem Climbs.getLast?_eq_some_iff {start root : String} {chain : List String}
    (climbs : graph.Climbs start chain) :
    chain.getLast? = some root ↔ root ∈ chain ∧ graph.parent? root = none := by
  induction climbs with
  | root top => simp +contextual [eq_comm, top]
  | step hangs above ih =>
      obtain ⟨rest, rfl⟩ := above.exists_cons
      rw [List.getLast?_cons_cons, ih]
      constructor
      · rintro ⟨higher, highest⟩
        exact ⟨List.mem_cons_of_mem _ higher, highest⟩
      · rintro ⟨present, highest⟩
        rcases List.mem_cons.1 present with rfl | higher
        · rw [hangs] at highest
          cases highest
        · exact ⟨higher, highest⟩

theorem rootOf_eq {frame : String} {chain : List String}
    (climbed : graph.lineage frame = .ok chain) : graph.rootOf frame =
      if frame ∈ graph.frames then .ok (chain.getLast?.getD frame)
      else .error (.unknownFrame frame) := by
  unfold rootOf
  by_cases known : frame ∈ graph.frames
  · obtain ⟨number, found⟩ := index_of_mem known
    rw [found, climbed, if_pos known]
    rfl
  · rw [index_of_not_mem known, if_neg known]
    rfl

namespace IsForest

variable (forest : graph.IsForest)

include forest

/-- The root of a registered frame has no parent, and is the frame or lies above it. -/
theorem rootOf_eq_ok_iff {frame root : String} : graph.rootOf frame = .ok root ↔
    frame ∈ graph.frames ∧ graph.parent? root = none ∧
      Relation.ReflTransGen graph.Hangs root frame := by
  obtain ⟨chain, climbed⟩ := forest.exists_lineage frame
  have climbs := climbs_of_climb climbed
  have last : chain.getLast?.getD frame = root ↔ chain.getLast? = some root := by
    obtain ⟨rest, rfl⟩ := climbs.exists_cons
    simp [List.getLast?_cons]
  rw [rootOf_eq climbed]
  by_cases known : frame ∈ graph.frames
  · rw [if_pos known, Except.ok.injEq, last, climbs.getLast?_eq_some_iff,
      forest.mem_of_climbs_iff climbs]
    simp [known, and_comm]
  · simp [known]

theorem exists_rootOf {frame : String} (known : frame ∈ graph.frames) :
    ∃ root, graph.rootOf frame = .ok root := by
  obtain ⟨chain, climbed⟩ := forest.exists_lineage frame
  exact ⟨_, (rootOf_eq climbed).trans (if_pos known)⟩

/-- A frame has the root of every frame above it. -/
theorem rootOf_eq_of_above {top frame : String} (known : top ∈ graph.frames)
    (above : Relation.ReflTransGen graph.Hangs top frame) :
    graph.rootOf frame = graph.rootOf top := by
  obtain ⟨root, told⟩ := forest.exists_rootOf known
  obtain ⟨_, highest, aboveTop⟩ := forest.rootOf_eq_ok_iff.1 told
  have registered : frame ∈ graph.frames := (mem_frames_iff_of_path above).1 known
  rw [told, forest.rootOf_eq_ok_iff]
  exact ⟨registered, highest, aboveTop.trans above⟩

theorem rootOf_eq_iff_connected {source target : String} (sourceKnown : source ∈ graph.frames)
    (targetKnown : target ∈ graph.frames) :
    graph.rootOf source = graph.rootOf target ↔ graph.Connected source target := by
  obtain ⟨root, told⟩ := forest.exists_rootOf sourceKnown
  constructor
  · intro same
    have aboveSource := (forest.rootOf_eq_ok_iff.1 told).2.2
    have aboveTarget := (forest.rootOf_eq_ok_iff.1 (same.symm.trans told)).2.2
    exact ⟨sourceKnown, targetKnown, root, aboveSource, aboveTarget⟩
  · rintro ⟨_, _, top, aboveSource, aboveTarget⟩
    have known : top ∈ graph.frames := (mem_frames_iff_of_path aboveSource).2 sourceKnown
    rw [forest.rootOf_eq_of_above known aboveSource, forest.rootOf_eq_of_above known aboveTarget]

end IsForest

/-! ## The way through the ancestor -/

/-- One climbs from `source` to the ancestor of the route and goes down from it to `target`, and
passes no frame twice. -/
structure Threads (graph : FrameGraph) (source target : String) (route : Route) : Prop where
  up : graph.Ascends route.ancestor source route.up
  down : graph.Ascends route.ancestor target route.down.reverse
  simple : (route.up ++ route.ancestor :: route.down).Nodup

namespace Threads

variable {source target : String} {route : Route}

theorem apart (threads : graph.Threads source target route) : route.up.Disjoint route.down := by
  intro frame rising falling
  exact (List.nodup_append.1 threads.simple).2.2 frame rising frame
    (List.mem_cons_of_mem _ falling) rfl

theorem up_eq_nil_iff (threads : graph.Threads source target route) :
    route.up = [] ↔ source = route.ancestor := by
  obtain ⟨rising, _, simple⟩ := threads
  constructor
  · intro none
    rw [none] at rising
    cases rising
    rfl
  · intro same
    cases frames : route.up with
    | nil => rfl
    | cons frame further =>
        rw [frames] at rising simple
        cases rising
        simp [same] at simple

theorem reverse (threads : graph.Threads source target route) :
    graph.Threads target source route.reverse where
  up := threads.down
  down := by
    rw [Route.reverse, List.reverse_reverse]
    exact threads.up
  simple := by
    have mirrored := List.nodup_reverse.2 threads.simple
    rwa [List.reverse_append, List.reverse_cons, List.append_assoc] at mirrored

theorem down_eq_nil_iff (threads : graph.Threads source target route) :
    route.down = [] ↔ target = route.ancestor := by
  rw [← List.reverse_eq_nil_iff]
  exact threads.reverse.up_eq_nil_iff

end Threads

/-- The frame is above both, or one of them, and every other such frame is above it. -/
structure LowestAbove (graph : FrameGraph) (source target top : String) : Prop where
  aboveSource : Relation.ReflTransGen graph.Hangs top source
  aboveTarget : Relation.ReflTransGen graph.Hangs top target
  lowest : ∀ common, Relation.ReflTransGen graph.Hangs common source →
    Relation.ReflTransGen graph.Hangs common target → Relation.ReflTransGen graph.Hangs common top

namespace Meets

variable {source target : String} {route : Route} {upper : List String}

theorem threads (meets : graph.Meets source target route upper) :
    graph.Threads source target route where
  up := (meets.ascent.split rfl).1
  down := (meets.descent.split rfl).1
  simple := by
    have rising := (List.nodup_append.1 meets.ascent.nodup).1
    have falling := (List.nodup_append.1 meets.descent.nodup).1
    apply List.nodup_append.2
    refine ⟨rising, List.nodup_cons.2 ⟨?_, List.nodup_reverse.1 falling⟩, ?_⟩
    · intro present
      exact (meets.reverse.not_mem_of_mem_up (List.mem_reverse.2 present)).1 rfl
    · intro frame low other member same
      rcases List.mem_cons.1 member with top | high
      · exact (meets.not_mem_of_mem_up low).1 (same.trans top)
      · exact meets.apart low (same ▸ high)

theorem lowestAbove (meets : graph.Meets source target route upper) (forest : graph.IsForest) :
    graph.LowestAbove source target route.ancestor where
  aboveSource := (forest.mem_of_climbs_iff meets.ascent _).1 (by simp)
  aboveTarget := (forest.mem_of_climbs_iff meets.descent _).1 (by simp)
  lowest := by
    intro common aboveSource aboveTarget
    have onAscent := (forest.mem_of_climbs_iff meets.ascent _).2 aboveSource
    have onDescent := (forest.mem_of_climbs_iff meets.descent _).2 aboveTarget
    rcases List.mem_append.1 onAscent with low | high
    · exact absurd onDescent (meets.not_mem_of_mem_up low).2
    · exact (forest.mem_of_climbs_iff (meets.ascent.split rfl).2 _).1 high

end Meets

namespace IsForest

variable (forest : graph.IsForest) {source target : String} {route : Route}

include forest

/-- Two beginnings of lineages that end at one frame go on alike. -/
theorem exists_meets (threads : graph.Threads source target route) :
    ∃ upper, graph.Meets source target route upper := by
  obtain ⟨chain, climbed⟩ := forest.exists_lineage route.ancestor
  have above := climbs_of_climb climbed
  obtain ⟨upper, rfl⟩ := above.exists_cons
  exact ⟨upper, threads.up.climbs above, threads.down.climbs above, threads.apart⟩

/-- The route found is the only way between two frames. -/
theorem route_eq_ok_iff_threads : graph.route source target = .ok route ↔
    source ∈ graph.frames ∧ target ∈ graph.frames ∧ graph.Threads source target route := by
  rw [forest.route_eq_ok_iff]
  constructor
  · rintro ⟨sourceKnown, targetKnown, upper, meets⟩
    exact ⟨sourceKnown, targetKnown, meets.threads⟩
  · rintro ⟨sourceKnown, targetKnown, threads⟩
    exact ⟨sourceKnown, targetKnown, forest.exists_meets threads⟩

theorem route_eq_unconnected_iff (sourceKnown : source ∈ graph.frames)
    (targetKnown : target ∈ graph.frames) :
    graph.route source target = .error (.unconnected source target) ↔
      graph.rootOf source ≠ graph.rootOf target := by
  rw [Ne, forest.rootOf_eq_iff_connected sourceKnown targetKnown, ← forest.exists_route_iff]
  cases told : graph.route source target with
  | ok route => simp
  | error failure =>
      cases forest.unrouted_of_route told with
      | source unknown => exact absurd sourceKnown unknown
      | target known unknown => exact absurd targetKnown unknown
      | apart => simp

end IsForest

/-- What a route is to the two frames that it links. -/
structure Joins (graph : FrameGraph) (source target : String) (route : Route) : Prop where
  threads : graph.Threads source target route
  only : ∀ other, graph.Threads source target other → other = route
  start : route.up = [] ↔ source = route.ancestor
  finish : route.down = [] ↔ target = route.ancestor
  lowest : graph.LowestAbove source target route.ancestor
  back : graph.route target source = .ok route.reverse
  trivial : route.isTrivial = true ↔ source = target

/-- Which answer is given to the request for a route, by rules of which the earlier ones come
first. -/
structure FindsRoute (graph : FrameGraph) (source target : String) : Prop where
  unknownSource : source ∉ graph.frames → graph.route source target = .error (.unknownFrame source)
  unknownTarget : source ∈ graph.frames → target ∉ graph.frames →
    graph.route source target = .error (.unknownFrame target)
  rooted : ∀ frame ∈ graph.frames, ∃ root, graph.rootOf frame = .ok root ∧
    graph.parent? root = none ∧ Relation.ReflTransGen graph.Hangs root frame
  unconnected : source ∈ graph.frames → target ∈ graph.frames →
    (graph.route source target = .error (.unconnected source target) ↔
      graph.rootOf source ≠ graph.rootOf target)
  joined : source ∈ graph.frames → target ∈ graph.frames →
    graph.rootOf source = graph.rootOf target →
      ∃ route, graph.route source target = .ok route ∧ graph.Joins source target route

namespace IsForest

variable (forest : graph.IsForest)

include forest

theorem joins {source target : String} {route : Route}
    (found : graph.route source target = .ok route) : graph.Joins source target route := by
  obtain ⟨sourceKnown, targetKnown, upper, meets⟩ := forest.route_eq_ok_iff.1 found
  have threads := meets.threads
  constructor
  case threads => exact threads
  case only =>
    intro other alike
    have again := forest.route_eq_ok_iff_threads.2 ⟨sourceKnown, targetKnown, alike⟩
    exact Except.ok.inj (again.symm.trans found)
  case start => exact threads.up_eq_nil_iff
  case finish => exact threads.down_eq_nil_iff
  case lowest => exact meets.lowestAbove forest
  case back => exact forest.route_reverse found
  case trivial => exact forest.isTrivial_iff found

theorem findsRoute (source target : String) : graph.FindsRoute source target := by
  obtain ⟨ascent, up⟩ := forest.exists_lineage source
  obtain ⟨descent, down⟩ := forest.exists_lineage target
  constructor
  case unknownSource =>
    intro unknown
    rw [route_eq up down, if_pos unknown]
  case unknownTarget =>
    intro known unknown
    rw [route_eq up down, if_neg (not_not_intro known), if_pos unknown]
  case rooted =>
    intro frame known
    obtain ⟨root, told⟩ := forest.exists_rootOf known
    exact ⟨root, told, (forest.rootOf_eq_ok_iff.1 told).2⟩
  case unconnected =>
    intro sourceKnown targetKnown
    exact forest.route_eq_unconnected_iff sourceKnown targetKnown
  case joined =>
    intro sourceKnown targetKnown same
    have connected := (forest.rootOf_eq_iff_connected sourceKnown targetKnown).1 same
    obtain ⟨route, found⟩ := forest.exists_route_iff.2 connected
    exact ⟨route, found, forest.joins found⟩

end IsForest

end FrameGraph

/-- Whatever was requested before. -/
theorem Enumeration.findsRoute_run (calls : List RosterCall) (source target : String) :
    (empty.run calls).2.roster.graph.FindsRoute source target :=
  (isForest_run calls).findsRoute source target

end FrameForest
