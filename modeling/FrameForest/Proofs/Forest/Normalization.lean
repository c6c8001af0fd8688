import FrameForest.Proofs.Geometry.Lengths
import FrameForest.Proofs.Forest.Composition
import FrameForest.Proofs.Forest.Adjustment

/-!
# Rotations that were not normalised

A forest takes motions as they come, and only the answer to a lookup is
normalised.  Therefore every lookup is a rigid motion, and which lookups fail does
not depend on the lengths of rotations.  But on the way to the answer a rotation
of another length scales the offsets of all edges below it.  It goes unnoticed
only at the start of the route, where nothing is below.
-/

namespace FrameForest

variable {α : Type} [ExactScalar α]

/-! ## Edges of unit norm -/

/-- Every rotation that the edge holds has unit norm. -/
def Edge.Proper (edge : Edge α) : Prop :=
  ∀ sample ∈ edge.track.samples, sample.motion.Proper

theorem Edge.Proper.adjust_normalized [ExactRoots α] {edge : Edge α} (proper : edge.Proper) :
    edge.adjust Motion.normalized = edge := by
  obtain ⟨parent, child, track⟩ := edge
  cases track with
  | fixed motion =>
      have own : motion.Proper := proper ⟨0, motion⟩ List.mem_cons_self
      exact congrArg (fun motion => Edge.mk parent child (.fixed motion)) own.normalized_eq
  | timed history =>
      obtain ⟨samples, capacity, horizon, hint, positive, ordered⟩ := history
      have same : samples.map (Sample.adjust Motion.normalized) = samples := by
        apply (List.map_congr_left fun sample member => ?_).trans (List.map_id samples)
        exact congrArg (Sample.mk sample.stamp) (proper sample member).normalized_eq
      simp only [Edge.adjust, Track.adjust, History.adjust, same]

section Answers

variable [TrueRoots α]

theorem Sample.proper_interpolate {before after : Sample α} {time : Stamp} {motion : Motion α}
    (beforeProper : before.motion.Proper) (afterProper : after.motion.Proper)
    (told : before.interpolate after time = .ok motion) : motion.Proper := by
  have interpolates := before.interpolates after time
  rw [told] at interpolates
  cases interpolates with
  | start => exact beforeProper
  | stop => exact afterProper
  | between => exact Motion.proper_normalized _

theorem Edge.Proper.of_query {edge : Edge α} (proper : edge.Proper) {time : Stamp}
    {tolerance : Duration} {motion : Motion α}
    (told : (edge.query time tolerance).1 = .ok motion) : motion.Proper := by
  rw [fst_query] at told
  split at told
  case h_2 => cases told
  case h_1 answer found =>
    cases told
    obtain ⟨parent, child, track⟩ := edge
    cases track with
    | fixed own =>
        cases found
        exact proper ⟨0, motion⟩ List.mem_cons_self
    | timed history =>
        rcases History.query_cases found with
          ⟨sample, member, rfl⟩ | ⟨before, first, after, second, mixed⟩
        · exact proper sample member
        · exact Sample.proper_interpolate (proper before first) (proper after second) mixed

end Answers

namespace Forest

variable {forest : Forest α}

/-- On the way between two frames all rotations have unit norm, but for the one of a fixed edge at
the source. -/
def UnitAbove (forest : Forest α) (source target : String) : Prop :=
  ∀ route, forest.graph.route source target = .ok route →
    ∀ child ∈ route.up ++ route.down, ∀ edge, forest.edges.find? child = some edge →
      edge.Proper ∨ child = source ∧
        ∃ motion, edge.track = .fixed motion ∧ motion.rotation.HasDirection

section Hops

variable {child : String} (time : Stamp)

/-- An edge of unit norm is passed the same way before and after normalisation. -/
theorem hop_of_proper [TrueRoots α]
    (proper : ∀ edge, forest.edges.find? child = some edge → edge.Proper) :
    (forest.hop time child).Proper ∧
      (forest.adjust Motion.normalized).hop time child = forest.hop time child := by
  have adjusted : (forest.adjust Motion.normalized).edges.find? child =
      (forest.edges.find? child).map (Edge.adjust Motion.normalized) :=
    EdgeTable.find?_adjust _ _ child
  unfold hop
  cases found : forest.edges.find? child with
  | none =>
      rw [found, Option.map_none] at adjusted
      rw [motionOf_of_absent found, motionOf_of_absent adjusted]
      exact ⟨Motion.proper_one, rfl⟩
  | some edge =>
      have own := proper edge found
      rw [found, Option.map_some, own.adjust_normalized] at adjusted
      rw [motionOf_of_find? found, motionOf_of_find? adjusted]
      constructor
      · cases told : (edge.query time forest.settings.tolerance).1 with
        | error failure => exact Motion.proper_one
        | ok motion => exact own.of_query told
      · rfl

theorem hop_of_fixed {edge : Edge α} {motion : Motion α}
    (found : forest.edges.find? child = some edge) (fixed : edge.track = .fixed motion) :
    forest.hop time child = motion ∧
      (forest.adjust Motion.normalized).hop time child = motion.normalized := by
  obtain ⟨parent, tip, track⟩ := edge
  cases fixed
  have adjusted : (forest.adjust Motion.normalized).edges.find? child =
      (forest.edges.find? child).map (Edge.adjust Motion.normalized) :=
    EdgeTable.find?_adjust _ _ child
  rw [found, Option.map_some] at adjusted
  unfold hop
  rw [motionOf_of_find? found, motionOf_of_find? adjusted]
  exact ⟨rfl, rfl⟩

end Hops

theorem proper_climbed {time : Stamp} {chain : List String}
    (proper : ∀ frame ∈ chain, (forest.hop time frame).Proper) :
    (forest.climbed time chain).Proper := by
  induction chain with
  | nil => exact Motion.proper_one
  | cons frame rest ih =>
      have split := forest.climbed_append time [frame] rest
      rw [List.singleton_append] at split
      rw [split]
      apply (ih fun other member => proper other (List.mem_cons_of_mem _ member)).mul
      simpa [climbed] using proper frame List.mem_cons_self

theorem compose_cons (first : Motion α) (up down : List (Motion α)) :
    compose (first :: up) down =
      (down.prod.inverse * up.reverse.prod * first).normalized := by
  have climb : (first :: up).foldl (fun reached motion => motion * reached) 1 =
      up.reverse.prod * first := by
    rw [← List.foldr_reverse, ← List.prod_eq_foldr, List.reverse_cons, List.prod_append,
      List.prod_singleton]
  unfold compose
  rw [climb, ← List.prod_eq_foldl, mul_assoc]

variable [TrueRoots α]

/-- In front of everything else, normalisation does not show. -/
theorem normalized_mul_hop {outer : Motion α} (proper : outer.Proper) {child : String}
    (time : Stamp) (own : ∀ edge, forest.edges.find? child = some edge →
      edge.Proper ∨ ∃ motion, edge.track = .fixed motion ∧ motion.rotation.HasDirection) :
    (outer * (forest.adjust Motion.normalized).hop time child).normalized =
      (outer * forest.hop time child).normalized := by
  by_cases unit : ∀ edge, forest.edges.find? child = some edge → edge.Proper
  · rw [(hop_of_proper time unit).2]
  · obtain ⟨edge, found, scaled⟩ : ∃ edge, forest.edges.find? child = some edge ∧ ¬edge.Proper := by
      simpa using unit
    obtain ⟨motion, fixed, direction⟩ := (own edge found).resolve_left scaled
    obtain ⟨raw, normal⟩ := hop_of_fixed time found fixed
    rw [raw, normal, proper.normalized_mul_normalized direction]

section Along

variable {source target : String} {route : Route} (isForest : forest.graph.IsForest)
  (found : forest.graph.route source target = .ok route) (above : forest.UnitAbove source target)
  (time : Stamp)

include found above

theorem UnitAbove.hop {child : String} (member : child ∈ route.up ++ route.down)
    (other : child ≠ source) :
    (forest.hop time child).Proper ∧
      (forest.adjust Motion.normalized).hop time child = forest.hop time child := by
  apply hop_of_proper
  intro edge held
  rcases above route found child member edge held with proper | ⟨same, _⟩
  · exact proper
  · exact absurd same other

include isForest

/-- The source is passed first, so what stands behind it in the product is of unit norm. -/
theorem UnitAbove.compose_eq :
    compose (route.up.map ((forest.adjust Motion.normalized).hop time))
        (route.down.map ((forest.adjust Motion.normalized).hop time)) =
      compose (route.up.map (forest.hop time)) (route.down.map (forest.hop time)) := by
  obtain ⟨_, _, upper, meets⟩ := isForest.route_eq_ok_iff.1 found
  have distinct := meets.ascent.nodup
  have off := meets.source_not_mem_down
  have falling : ∀ child ∈ route.down, (forest.hop time child).Proper ∧
      (forest.adjust Motion.normalized).hop time child = forest.hop time child := by
    intro child member
    exact above.hop found time (List.mem_append_right _ member) fun same => off (same ▸ member)
  have down : route.down.map ((forest.adjust Motion.normalized).hop time) =
      route.down.map (forest.hop time) :=
    List.map_congr_left fun child member => (falling child member).2
  cases rising : route.up with
  | nil => rw [down, List.map_nil, List.map_nil]
  | cons first rest =>
      obtain ⟨others, start⟩ := meets.ascent.exists_cons
      rw [rising, List.cons_append] at start distinct
      obtain rfl := (List.cons.inj start).1
      have fresh : first ∉ rest := fun again =>
        (List.nodup_cons.1 distinct).1 (List.mem_append_left _ again)
      have higher : ∀ child ∈ rest, (forest.hop time child).Proper ∧
          (forest.adjust Motion.normalized).hop time child = forest.hop time child := by
        intro child member
        have present : child ∈ route.up ++ route.down := by simp [rising, member]
        exact above.hop found time present fun same => fresh (same ▸ member)
      have up : rest.map ((forest.adjust Motion.normalized).hop time) =
          rest.map (forest.hop time) :=
        List.map_congr_left fun child member => (higher child member).2
      have back := proper_climbed fun child member =>
        (falling child (List.mem_reverse.1 member)).1
      have through := proper_climbed fun child member => (higher child member).1
      have behind := back.inverse.mul through
      unfold climbed at behind
      rw [List.map_reverse, List.reverse_reverse] at behind
      rw [List.map_cons, List.map_cons, up, down, compose_cons, compose_cons]
      apply normalized_mul_hop behind
      intro edge held
      have present : first ∈ route.up ++ route.down := by simp [rising]
      exact (above route found first present edge held).imp_right And.right

end Along

theorem UnitAbove.recompute_eq (consistent : forest.Consistent) {source target : String}
    (above : forest.UnitAbove source target) (time : Stamp) :
    (forest.adjust Motion.normalized).recompute ⟨source, target, time⟩ =
      forest.recompute ⟨source, target, time⟩ := by
  have graph : (forest.adjust Motion.normalized).graph = forest.graph := rfl
  have adjusted := consistent.adjust Motion.normalized
  rcases (sameFailure_recompute_adjust Motion.normalized consistent ⟨source, target, time⟩).cases
    with ⟨failure, unit, raw⟩ | ⟨first, second, unit, raw⟩
  · rw [unit, raw]
  · rw [unit, raw]
    rw [Forest.recompute_eq] at unit raw
    rw [graph] at unit
    dsimp only at unit raw
    cases found : forest.graph.route source target with
    | error failure =>
        rw [found] at raw
        cases raw
    | ok route =>
        rw [found] at unit raw
        dsimp only at unit raw
        split at raw
        · rw [← unit, ← raw, if_pos ‹_›]
        · rw [if_neg ‹_›, fst_traverse_bare adjusted.keyed,
            fst_traverse_eq_ok_iff adjusted.keyed] at unit
          rw [fst_traverse_bare consistent.keyed, fst_traverse_eq_ok_iff consistent.keyed] at raw
          rw [← unit.2, ← raw.2, above.compose_eq consistent.isForest found]

/-- Only normalised motions are answered. -/
theorem proper_of_recompute (consistent : forest.Consistent) {question : Lookup}
    {motion : Motion α} (told : forest.recompute question = .ok motion) : motion.Proper := by
  rw [Forest.recompute_eq] at told
  split at told
  · cases told
  · split at told
    · cases told
      exact Motion.proper_one
    · rw [fst_traverse_bare consistent.keyed, fst_traverse_eq_ok_iff consistent.keyed] at told
      rw [← told.2]
      exact Motion.proper_normalized _

/-- What becomes of the answers of a forest when all its motions are normalised. -/
structure UnitTwin (raw unit : Forest α) : Prop where
  failures : ∀ source target time,
    SameFailure (raw.lookup source target time).1 (unit.lookup source target time).1
  misplacements : ∀ pose resolution,
    SameFailure (raw.resolve pose resolution).1 (unit.resolve pose resolution).1
  /-- Each by itself is rigid. -/
  rigid : ∀ source target time motion, (raw.lookup source target time).1 = .ok motion →
    ∀ first second, (motion.act first).distance (motion.act second) = first.distance second
  lookups : ∀ source target time, raw.UnitAbove source target →
    (raw.lookup source target time).1 = (unit.lookup source target time).1
  placements : ∀ pose resolution, raw.UnitAbove resolution.source resolution.fixed →
    raw.UnitAbove resolution.fixed resolution.destination →
      (raw.resolve pose resolution).1 = (unit.resolve pose resolution).1

/-- The lengths of rotations decide neither whether a lookup succeeds nor whether it is rigid, and
they do not show at the source. -/
theorem unitTwin_after (settings : Settings) (calls : List (Call α)) :
    (after settings calls).UnitTwin
      (after settings (calls.map (Call.adjust Motion.normalized))) := by
  have consistent := (sound_after settings calls).consistent
  have unitConsistent :=
    (sound_after settings (calls.map (Call.adjust Motion.normalized))).consistent
  have alike := alike_after_adjust Motion.normalized settings calls
  have adjusted := alike.recompute_eq (consistent.adjust Motion.normalized) unitConsistent
  have looked := fst_lookup_after settings calls
  have unitLooked := fst_lookup_after settings (calls.map (Call.adjust Motion.normalized))
  have same : ∀ question, SameFailure ((after settings calls).recompute question)
      ((after settings (calls.map (Call.adjust Motion.normalized))).recompute question) := by
    intro question failure
    rw [← adjusted]
    exact (sameFailure_recompute_adjust Motion.normalized consistent question failure).symm
  have equal : ∀ source target time, (after settings calls).UnitAbove source target →
      (after settings calls).recompute ⟨source, target, time⟩ =
        (after settings (calls.map (Call.adjust Motion.normalized))).recompute
          ⟨source, target, time⟩ := by
    intro source target time above
    rw [← adjusted, above.recompute_eq consistent]
  constructor
  case failures =>
    intro source target time
    have question := same ⟨source, target, time⟩
    rwa [← looked, ← unitLooked] at question
  case misplacements =>
    intro pose resolution
    rw [fst_resolve_after, fst_resolve_after]
    exact sameFailure_placed same pose resolution
  case rigid =>
    intro source target time motion told first second
    have computed := (looked ⟨source, target, time⟩).symm.trans told
    exact (proper_of_recompute consistent computed).distance_act first second
  case lookups =>
    intro source target time above
    have question := equal source target time above
    rwa [← looked, ← unitLooked] at question
  case placements =>
    intro pose resolution first second
    have toFixed := equal _ _ resolution.sourceTime first
    have fromFixed := equal _ _ resolution.destinationTime second
    rw [fst_resolve_after, fst_resolve_after, placed, placed, toFixed, fromFixed]

/-- A robot turned by a quaternion of norm two, and a lidar on it. -/
def scaledRobot (α : Type) [ExactScalar α] : List (Call α) :=
  [.record (.fixed ⟨"map", "robot", 0, ⟨0, ⟨0, 0, 0, 2⟩⟩⟩),
    .record (.fixed ⟨"robot", "lidar", 0, .shift ⟨1, 0, 0⟩⟩)]

/-- The lidar is told to be four times as far away as it is. -/
theorem scaledRobot_scales :
    (⟨0, 0, 0, 2⟩ : Quaternion ℚ).HasDirection ∧
    ((after .standard (scaledRobot ℚ)).lookup "lidar" "map" 0).1 = .ok (.shift ⟨4, 0, 0⟩) ∧
    ((after .standard ((scaledRobot ℚ).map (Call.adjust Motion.normalized))).lookup
      "lidar" "map" 0).1 = .ok (.shift ⟨1, 0, 0⟩) ∧
    (Motion.shift ⟨4, 0, 0⟩ : Motion ℚ).act 0 ≠ (Motion.shift ⟨1, 0, 0⟩).act 0 := by
  refine ⟨by decide +kernel, by decide +kernel, by decide +kernel, by decide +kernel⟩

/-- The robot itself is placed right. -/
theorem unitTwin_after_scaledRobot :
    (after .standard (scaledRobot ℝ)).UnitAbove "robot" "map" ∧
      ((after .standard (scaledRobot ℝ)).lookup "robot" "map" 0).1 =
        ((after .standard ((scaledRobot ℝ).map (Call.adjust Motion.normalized))).lookup
          "robot" "map" 0).1 := by
  have way : (after .standard (scaledRobot ℝ)).graph.route "robot" "map" =
      .ok ⟨"map", ["robot"], []⟩ := by
    decide +kernel
  have mount : (after .standard (scaledRobot ℝ)).edges.find? "robot" =
      some ⟨"map", "robot", .fixed ⟨0, ⟨0, 0, 0, 2⟩⟩⟩ := by
    with_unfolding_all rfl
  have direction : (⟨0, 0, 0, 2⟩ : Quaternion ℝ).HasDirection := by
    have size : (⟨0, 0, 0, 2⟩ : Quaternion ℝ).norm = 2 := by
      show ExactScalar.sqrt (0 * 0 + 0 * 0 + 0 * 0 + 2 * 2 : ℝ) = 2
      rw [mul_zero, add_zero, add_zero, zero_add]
      exact ExactRoots.sqrt_mul_self 2 zero_le_two
    refine ⟨rfl, ?_⟩
    rw [size]
    show ¬(2 : ℝ) < 1e-9
    norm_num
  have above : (after .standard (scaledRobot ℝ)).UnitAbove "robot" "map" := by
    intro route found child member edge held
    rw [way] at found
    cases found
    obtain rfl : child = "robot" := by simpa using member
    rw [mount] at held
    cases held
    exact .inr ⟨rfl, _, rfl, direction⟩
  exact ⟨above, (unitTwin_after .standard (scaledRobot ℝ)).lookups _ _ 0 above⟩

end Forest

end FrameForest
