import FrameForest.Proofs.Geometry.Exact
import FrameForest.Proofs.Forest.Calls
import FrameForest.Proofs.Forest.Hops
import FrameForest.Proofs.Frame.Routes

/-!
# Lookups compose and invert

Climbing from a frame to its root multiplies the motions of the edges on the way.
Where these are rotations of unit norm, a lookup is the climb from its source
followed by the way back of the climb from its target: what both climbs share
above their common ancestor cancels.  Which frames lie in between, or which frame
stands still, does not show in it.
-/

namespace FrameForest

namespace Forest

variable {α : Type} [ExactScalar α] {forest : Forest α} {time : Stamp}

/-- The motion up a chain of frames, beyond its last one. -/
def climbed (forest : Forest α) (time : Stamp) (chain : List String) : Motion α :=
  (chain.map (forest.hop time)).reverse.prod

theorem compose_hops (forest : Forest α) (time : Stamp) (up down : List String) :
    compose (up.map (forest.hop time)) (down.map (forest.hop time)) =
      ((forest.climbed time down.reverse).inverse * forest.climbed time up).normalized := by
  unfold compose climbed
  rw [List.map_reverse, List.reverse_reverse, List.prod_eq_foldl, List.prod_eq_foldr,
    List.foldr_reverse]

theorem climbed_append (forest : Forest α) (time : Stamp) (lower upper : List String) :
    forest.climbed time (lower ++ upper) =
      forest.climbed time upper * forest.climbed time lower := by
  unfold climbed
  rw [List.map_append, List.reverse_append, List.prod_append]

/-- Every motion that an edge answers at `time` has a rotation of unit norm. -/
def UnitAt (forest : Forest α) (time : Stamp) : Prop :=
  ∀ child motion, forest.motionOf time child = .ok motion → motion.Proper

theorem UnitAt.hop (unit : forest.UnitAt time) (frame : String) :
    (forest.hop time frame).Proper := by
  unfold Forest.hop
  cases told : forest.motionOf time frame with
  | error failure => exact Motion.proper_one
  | ok motion => exact unit frame motion told

/-- Edges that are not there answer nothing. -/
theorem unitAt_iff :
    forest.UnitAt time ↔ ∀ child ∈ forest.edges.keys, (forest.hop time child).Proper := by
  constructor
  · intro unit child _
    exact unit.hop child
  · intro proper child motion told
    by_cases held : child ∈ forest.edges.keys
    · have known := proper child held
      rw [Forest.hop, told] at known
      exact known
    · have absent := Table.find?_eq_none_iff.2 held
      rw [motionOf, EdgeTable.query, absent] at told
      cases told

instance (forest : Forest α) (time : Stamp) : Decidable (forest.UnitAt time) :=
  decidable_of_iff _ unitAt_iff.symm

theorem UnitAt.climbed (unit : forest.UnitAt time) (chain : List String) :
    (forest.climbed time chain).Proper := by
  induction chain with
  | nil => exact Motion.proper_one
  | cons frame rest ih =>
      have split := forest.climbed_append time [frame] rest
      rw [List.singleton_append] at split
      rw [split]
      apply ih.mul
      simpa [Forest.climbed] using unit.hop frame

/-- The motion from a frame up to its root. -/
def anchor (forest : Forest α) (time : Stamp) (frame : String) : Motion α :=
  forest.climbed time ((forest.graph.lineage frame).toOption.getD [])

theorem anchor_eq (isForest : forest.graph.IsForest) {frame : String} {chain : List String}
    (climbs : forest.graph.Climbs frame chain) :
    forest.anchor time frame = forest.climbed time chain := by
  obtain ⟨found, climbed⟩ := isForest.exists_lineage frame
  rw [climbs.unique (FrameGraph.climbs_of_climb climbed), anchor, climbed]
  rfl

/-- What the two climbs share cancels. -/
theorem UnitAt.inverse_climbed_mul (unit : forest.UnitAt time)
    (isForest : forest.graph.IsForest) {source target : String} {route : Route}
    {upper : List String} (meets : forest.graph.Meets source target route upper) :
    (forest.climbed time route.down.reverse).inverse * forest.climbed time route.up =
      (forest.anchor time target).inverse * forest.anchor time source := by
  rw [anchor_eq isForest meets.ascent, anchor_eq isForest meets.descent, climbed_append,
    climbed_append, (unit.climbed _).inverse_mul (unit.climbed _), mul_assoc,
    (unit.climbed _).inverse_mul_cancel_left]

theorem UnitAt.recompute_eq_ok_iff [ExactRoots α] (unit : forest.UnitAt time)
    (consistent : forest.Consistent) {source target : String} {motion : Motion α} :
    forest.recompute ⟨source, target, time⟩ = .ok motion ↔
      (∃ route, forest.graph.route source target = .ok route ∧
        ∀ child ∈ route.up ++ route.down, (forest.motionOf time child).isOk) ∧
      (forest.anchor time target).inverse * forest.anchor time source = motion := by
  rw [recompute_eq]
  dsimp only
  cases found : forest.graph.route source target with
  | error failure => simp
  | ok route =>
      obtain ⟨_, _, upper, meets⟩ := consistent.isForest.route_eq_ok_iff.1 found
      have cancelled := unit.inverse_climbed_mul consistent.isForest meets
      have proper : ((forest.climbed time route.down.reverse).inverse *
          forest.climbed time route.up).Proper := (unit.climbed _).inverse.mul (unit.climbed _)
      simp only [Except.ok.injEq, exists_eq_left']
      split
      case isTrue trivial =>
        -- nothing is asked, and both ends climb the same way
        simp only [Route.isTrivial, Bool.and_eq_true, List.isEmpty_iff] at trivial
        rw [trivial.1, trivial.2, List.reverse_nil,
          (unit.climbed []).inverse_mul_self] at cancelled
        simp [trivial, ← cancelled]
      case isFalse =>
        rw [fst_traverse_bare consistent.keyed, fst_traverse_eq_ok_iff consistent.keyed,
          compose_hops, proper.normalized_eq, cancelled]

variable [ExactRoots α]

theorem UnitAt.recompute_composes (unit : forest.UnitAt time) (consistent : forest.Consistent)
    {first middle last : String} {inner outer across : Motion α}
    (lower : forest.recompute ⟨first, middle, time⟩ = .ok inner)
    (higher : forest.recompute ⟨middle, last, time⟩ = .ok outer)
    (whole : forest.recompute ⟨first, last, time⟩ = .ok across) : outer * inner = across := by
  have through : (forest.anchor time middle).Proper := unit.climbed _
  obtain ⟨_, rfl⟩ := (unit.recompute_eq_ok_iff consistent).1 lower
  obtain ⟨_, rfl⟩ := (unit.recompute_eq_ok_iff consistent).1 higher
  obtain ⟨_, rfl⟩ := (unit.recompute_eq_ok_iff consistent).1 whole
  rw [mul_assoc, through.mul_inverse_cancel_left]

theorem UnitAt.recompute_inverts (unit : forest.UnitAt time) (consistent : forest.Consistent)
    {source target : String} {motion : Motion α}
    (told : forest.recompute ⟨source, target, time⟩ = .ok motion) :
    motion.Proper ∧ forest.recompute ⟨target, source, time⟩ = .ok motion.inverse := by
  have sourceProper : (forest.anchor time source).Proper := unit.climbed _
  have targetProper : (forest.anchor time target).Proper := unit.climbed _
  obtain ⟨⟨route, found, every⟩, rfl⟩ := (unit.recompute_eq_ok_iff consistent).1 told
  refine ⟨targetProper.inverse.mul sourceProper, ?_⟩
  apply (unit.recompute_eq_ok_iff consistent).2
  -- the way back asks the same edges
  refine ⟨⟨route.reverse, consistent.isForest.route_reverse found, fun child member => ?_⟩, ?_⟩
  · apply every
    simpa [Route.reverse, or_comm] using member
  · rw [targetProper.inverse.inverse_mul sourceProper, targetProper.inverse_inverse]

/-- With both times the same, what is placed is moved by the lookup between its two frames. -/
theorem UnitAt.placed_eq (unit : forest.UnitAt time) (consistent : forest.Consistent)
    {pose result : Pose α} {source destination fixed : String} (moves : source ≠ destination)
    (told : placed forest.recompute pose ⟨destination, source, fixed, time, time⟩ = .ok result) :
    result = ((forest.anchor time destination).inverse * forest.anchor time source *
      pose).normalized := by
  have through : (forest.anchor time fixed).Proper := unit.climbed _
  unfold placed at told
  rw [if_neg moves] at told
  split at told
  case h_1 => cases told
  case h_2 sourceToFixed first =>
    split at told
    case h_1 => cases told
    case h_2 fixedToDestination second =>
      obtain ⟨_, rfl⟩ := (unit.recompute_eq_ok_iff consistent).1 first
      obtain ⟨_, rfl⟩ := (unit.recompute_eq_ok_iff consistent).1 second
      cases told
      rw [mul_assoc (forest.anchor time destination).inverse, through.mul_inverse_cancel_left]

/-- The lookups of one time fit together. -/
structure Composes (forest : Forest α) (time : Stamp) : Prop where
  compose : ∀ first middle last inner outer across,
    (forest.lookup first middle time).1 = .ok inner →
    (forest.lookup middle last time).1 = .ok outer →
    (forest.lookup first last time).1 = .ok across →
      across = outer * inner ∧ ∀ point, across.act point = outer.act (inner.act point)
  /-- The way back is found as well, and undoes the way there. -/
  invert : ∀ source target motion, (forest.lookup source target time).1 = .ok motion →
    (forest.lookup target source time).1 = .ok motion.inverse ∧
      motion.inverse * motion = 1 ∧ motion * motion.inverse = 1
  /-- It does not matter which frame is taken to stand still. -/
  resolve : ∀ pose source destination fixed other result otherResult,
    (forest.resolve pose ⟨destination, source, fixed, time, time⟩).1 = .ok result →
    (forest.resolve pose ⟨destination, source, other, time, time⟩).1 = .ok otherResult →
      result = otherResult

/-- Whatever ancestors the lookups go through. -/
theorem composes_after (settings : Settings) (calls : List (Call α)) (time : Stamp)
    (unit : (after settings calls).UnitAt time) : (after settings calls).Composes time := by
  have consistent := (sound_after settings calls).consistent
  have looked := fst_lookup_after settings calls
  constructor
  case compose =>
    intro first middle last inner outer across lower higher whole
    have lower := (looked ⟨first, middle, time⟩).symm.trans lower
    have higher := (looked ⟨middle, last, time⟩).symm.trans higher
    have whole := (looked ⟨first, last, time⟩).symm.trans whole
    obtain rfl := unit.recompute_composes consistent lower higher whole
    exact ⟨rfl, Motion.act_mul outer inner⟩
  case invert =>
    intro source target motion there
    have there := (looked ⟨source, target, time⟩).symm.trans there
    obtain ⟨proper, back⟩ := unit.recompute_inverts consistent there
    exact ⟨(looked ⟨target, source, time⟩).trans back, proper.inverse_mul_self,
      proper.mul_inverse_self⟩
  case resolve =>
    intro pose source destination fixed other result otherResult told otherTold
    rw [fst_resolve_after] at told otherTold
    by_cases moves : source = destination
    · rw [placed, if_pos moves] at told otherTold
      exact Except.ok.inj (told.symm.trans otherTold)
    · rw [unit.placed_eq consistent moves told, unit.placed_eq consistent moves otherTold]

/-- From the lidar of a robot to its camera by way of the map, which is above both. -/
theorem composes_after_robot :
    let turn : Motion ℚ := ⟨⟨1, 2, 3⟩, ⟨0, 0, 3 / 5, 4 / 5⟩⟩
    let forest := after .standard
      [.record (.timed ⟨"map", "robot", ⟨5⟩, turn⟩), .record (.fixed ⟨"robot", "lidar", 0, turn⟩),
        .record (.fixed ⟨"robot", "camera", 0, turn * turn⟩)]
    (forest.lookup "lidar" "map" ⟨5⟩).1 = .ok (turn * turn) ∧
      (forest.lookup "map" "camera" ⟨5⟩).1 = .ok (turn * turn * turn).inverse ∧
      (forest.lookup "lidar" "camera" ⟨5⟩).1 = .ok turn.inverse ∧
      turn.inverse = (turn * turn * turn).inverse * (turn * turn) := by
  intro turn forest
  have unit : forest.UnitAt ⟨5⟩ := by decide +kernel
  have lower : (forest.lookup "lidar" "map" ⟨5⟩).1 = .ok (turn * turn) := by decide +kernel
  have higher : (forest.lookup "map" "camera" ⟨5⟩).1 = .ok (turn * turn * turn).inverse := by
    decide +kernel
  have whole : (forest.lookup "lidar" "camera" ⟨5⟩).1 = .ok turn.inverse := by decide +kernel
  have composes := composes_after _ _ _ unit
  exact ⟨lower, higher, whole, (composes.compose _ _ _ _ _ _ lower higher whole).1⟩

end Forest

end FrameForest
