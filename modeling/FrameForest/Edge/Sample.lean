import FrameForest.Failure
import FrameForest.Geometry.Motion

/-!
# Samples and interpolation

A sample is the motion of an edge at one stamp.  Between two samples the
offset moves linearly and the rotation along the shortest arc; at the two
stamps themselves the stored motions are answered unchanged.
-/

namespace FrameForest

namespace Quaternion

variable {α : Type} [Scalar α]

/-- The quaternion or its negative, whichever is not obtuse to `reference`. -/
def facing (reference q : Quaternion α) : Quaternion α :=
  if reference.dot q < 0 then -q else q

/-- Spherical interpolation.  Nearly parallel ends are mixed linearly, since the sine of their
angle could not be divided by. -/
def slerp (start stop : Quaternion α) (share : α) : Quaternion α :=
  let near := start.facing stop
  let alignment := start.dot stop
  let cosine := if alignment < 0 then -alignment else alignment
  if (1 : α) - 2.220446049250313e-16 < cosine then
    (start.scale (1 - share) + near.scale share).unit
  else
    let theta := Scalar.arccos (Scalar.clamp (-1) 1 cosine)
    (start.scale (Scalar.sin (theta * (1 - share))) + near.scale (Scalar.sin (theta * share))).scale
      (1 / Scalar.sin theta)

/-- Spherical interpolation along the shorter of the two arcs, scaled to unit norm. -/
def slerpShortest (start stop : Quaternion α) (share : α) : Quaternion α :=
  (start.slerp (start.facing stop) share).unit

end Quaternion

structure Sample (α : Type) where
  stamp : Stamp
  motion : Motion α
  deriving DecidableEq, BEq, Repr

namespace Sample

variable {α β : Type}

def map (f : α → β) (sample : Sample α) : Sample β :=
  ⟨sample.stamp, sample.motion.map f⟩

variable [Scalar α]

/-- How much of the way from `start` to `stop` has passed at `time`. -/
def share (start stop time : Stamp) : α :=
  Scalar.ofCount (time - start).nanos / Scalar.ofCount (stop - start).nanos

/-- The mixture of two motions with the given share of the later one. -/
def mix (before after : Motion α) (share : α) : Motion α :=
  .ofParts (before.offset.lerp after.offset share)
    (before.rotation.slerpShortest after.rotation share)

/-- The motion at `time` between two samples; when both have one stamp the first counts. -/
def interpolate (before after : Sample α) (time : Stamp) : Except Failure (Motion α) :=
  if time < before.stamp ∨ after.stamp < time then
    .error (.interpolation
      s!"Requested time {time.text} is outside [{before.stamp.text}, {after.stamp.text}]")
  else if time = before.stamp ∨ before.stamp = after.stamp then
    .ok before.motion
  else if time = after.stamp then
    .ok after.motion
  else
    .ok (mix before.motion after.motion (share before.stamp after.stamp time))

end Sample

end FrameForest
