import FrameForest.Diagnosis.Sink
import FrameForest.Forest.Resolve

/-!
# Placements

A placement follows one object of the scene: where its message puts it, whether
its last resolution into the render frame succeeded, and which pose to draw.
-/

namespace FrameForest

inductive PlacementState where
  /-- Not resolved since its creation or the last reset. -/
  | unresolved
  | resolved
  /-- Resolved before, but not at the last attempt. -/
  | stale
  deriving DecidableEq, Repr

/-- What a stale placement shows. -/
inductive StalePolicy where
  | keepLastPose
  | hide
  deriving DecidableEq, Repr

structure Placement (α : Type) where
  frame : String
  path : SettingPath
  /-- The pose of the object in `frame`, as its message says. -/
  messagePose : Pose α
  messageTime : Stamp
  stalePolicy : StalePolicy
  state : PlacementState
  lastPose : Option (Pose α)

namespace Placement

variable {α σ : Type}

def create (frame : String) (path : SettingPath) (pose : Pose α) (time : Stamp) : Placement α where
  frame := frame
  path := path
  messagePose := pose
  messageTime := time
  stalePolicy := .keepLastPose
  state := .unresolved
  lastPose := none

/-- A new message for the same object. -/
def setMessage (placement : Placement α) (frame : String) (pose : Pose α) (time : Stamp) :
    Placement α :=
  { placement with frame, messagePose := pose, messageTime := time }

/-- The pose to draw in the render frame, none when the object is hidden. -/
def displayedPose (placement : Placement α) : Option (Pose α) :=
  match placement.state, placement.stalePolicy with
  | .resolved, _ | .stale, .keepLastPose => placement.lastPose
  | .stale, .hide | .unresolved, _ => none

def isVisible (placement : Placement α) : Bool :=
  placement.displayedPose.isSome

/-- Forgets the last pose: the samples it came from are gone. -/
def reset (placement : Placement α) : Placement α :=
  { placement with state := .unresolved, lastPose := none }

def succeed (placement : Placement α) (pose : Pose α) : Placement α :=
  { placement with state := .resolved, lastPose := some pose }

def fail (placement : Placement α) : Placement α :=
  { placement with
    state := match placement.state with
      | .unresolved => .unresolved
      | .resolved | .stale => .stale }

/-- The resolution that puts the object into `renderFrame` at `now`. -/
def resolution (placement : Placement α) (renderFrame fixedFrame : String) (now : Stamp) :
    Forest.Resolution where
  destination := renderFrame
  source := placement.frame
  fixed := fixedFrame
  sourceTime := placement.messageTime
  destinationTime := now

/-- Resolves the object into `renderFrame` at `now` and tells the sink how it went. -/
def update [Scalar α] [DiagnosisSink σ] (placement : Placement α) (forest : Forest α)
    (renderFrame fixedFrame : String) (now : Stamp) (sink : σ) : Placement α × Forest α × σ :=
  match forest.resolve placement.messagePose (placement.resolution renderFrame fixedFrame now) with
  | (.ok pose, forest) =>
    (placement.succeed pose, forest, DiagnosisSink.clear sink placement.path)
  | (.error failure, forest) =>
    (placement.fail, forest,
      DiagnosisSink.report sink placement.path (.ofFailure failure placement.frame renderFrame))

end Placement

end FrameForest
