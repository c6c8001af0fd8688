import FrameForest.Forest.Resolve

/-!
# Publishing from the scene

A point or pose picked in the scene is given in the render frame.  Publishing
expresses it in the publish frame, where that is possible, and stamps it with
that frame and the time.
-/

namespace FrameForest

/-- What a user can pick in the scene and publish. -/
inductive Interaction where
  | point
  | pose
  | poseEstimate
  deriving DecidableEq, Repr

namespace Interaction

def defaultTopic : Interaction → String
  | point => "/clicked_point"
  | pose => "/move_base_simple/goal"
  | poseEstimate => "/initialpose"

def schema : Interaction → String
  | point => "geometry_msgs/PointStamped"
  | pose => "geometry_msgs/PoseStamped"
  | poseEstimate => "geometry_msgs/PoseWithCovarianceStamped"

end Interaction

/-- Rows and columns stand for x, y, z, roll, pitch and yaw. -/
abbrev Covariance (α : Type) := Vector (Vector α 6) 6

/-- The standard deviations of a planar pose estimate, in metres and radians. -/
structure Deviation (α : Type) where
  x : α
  y : α
  theta : α
  deriving DecidableEq, Repr

namespace Deviation

variable {α : Type}

def standard : Deviation Float :=
  ⟨0.5, 0.5, 3.141592653589793 / 12.0⟩

/-- The variances of x, y and yaw on the diagonal, and zero everywhere else. -/
def covariance [Mul α] [Zero α] (deviation : Deviation α) : Covariance α :=
  Vector.ofFn fun row => Vector.ofFn fun column =>
    if row = column then
      match row with
      | 0 => deviation.x * deviation.x
      | 1 => deviation.y * deviation.y
      | 5 => deviation.theta * deviation.theta
      | _ => 0
    else
      0

end Deviation

/-- A pose with the frame and time it is expressed in. -/
structure PublishedPose (α : Type) where
  time : Stamp
  frame : String
  pose : Pose α
  /-- Only on pose estimates. -/
  covariance : Option (Covariance α)

namespace Forest

variable {α : Type} [Scalar α]

/-- A pose of the render frame in the publish frame at `time`, if it can be resolved. -/
def express? (forest : Forest α) (pose : Pose α) (renderFrame publishFrame : String)
    (time : Stamp) : Journaled (Option (Pose α) × Forest α) := do
  let resolution : Resolution :=
    { destination := publishFrame
      source := renderFrame
      fixed := renderFrame
      sourceTime := time
      destinationTime := time }
  match forest.resolve pose resolution with
  | (.ok expressed, forest) => pure (some expressed, forest)
  | (.error failure, forest) =>
    Journaled.write .warning
      s!"Unable to transform from '{renderFrame}' to '{publishFrame}': {failure.message}"
    pure (none, forest)

/-- The pose in the publish frame, unchanged when it cannot be resolved. -/
def expressPose (forest : Forest α) (pose : Pose α) (renderFrame publishFrame : String)
    (time : Stamp) : Journaled (Pose α × Forest α) := do
  let (expressed, forest) ← forest.express? pose renderFrame publishFrame time
  pure (expressed.getD pose, forest)

/-- The point in the publish frame, unchanged when it cannot be resolved. -/
def expressPoint (forest : Forest α) (point : Vector3 α) (renderFrame publishFrame : String)
    (time : Stamp) : Journaled (Vector3 α × Forest α) := do
  let (expressed, forest) ← forest.express? (.shift point) renderFrame publishFrame time
  pure ((expressed.map Motion.offset).getD point, forest)

/-- The message for an interaction.  Points lie on the ground of the publish frame, which is the
render frame when none is given; only estimates carry a covariance. -/
def publish (forest : Forest α) (interaction : Interaction) (picked : Pose α)
    (renderFrame : String) (publishFrame : Option String) (deviation : Deviation α)
    (time : Stamp) : Journaled (PublishedPose α × Forest α) := do
  let frame := publishFrame.getD renderFrame
  match interaction with
  | .point =>
    let (point, forest) ← forest.expressPoint picked.offset renderFrame frame time
    pure (⟨time, frame, .shift point.onGround, none⟩, forest)
  | .pose =>
    let (pose, forest) ← forest.expressPose picked renderFrame frame time
    pure (⟨time, frame, pose, none⟩, forest)
  | .poseEstimate =>
    let (pose, forest) ← forest.expressPose picked renderFrame frame time
    pure (⟨time, frame, pose, some deviation.covariance⟩, forest)

end Forest

end FrameForest
