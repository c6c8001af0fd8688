import FrameForest.Document.Basic
import FrameForest.Publishing.Message
import FrameForest.Session.Basic
import FrameForest.Settings.Text

/-!
# Exchanged forms

The documents for motions, samples, settings, diagnoses and messages.  Reading a
motion does not normalise its rotation, and reading settings does not check
them.
-/

namespace FrameForest

open Exchanged

instance : Exchanged Duration where
  read? document := document.word?.map Duration.mk
  write duration := write duration.nanos

instance : Exchanged TimeSpan where
  read? document := do
    guard (document.isStructure 2)
    some ⟨← required? document "start" 0, ← required? document "end" 1⟩
  write span := .record [("start", write span.start), ("end", write span.stop)]

instance : Exchanged (Vector3 Float) where
  read? document := do
    match (← read? document : List Float) with
    | [x, y, z] => some ⟨x, y, z⟩
    | _ => none
  write v := write [v.x, v.y, v.z]

instance : Exchanged (Quaternion Float) where
  read? document := do
    match (← read? document : List Float) with
    | [x, y, z, w] => some ⟨x, y, z, w⟩
    | _ => none
  write q := write [q.x, q.y, q.z, q.w]

instance : Exchanged (Motion Float) where
  read? document := do
    guard (document.isStructure 2)
    some ⟨← required? document "translation" 0, ← required? document "rotation" 1⟩
  write motion :=
    .record [("translation", write motion.offset), ("rotation", write motion.rotation)]

instance : Exchanged (Sample Float) where
  read? document := do
    guard (document.isStructure 2)
    some ⟨← required? document "stamp" 0, ← required? document "transform" 1⟩
  write sample := .record [("stamp", write sample.stamp), ("transform", write sample.motion)]

instance : Exchanged (StampedMotion Float) where
  read? document := do
    guard (document.isStructure 4)
    some
      { parent := ← required? document "parent_frame" 0
        child := ← required? document "child_frame" 1
        stamp := ← required? document "stamp" 2
        motion := ← required? document "transform" 3 }
  write stamped :=
    .record
      [("parent_frame", write stamped.parent), ("child_frame", write stamped.child),
        ("stamp", write stamped.stamp), ("transform", write stamped.motion)]

instance : Exchanged ReparentPolicy :=
  .byName (ReparentPolicy.all.map fun policy => (policy, policy.name))

instance : Exchanged Settings where
  read? document := do
    guard (document.isPartialStructure 5)
    let standard := Settings.standard
    some
      { samplesPerEdge := ← optional? document "max_samples_per_edge" 0 standard.samplesPerEdge
        storageTime := ← optional? document "max_storage_time" 1 standard.storageTime
        tolerance := ← optional? document "tolerance" 2 standard.tolerance
        reparenting := ← optional? document "reparent_policy" 3 standard.reparenting
        memoCapacity := ← optional? document "cache_size" 4 standard.memoCapacity }
  write settings :=
    .record
      [("max_samples_per_edge", write settings.samplesPerEdge),
        ("max_storage_time", write settings.storageTime),
        ("tolerance", write settings.tolerance),
        ("reparent_policy", write settings.reparenting),
        ("cache_size", write settings.memoCapacity)]

instance : Exchanged Role :=
  .byName [(.source, "Source"), (.destination, "Destination"), (.fixed, "Fixed")]

instance : Exchanged MissingCause :=
  .byName
    [(.unknownFrame, "FrameNotFound"), (.unconnected, "NoPath"), (.outsideHistory, "OutOfRange")]

instance : Exchanged MissingReason where
  read? document := do
    guard (document.isStructure 5)
    some
      { role := ← required? document "role" 0
        frame := ← required? document "frame" 1
        cause := ← required? document "cause" 2
        source := ← required? document "from" 3
        target := ← required? document "to" 4 }
  write reason :=
    .record
      [("role", write reason.role), ("frame", write reason.frame), ("cause", write reason.cause),
        ("from", write reason.source), ("to", write reason.target)]

instance : Exchanged SettingPath where
  read? document := (read? document).map SettingPath.mk
  write path := write path.segments

instance : Exchanged Interaction :=
  .byName [(.point, "Point"), (.pose, "Pose"), (.poseEstimate, "PoseEstimate")]

instance : Exchanged (Deviation Float) where
  read? document := do
    guard (document.isPartialStructure 3)
    let standard := Deviation.standard
    some
      { x := ← optional? document "x" 0 standard.x
        y := ← optional? document "y" 1 standard.y
        theta := ← optional? document "theta" 2 standard.theta }
  write deviation :=
    .record
      [("x", write deviation.x), ("y", write deviation.y), ("theta", write deviation.theta)]

instance : Exchanged (PublishedPose Float) where
  read? document := do
    guard (document.isStructure 4)
    some
      { time := ← required? document "timestamp" 0
        frame := ← required? document "frame_id" 1
        pose := ← required? document "pose" 2
        covariance := ← optional? document "covariance" 3 none }
  write message :=
    .record
      [("timestamp", write message.time), ("frame_id", write message.frame),
        ("pose", write message.pose), ("covariance", write message.covariance)]

instance : Exchanged PlacementState :=
  .byName [(.unresolved, "Unresolved"), (.resolved, "Resolved"), (.stale, "Stale")]

instance : Exchanged StalePolicy :=
  .byName [(.keepLastPose, "KeepLastPose"), (.hide, "Hide")]

end FrameForest
