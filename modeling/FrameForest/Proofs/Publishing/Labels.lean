import FrameForest.Proofs.Forest.Calls
import FrameForest.Publishing.Message

/-!
# The frame that a published pose is given in

A message names the publish frame before its pose is converted, and a pose whose
conversion fails is published as it was picked.  So the message gives the pose in
the frame that it names exactly when the conversion succeeds, as it always does
into the render frame itself.  Otherwise the coordinates are those of the render
frame under the name of another one, and only the journal tells.
-/

namespace FrameForest

variable {α : Type} [Scalar α]

/-- What is published of a pose: all of it, or of a point its place on the ground. -/
def Interaction.present : Interaction → Pose α → Pose α
  | point, placed => .shift placed.offset.onGround
  | pose, placed | poseEstimate, placed => placed

namespace Forest

/-- Where a pose comes to lie does not depend on how it is turned, and neither does why it cannot be
placed. -/
theorem map_offset_resolve (forest : Forest α) (resolution : Resolution) {first second : Pose α}
    (same : first.offset = second.offset) :
    (forest.resolve first resolution).1.map Motion.offset =
      (forest.resolve second resolution).1.map Motion.offset := by
  unfold resolve
  by_cases here : resolution.source = resolution.destination
  · rw [if_pos here, if_pos here]
    exact congrArg Except.ok same
  · rw [if_neg here, if_neg here]
    obtain ⟨sourceToFixed, next⟩ :=
      forest.lookup resolution.source resolution.fixed resolution.sourceTime
    cases sourceToFixed with
    | error cause => rfl
    | ok sourceToFixed =>
        dsimp only
        obtain ⟨fixedToDestination, last⟩ :=
          next.lookup resolution.fixed resolution.destination resolution.destinationTime
        cases fixedToDestination with
        | error cause => rfl
        | ok fixedToDestination =>
            exact congrArg (fun offset => Except.ok ((fixedToDestination * sourceToFixed).act offset))
              same

/-- A pose of the render frame in another frame at the same time. -/
def convert (forest : Forest α) (picked : Pose α) (renderFrame frame : String) (time : Stamp) :
    Except ResolutionFailure (Pose α) :=
  (forest.resolve picked ⟨frame, renderFrame, renderFrame, time, time⟩).1

theorem convert_self (forest : Forest α) (picked : Pose α) (frame : String) (time : Stamp) :
    forest.convert picked frame frame time = .ok picked := by
  unfold convert resolve
  rw [if_pos rfl]

/-- What the journal tells of a conversion. -/
def conversionEntries {β : Type} (renderFrame frame : String) :
    Except ResolutionFailure β → List JournalEntry
  | .ok _ => []
  | .error failure =>
    [⟨.warning, s!"Unable to transform from '{renderFrame}' to '{frame}': {failure.message}"⟩]

omit [Scalar α] in
theorem conversionEntries_map {β γ : Type} (renderFrame frame : String) (f : β → γ)
    (converted : Except ResolutionFailure β) :
    conversionEntries renderFrame frame (converted.map f) =
      conversionEntries renderFrame frame converted := by
  cases converted <;> rfl

section Express

variable (forest : Forest α) (picked : Pose α) (renderFrame frame : String) (time : Stamp)

theorem express?_eq :
    (forest.express? picked renderFrame frame time).result.1 =
        (forest.convert picked renderFrame frame time).toOption ∧
      (forest.express? picked renderFrame frame time).entries =
        conversionEntries renderFrame frame (forest.convert picked renderFrame frame time) := by
  unfold express? convert
  dsimp only
  obtain ⟨resolved, next⟩ :=
    forest.resolve picked ⟨frame, renderFrame, renderFrame, time, time⟩
  cases resolved <;> exact ⟨rfl, rfl⟩

theorem expressPose_eq :
    (forest.expressPose picked renderFrame frame time).result.1 =
        (forest.convert picked renderFrame frame time).toOption.getD picked ∧
      (forest.expressPose picked renderFrame frame time).entries =
        conversionEntries renderFrame frame (forest.convert picked renderFrame frame time) := by
  obtain ⟨told, entries⟩ := forest.express?_eq picked renderFrame frame time
  unfold expressPose
  rw [Journaled.result_bind, Journaled.entries_bind, Journaled.entries_pure, List.append_nil]
  exact ⟨congrArg (Option.getD · picked) told, entries⟩

/-- A point goes where a pose at that point goes. -/
theorem expressPoint_eq :
    (forest.expressPoint picked.offset renderFrame frame time).result.1 =
        ((forest.convert picked renderFrame frame time).toOption.getD picked).offset ∧
      (forest.expressPoint picked.offset renderFrame frame time).entries =
        conversionEntries renderFrame frame (forest.convert picked renderFrame frame time) := by
  obtain ⟨told, entries⟩ := forest.express?_eq (.shift picked.offset) renderFrame frame time
  have moved : (forest.convert (.shift picked.offset) renderFrame frame time).map Motion.offset =
      (forest.convert picked renderFrame frame time).map Motion.offset :=
    forest.map_offset_resolve _ rfl
  unfold expressPoint
  rw [Journaled.result_bind, Journaled.entries_bind, Journaled.entries_pure, List.append_nil,
    entries, ← conversionEntries_map _ _ Motion.offset, moved, conversionEntries_map]
  have mapped : ∀ converted : Except ResolutionFailure (Pose α),
      converted.toOption.map Motion.offset = (converted.map Motion.offset).toOption := by
    intro converted
    cases converted <;> rfl
  refine ⟨?_, rfl⟩
  show ((forest.express? _ _ _ _).result.1.map Motion.offset).getD picked.offset = _
  rw [told, mapped, moved]
  cases forest.convert picked renderFrame frame time <;> rfl

end Express

end Forest

/-- The message gives the picked pose in the frame that it names. -/
inductive PublishedPose.Expresses (message : PublishedPose α) (forest : Forest α)
    (interaction : Interaction) (picked : Pose α) (renderFrame : String)
    (publishFrame : Option String) : Prop
  | converted {converted : Pose α} (named : publishFrame = some message.frame)
      (resolved : forest.convert picked renderFrame message.frame message.time = .ok converted)
      (pose : message.pose = interaction.present converted)
  | picked (named : message.frame = renderFrame) (pose : message.pose = interaction.present picked)

namespace Forest

section Publish

variable (forest : Forest α) (interaction : Interaction) (picked : Pose α)
  (renderFrame : String) (publishFrame : Option String) (deviation : Deviation α) (time : Stamp)

/-- The message, once it is known what the conversion comes to. -/
theorem publish_eq :
    (forest.publish interaction picked renderFrame publishFrame deviation time).result.1 =
        { time
          frame := publishFrame.getD renderFrame
          pose := interaction.present ((forest.convert picked renderFrame
            (publishFrame.getD renderFrame) time).toOption.getD picked)
          covariance := if interaction = .poseEstimate then some deviation.covariance else none } ∧
      (forest.publish interaction picked renderFrame publishFrame deviation time).entries =
        conversionEntries renderFrame (publishFrame.getD renderFrame)
          (forest.convert picked renderFrame (publishFrame.getD renderFrame) time) := by
  obtain ⟨pose, poseEntries⟩ :=
    forest.expressPose_eq picked renderFrame (publishFrame.getD renderFrame) time
  obtain ⟨point, pointEntries⟩ :=
    forest.expressPoint_eq picked renderFrame (publishFrame.getD renderFrame) time
  unfold publish
  cases interaction with
  | point =>
      rw [← pointEntries, Interaction.present, ← point]
      exact ⟨rfl, List.append_nil _⟩
  | pose =>
      rw [← poseEntries, Interaction.present, ← pose]
      exact ⟨rfl, List.append_nil _⟩
  | poseEstimate =>
      rw [← poseEntries, Interaction.present, ← pose]
      exact ⟨rfl, List.append_nil _⟩

variable {forest picked renderFrame publishFrame time}

theorem expresses_of_converted {converted : Pose α}
    (resolved : forest.convert picked renderFrame (publishFrame.getD renderFrame) time =
      .ok converted) :
    (forest.publish interaction picked renderFrame publishFrame deviation time).result.1.Expresses
      forest interaction picked renderFrame publishFrame := by
  have pose : interaction.present ((forest.convert picked renderFrame
      (publishFrame.getD renderFrame) time).toOption.getD picked) =
        interaction.present converted := by
    rw [resolved]
    rfl
  rw [(forest.publish_eq interaction picked renderFrame publishFrame deviation time).1]
  cases publishFrame with
  | none =>
      have same := (forest.convert_self picked renderFrame time).symm.trans resolved
      cases same
      exact .picked rfl pose
  | some frame => exact .converted rfl resolved pose

section Failed

variable {failure : ResolutionFailure}
  (failed : forest.convert picked renderFrame (publishFrame.getD renderFrame) time =
    .error failure)

include failed

theorem foreign_of_failed : publishFrame.getD renderFrame ≠ renderFrame := by
  intro same
  rw [same, convert_self] at failed
  cases failed

theorem not_expresses_of_failed :
    ¬(forest.publish interaction picked renderFrame publishFrame deviation time).result.1.Expresses
      forest interaction picked renderFrame publishFrame := by
  rw [(forest.publish_eq interaction picked renderFrame publishFrame deviation time).1]
  intro expresses
  cases expresses with
  | converted named resolved pose =>
      dsimp only at resolved
      rw [failed] at resolved
      cases resolved
  | picked named pose => exact foreign_of_failed failed named

theorem publish_of_failed :
    (forest.publish interaction picked renderFrame publishFrame deviation time).result.1.pose =
        interaction.present picked ∧
      (forest.publish interaction picked renderFrame publishFrame deviation time).entries =
        conversionEntries renderFrame (publishFrame.getD renderFrame)
          (.error failure : Except ResolutionFailure (Pose α)) := by
  obtain ⟨message, entries⟩ :=
    forest.publish_eq interaction picked renderFrame publishFrame deviation time
  rw [failed] at message entries
  exact ⟨congrArg PublishedPose.pose message, entries⟩

end Failed

variable (forest picked renderFrame publishFrame time)

/-- What is published of a picked pose, and the frame that it is given in. -/
structure PublishesConverted : Prop where
  stamped : (forest.publish interaction picked renderFrame publishFrame deviation
    time).result.1.time = time
  named : (forest.publish interaction picked renderFrame publishFrame deviation
    time).result.1.frame = publishFrame.getD renderFrame
  expresses_iff : (forest.publish interaction picked renderFrame publishFrame deviation
      time).result.1.Expresses forest interaction picked renderFrame publishFrame ↔
    ∃ pose, forest.convert picked renderFrame (publishFrame.getD renderFrame) time = .ok pose
  /-- Into the render frame every pose can be converted. -/
  own : publishFrame.getD renderFrame = renderFrame →
    forest.convert picked renderFrame (publishFrame.getD renderFrame) time = .ok picked
  /-- What could not be converted is published as it was picked, with a warning in the journal. -/
  failed : ∀ failure,
    forest.convert picked renderFrame (publishFrame.getD renderFrame) time = .error failure →
      (forest.publish interaction picked renderFrame publishFrame deviation time).result.1.pose =
          interaction.present picked ∧
        (forest.publish interaction picked renderFrame publishFrame deviation time).entries =
          conversionEntries renderFrame (publishFrame.getD renderFrame)
            (.error failure : Except ResolutionFailure (Pose α))

/-- A message gives its pose in the frame that it names exactly when the pose can be converted. -/
theorem publishes_converted : forest.PublishesConverted interaction picked renderFrame publishFrame
    deviation time := by
  have message :=
    (forest.publish_eq interaction picked renderFrame publishFrame deviation time).1
  constructor
  case stamped => exact congrArg PublishedPose.time message
  case named => exact congrArg PublishedPose.frame message
  case expresses_iff =>
    constructor
    · intro expresses
      cases told : forest.convert picked renderFrame (publishFrame.getD renderFrame) time with
      | ok pose => exact ⟨pose, rfl⟩
      | error failure => exact absurd expresses (not_expresses_of_failed interaction deviation told)
    · rintro ⟨pose, resolved⟩
      exact expresses_of_converted interaction deviation resolved
  case own =>
    intro same
    rw [same, convert_self]
  case failed => exact fun failure failed => publish_of_failed interaction deviation failed

end Publish

/-- A goal is set on the map for a robot that was last seen there eight nanoseconds ago. -/
theorem goal_given_in_another_frame :
    let forest : Forest Float := after .standard [.record (.timed ⟨"map", "robot", ⟨1⟩, 1⟩)]
    let picked : Pose Float := .shift ⟨1, 2, 3⟩
    let message := (forest.publish .pose picked "map" (some "robot") .standard ⟨9⟩).result.1
    message.frame = "robot" ∧ message.pose = picked ∧
      ¬message.Expresses forest .pose picked "map" (some "robot") := by
  intro forest picked message
  have failed : (forest.convert picked "map" "robot" ⟨9⟩).isOk = false := by decide +kernel
  cases told : forest.convert picked "map" "robot" ⟨9⟩ with
  | ok pose =>
      rw [told] at failed
      cases failed
  | error failure =>
      exact ⟨rfl, (publish_of_failed .pose .standard told).1,
        not_expresses_of_failed .pose .standard told⟩

end Forest

end FrameForest
