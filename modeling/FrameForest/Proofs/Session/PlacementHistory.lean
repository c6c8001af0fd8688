import FrameForest.Proofs.Diagnosis.Boards
import FrameForest.Proofs.Histories
import FrameForest.Proofs.Session.Calls

/-!
# A placement and its board follow the updates

A placement is updated time and again while its message, the forest and the rest
of the board change.  What it shows is told by its updates since it was reset,
and what the board shows under its path by all its updates: the board does not
notice a reset.
-/

namespace FrameForest

variable {α : Type} {path : SettingPath}

/-- What an update came to, a pose or the reason why there is none. -/
abbrev Attempt (α : Type) : Type :=
  Except MissingReason (Pose α)

namespace Attempt

/-- The reason of the last attempt, if it failed. -/
def failing (attempts : List (Attempt α)) : Option MissingReason :=
  match attempts.getLast? with
  | some (.error reason) => some reason
  | _ => none

/-- How many attempts succeeded right after one that failed. -/
def recoveries (attempts : List (Attempt α)) : Nat :=
  countAlong (fun earlier attempt => attempt.isOk && earlier.getLast?.any (! ·.isOk)) attempts

/-- How many attempts failed, but not right after one that failed for the same reason. -/
def alarms (attempts : List (Attempt α)) : Nat :=
  countAlong (fun earlier attempt =>
    match attempt with
    | .ok _ => false
    | .error reason => failing earlier ≠ some reason) attempts

/-- The poses of the attempts that succeeded. -/
def poses (attempts : List (Attempt α)) : List (Pose α) :=
  attempts.filterMap Except.toOption

/-- The state after several attempts. -/
def stateAfter (attempts : List (Attempt α)) : PlacementState :=
  match attempts.getLast? with
  | none => .unresolved
  | some (.ok _) => .resolved
  | some (.error _) => if attempts.any Except.isOk then .stale else .unresolved

variable (attempts : List (Attempt α))

theorem stateAfter_ok (pose : Pose α) : stateAfter (attempts ++ [.ok pose]) = .resolved := by
  rw [stateAfter, List.getLast?_concat]

theorem stateAfter_error (reason : MissingReason) :
    stateAfter (attempts ++ [.error reason]) =
      if attempts.any Except.isOk then .stale else .unresolved := by
  rw [stateAfter, List.getLast?_concat]
  simp [Except.isOk, Except.toBool]

theorem stateAfter_eq_unresolved_iff :
    stateAfter attempts = .unresolved ↔ ∀ attempt ∈ attempts, attempt.isOk = false := by
  rcases attempts.eq_nil_or_concat' with rfl | ⟨earlier, attempt, rfl⟩
  · simp [stateAfter]
  · cases attempt with
    | ok pose =>
        rw [stateAfter_ok]
        simp [Except.isOk, Except.toBool]
    | error reason =>
        rw [stateAfter_error, List.forall_mem_append]
        cases some : earlier.any Except.isOk with
        | true =>
            obtain ⟨attempt, member, ok⟩ := List.any_eq_true.1 some
            simp only [if_true, reduceCtorEq, false_iff]
            rintro ⟨none, _⟩
            rw [none attempt member] at ok
            cases ok
        | false =>
            simpa [Except.isOk, Except.toBool] using some

/-- A failure is shown only by what was placed before. -/
theorem stateAfter_error_eq (reason : MissingReason) :
    stateAfter (attempts ++ [.error reason]) =
      if stateAfter attempts = .unresolved then .unresolved else .stale := by
  have unseen : stateAfter attempts = .unresolved ↔ ¬attempts.any Except.isOk = true := by
    rw [stateAfter_eq_unresolved_iff]
    simp
  rw [stateAfter_error]
  by_cases seen : attempts.any Except.isOk = true
  · rw [if_pos seen, if_neg fun none => unseen.1 none seen]
  · rw [if_neg seen, if_pos (unseen.2 seen)]

theorem stateAfter_eq_resolved_iff :
    stateAfter attempts = .resolved ↔ ∃ pose, attempts.getLast? = some (.ok pose) := by
  unfold stateAfter
  cases attempts.getLast? with
  | none => simp
  | some attempt =>
      cases attempt with
      | ok pose => simp
      | error reason =>
          dsimp only
          split <;> simp

theorem stateAfter_eq_stale_iff :
    stateAfter attempts = .stale ↔
      (∃ reason, attempts.getLast? = some (.error reason)) ∧ ∃ pose, .ok pose ∈ attempts := by
  have any : attempts.any Except.isOk = true ↔ ∃ pose, .ok pose ∈ attempts := by
    rw [List.any_eq_true]
    constructor
    · rintro ⟨attempt, member, ok⟩
      cases attempt with
      | ok pose => exact ⟨pose, member⟩
      | error reason => cases ok
    · rintro ⟨pose, member⟩
      exact ⟨_, member, rfl⟩
  rw [← any]
  unfold stateAfter
  cases attempts.getLast? with
  | none => simp
  | some attempt =>
      cases attempt with
      | ok pose => simp
      | error reason => simp

theorem failing_concat (attempt : Attempt α) :
    failing (attempts ++ [attempt]) =
      match attempt with
      | .ok _ => none
      | .error reason => some reason := by
  rw [failing, List.getLast?_concat]
  cases attempt <;> rfl

theorem isSome_failing :
    (failing attempts).isSome = attempts.getLast?.any (! ·.isOk) := by
  unfold failing
  cases attempts.getLast? with
  | none => rfl
  | some attempt => cases attempt <;> rfl

theorem recoveries_concat (attempt : Attempt α) :
    recoveries (attempts ++ [attempt]) =
      recoveries attempts + if attempt.isOk && (failing attempts).isSome then 1 else 0 := by
  rw [recoveries, countAlong_concat, isSome_failing, recoveries]

theorem alarms_concat (attempt : Attempt α) :
    alarms (attempts ++ [attempt]) =
      alarms attempts +
        if (match attempt with
          | .ok _ => false
          | .error reason => decide (failing attempts ≠ some reason)) then 1 else 0 :=
  countAlong_concat _ _ _

end Attempt

namespace Placement

variable [Scalar α]

/-- What an update of the placement comes to.  The frame at fault and its role are those that the
resolution blamed. -/
def attempt (placement : Placement α) (forest : Forest α) (renderFrame fixedFrame : String)
    (now : Stamp) : Attempt α :=
  (placement.resolveIn forest renderFrame fixedFrame now).mapError fun failure =>
    { role := failure.role
      frame := failure.frame
      cause := match failure.cause with
        | .unknownFrame _ => .unknownFrame
        | .unconnected _ _ | .cycle _ _ => .unconnected
        | .outsideHistory _ _ _ _ _ | .conflictingParent _ _ _ | .interpolation _
        | .configuration _ => .outsideHistory
      source := placement.frame
      target := renderFrame }

end Placement

/-- A placement, the forest that it is resolved in and the board that it reports to. -/
structure Stage (α : Type) where
  placement : Placement α
  forest : Forest α
  board : Board

/-- What can happen on a stage whose placement reports under the given path. -/
inductive StageCall (α : Type) (path : SettingPath) where
  | message (frame : String) (pose : Pose α) (time : Stamp)
  | obey (policy : StalePolicy)
  | reset
  | update (renderFrame fixedFrame : String) (now : Stamp)
  /-- The forest is changed in some way. -/
  | change (forest : Forest α)
  /-- Another object reports to the board. -/
  | other (call : SinkCall) (apart : call.path ≠ path)

/-- A call and, if it was an update, what it came to. -/
structure StageEvent (α : Type) (path : SettingPath) where
  call : StageCall α path
  attempt? : Option (Attempt α)

namespace StageEvent

def resets : StageEvent α path → Bool
  | ⟨.reset, _⟩ => true
  | _ => false

def policy? : StageEvent α path → Option StalePolicy
  | ⟨.obey policy, _⟩ => some policy
  | _ => none

def other? : StageEvent α path → Option SinkCall
  | ⟨.other call _, _⟩ => some call
  | _ => none

def attempts (events : List (StageEvent α path)) : List (Attempt α) :=
  events.filterMap attempt?

/-- The attempts since the placement was reset. -/
def attemptsSinceReset (events : List (StageEvent α path)) : List (Attempt α) :=
  attempts (since resets events)

/-- The policy that was set last. -/
def policy (events : List (StageEvent α path)) : StalePolicy :=
  (events.filterMap policy?).getLast?.getD .keepLastPose

/-- The board without the placement. -/
def boardWithout (board : Board) (events : List (StageEvent α path)) : Board :=
  (events.filterMap other?).foldl SinkCall.send board

end StageEvent

namespace StageCall

variable [Scalar α]

def perform (call : StageCall α path) (stage : Stage α) : Option (Attempt α) × Stage α :=
  match call with
  | message frame pose time =>
    (none, { stage with placement := stage.placement.setMessage frame pose time })
  | obey stalePolicy => (none, { stage with placement := { stage.placement with stalePolicy } })
  | reset => (none, { stage with placement := stage.placement.reset })
  | update renderFrame fixedFrame now =>
    let (placement, forest, board) :=
      stage.placement.update stage.forest renderFrame fixedFrame now stage.board
    (stage.placement.attempt stage.forest renderFrame fixedFrame now, ⟨placement, forest, board⟩)
  | change forest => (none, { stage with forest })
  | other call _ => (none, { stage with board := call.send stage.board })

def event (call : StageCall α path) (stage : Stage α) : StageEvent α path :=
  ⟨call, (call.perform stage).1⟩

end StageCall

namespace Stage

variable [Scalar α]

/-- The events of several calls, and the stage that they leave. -/
def run (stage : Stage α) : List (StageCall α path) → List (StageEvent α path) × Stage α
  | [] => ([], stage)
  | call :: rest =>
    (call.event stage :: ((call.perform stage).2.run rest).1, ((call.perform stage).2.run rest).2)

theorem run_concat (stage : Stage α) (calls : List (StageCall α path)) (call : StageCall α path) :
    stage.run (calls ++ [call]) =
      ((stage.run calls).1 ++ [call.event (stage.run calls).2],
        (call.perform (stage.run calls).2).2) := by
  induction calls generalizing stage with
  | nil => rfl
  | cons first rest ih =>
      rw [List.cons_append, run, ih]
      rfl

end Stage

/-! ## The placement -/

namespace StageEvent

variable (events : List (StageEvent α path)) (event : StageEvent α path)

theorem attempts_concat : attempts (events ++ [event]) = attempts events ++ event.attempt?.toList :=
  filterMap_concat _ _ _

variable {event} in
theorem attemptsSinceReset_concat (stays : event.resets = false) :
    attemptsSinceReset (events ++ [event]) =
      attemptsSinceReset events ++ event.attempt?.toList := by
  rw [attemptsSinceReset, since_concat events stays, attempts_concat, attemptsSinceReset]

variable {event} in
theorem attemptsSinceReset_of_resets (resets : event.resets = true) :
    attemptsSinceReset (events ++ [event]) = [] := by
  rw [attemptsSinceReset, since_concat_of_stops events resets]
  rfl

variable {event} in
theorem policy_concat_of_none (unset : event.policy? = none) :
    policy (events ++ [event]) = policy events := by
  rw [policy, filterMap_concat, unset, Option.toList_none, List.append_nil, policy]

theorem policy_obey (stalePolicy : StalePolicy) (attempt : Option (Attempt α)) :
    policy (events ++ [⟨.obey stalePolicy, attempt⟩]) = stalePolicy := by
  rw [policy, filterMap_concat, policy?, Option.toList_some, List.getLast?_concat]
  rfl

variable {event} in
theorem boardWithout_of_none (board : Board) (own : event.other? = none) :
    boardWithout board (events ++ [event]) = boardWithout board events := by
  rw [boardWithout, filterMap_concat, own, Option.toList_none, List.append_nil, boardWithout]

theorem boardWithout_other (board : Board) (call : SinkCall) (apart : call.path ≠ path)
    (attempt : Option (Attempt α)) :
    boardWithout board (events ++ [⟨.other call apart, attempt⟩]) =
      call.send (boardWithout board events) := by
  rw [boardWithout, filterMap_concat, other?, Option.toList_some, List.foldl_append]
  rfl

end StageEvent

namespace Placement

open Attempt StageEvent

/-- The placement shows what its attempts since the last reset came to. -/
structure Follows (placement : Placement α) (events : List (StageEvent α path)) : Prop where
  path : placement.path = path
  state : placement.state = stateAfter (attemptsSinceReset events)
  lastPose : placement.lastPose = (poses (attemptsSinceReset events)).getLast?
  stalePolicy : placement.stalePolicy = policy events

namespace Follows

variable {placement : Placement α} {events : List (StageEvent α path)}

theorem create (frame : String) (path : SettingPath) (pose : Pose α) (time : Stamp) :
    (Placement.create frame path pose time).Follows ([] : List (StageEvent α path)) :=
  ⟨rfl, rfl, rfl, rfl⟩

/-- Nothing but updates, resets and policies can be seen. -/
theorem of_unseen (follows : placement.Follows events) {event : StageEvent α path}
    (stays : event.resets = false) (unset : event.policy? = none) (idle : event.attempt? = none)
    {next : Placement α} (path : next.path = placement.path) (state : next.state = placement.state)
    (lastPose : next.lastPose = placement.lastPose)
    (stalePolicy : next.stalePolicy = placement.stalePolicy) :
    next.Follows (events ++ [event]) := by
  have same : attemptsSinceReset (events ++ [event]) = attemptsSinceReset events := by
    rw [attemptsSinceReset_concat events stays, idle, Option.toList_none, List.append_nil]
  constructor
  case path => exact path.trans follows.path
  case state => rw [same, state, follows.state]
  case lastPose => rw [same, lastPose, follows.lastPose]
  case stalePolicy => rw [policy_concat_of_none events unset, stalePolicy, follows.stalePolicy]

theorem reset (follows : placement.Follows events) :
    placement.reset.Follows (events ++ [⟨.reset, none⟩]) := by
  have fresh : attemptsSinceReset (events ++ [⟨.reset, none⟩]) = [] :=
    attemptsSinceReset_of_resets events rfl
  constructor
  case path => exact follows.path
  case state =>
    rw [fresh]
    rfl
  case lastPose =>
    rw [fresh]
    rfl
  case stalePolicy =>
    rw [policy_concat_of_none events rfl]
    exact follows.stalePolicy

theorem obey (follows : placement.Follows events) (stalePolicy : StalePolicy) :
    ({ placement with stalePolicy } : Placement α).Follows
      (events ++ [⟨.obey stalePolicy, none⟩]) := by
  have same : attemptsSinceReset (events ++ [⟨.obey stalePolicy, none⟩]) =
      attemptsSinceReset events := by
    rw [attemptsSinceReset_concat events rfl, Option.toList_none, List.append_nil]
  constructor
  case path => exact follows.path
  case state =>
    rw [same]
    exact follows.state
  case lastPose =>
    rw [same]
    exact follows.lastPose
  case stalePolicy => exact (policy_obey events stalePolicy none).symm

section Attempted

variable {event : StageEvent α path}

theorem succeed (follows : placement.Follows events) (stays : event.resets = false)
    (unset : event.policy? = none) {pose : Pose α} (attempt : event.attempt? = some (.ok pose)) :
    (placement.succeed pose).Follows (events ++ [event]) := by
  have attempted := attemptsSinceReset_concat events stays
  rw [attempt, Option.toList_some] at attempted
  constructor
  case path => exact follows.path
  case state =>
    rw [attempted, stateAfter_ok]
    rfl
  case lastPose =>
    rw [attempted, poses, filterMap_concat, Except.toOption, Option.toList_some,
      List.getLast?_concat]
    rfl
  case stalePolicy =>
    rw [policy_concat_of_none events unset]
    exact follows.stalePolicy

theorem fail (follows : placement.Follows events) (stays : event.resets = false)
    (unset : event.policy? = none) {reason : MissingReason}
    (attempt : event.attempt? = some (.error reason)) :
    placement.fail.Follows (events ++ [event]) := by
  have attempted := attemptsSinceReset_concat events stays
  rw [attempt, Option.toList_some] at attempted
  constructor
  case path => exact follows.path
  case state =>
    rw [attempted, stateAfter_error_eq, ← follows.state]
    by_cases unseen : placement.state = .unresolved
    · rw [if_pos unseen, state_fail_of_unresolved unseen]
    · rw [if_neg unseen, state_fail_of_seen unseen]
  case lastPose =>
    rw [attempted, poses, filterMap_concat, Except.toOption, Option.toList_none, List.append_nil]
    exact follows.lastPose
  case stalePolicy =>
    rw [policy_concat_of_none events unset]
    exact follows.stalePolicy

end Attempted

end Follows

end Placement

/-! ## The board -/

/-- What a board is told of an attempt. -/
def Attempt.notice (path : SettingPath) : Attempt α → SinkCall
  | .ok _ => .clear path
  | .error reason => .report path reason

/-- The sink is told what the update came to. -/
theorem Placement.notice_resolveIn [Scalar α] (placement : Placement α) (forest : Forest α)
    (renderFrame fixedFrame : String) (now : Stamp) :
    placement.notice renderFrame (placement.resolveIn forest renderFrame fixedFrame now) =
      (placement.attempt forest renderFrame fixedFrame now).notice placement.path := by
  unfold attempt
  cases placement.resolveIn forest renderFrame fixedFrame now with
  | ok pose => rfl
  | error failure =>
      obtain ⟨role, frame, cause⟩ := failure
      cases cause <;> rfl

namespace Board

open Attempt StageEvent

/-- The board shows the last attempt under the path of the placement and counts its changes.  In all
else it is the board that it would be without the placement. -/
structure Follows (board start : Board) (events : List (StageEvent α path)) : Prop where
  active : board.active.find? path = failing (attempts events)
  elsewhere : ∀ other, other ≠ path →
    board.active.find? other = (boardWithout start events).active.find? other
  cleared : board.cleared = (boardWithout start events).cleared + recoveries (attempts events)
  reported : board.reported = (boardWithout start events).reported + alarms (attempts events)

namespace Follows

variable {board start : Board} {events : List (StageEvent α path)} {event : StageEvent α path}

theorem of_dark (dark : start.active.find? path = none) :
    start.Follows start ([] : List (StageEvent α path)) :=
  ⟨dark, fun _ _ => rfl, rfl, rfl⟩

theorem of_idle (follows : board.Follows start events) (idle : event.attempt? = none)
    (own : event.other? = none) : board.Follows start (events ++ [event]) := by
  have same : attempts (events ++ [event]) = attempts events := by
    rw [attempts_concat, idle, Option.toList_none, List.append_nil]
  have others := boardWithout_of_none events start own
  constructor
  case active => rw [same, follows.active]
  case elsewhere => rw [others]; exact follows.elsewhere
  case cleared => rw [same, others, follows.cleared]
  case reported => rw [same, others, follows.reported]

/-- What others report does not meet the path of the placement. -/
theorem other (follows : board.Follows start events) (call : SinkCall) (apart : call.path ≠ path) :
    (call.send board).Follows start (events ++ [⟨.other call apart, none⟩]) := by
  have same : attempts (events ++ [⟨.other call apart, none⟩]) = attempts events := by
    rw [attempts_concat, Option.toList_none, List.append_nil]
  have others := boardWithout_other events start call apart none
  have before := follows.elsewhere call.path apart
  constructor
  case active => rw [same, find?_send, if_neg (Ne.symm apart), follows.active]
  case elsewhere =>
    intro other away
    rw [others, find?_send, find?_send, follows.elsewhere other away]
  case cleared =>
    rw [same, others, cleared_send, cleared_send, before, follows.cleared, Nat.add_right_comm]
  case reported =>
    rw [same, others, reported_send, reported_send, before, follows.reported, Nat.add_right_comm]

theorem tell (follows : board.Follows start events) {attempt : Attempt α}
    (attempted : event.attempt? = some attempt) (own : event.other? = none) :
    ((attempt.notice path).send board).Follows start (events ++ [event]) := by
  have further : attempts (events ++ [event]) = attempts events ++ [attempt] := by
    rw [attempts_concat, attempted, Option.toList_some]
  have others := boardWithout_of_none events start own
  have here : (attempt.notice path).path = path := by cases attempt <;> rfl
  constructor
  case active =>
    rw [further, find?_send, if_pos here.symm, failing_concat]
    cases attempt <;> rfl
  case elsewhere =>
    intro other away
    rw [others, find?_send, here, if_neg away, follows.elsewhere other away]
  case cleared =>
    rw [further, others, cleared_send, here, follows.active, follows.cleared, recoveries_concat,
      Nat.add_assoc]
    cases attempt <;> rfl
  case reported =>
    rw [further, others, reported_send, here, follows.active, follows.reported, alarms_concat,
      Nat.add_assoc]
    cases attempt <;> rfl

end Follows

end Board

/-! ## Both through all calls -/

namespace Stage

open Attempt StageEvent

structure Follows (stage : Stage α) (start : Board) (events : List (StageEvent α path)) : Prop where
  placement : stage.placement.Follows events
  board : stage.board.Follows start events

variable [Scalar α]

theorem Follows.perform {stage : Stage α} {start : Board} {events : List (StageEvent α path)}
    (follows : stage.Follows start events) (call : StageCall α path) :
    (call.perform stage).2.Follows start (events ++ [call.event stage]) := by
  obtain ⟨placement, board⟩ := follows
  cases call with
  | message frame pose time =>
      exact ⟨placement.of_unseen rfl rfl rfl rfl rfl rfl rfl, board.of_idle rfl rfl⟩
  | obey policy => exact ⟨placement.obey policy, board.of_idle rfl rfl⟩
  | reset => exact ⟨placement.reset, board.of_idle rfl rfl⟩
  | change forest =>
      exact ⟨placement.of_unseen rfl rfl rfl rfl rfl rfl rfl, board.of_idle rfl rfl⟩
  | other call apart =>
      exact ⟨placement.of_unseen rfl rfl rfl rfl rfl rfl rfl, board.other call apart⟩
  | update renderFrame fixedFrame now =>
      have left : ((.update renderFrame fixedFrame now : StageCall α path).perform stage).2 =
          ⟨stage.placement.settle
              (stage.placement.resolveIn stage.forest renderFrame fixedFrame now),
            ((stage.placement.ask renderFrame fixedFrame now).perform stage.forest).2,
            (stage.placement.notice renderFrame
              (stage.placement.resolveIn stage.forest renderFrame fixedFrame now)).send
                stage.board⟩ := by
        rw [StageCall.perform, Placement.update_eq]
      have attempted : ((.update renderFrame fixedFrame now : StageCall α path).event
          stage).attempt? =
            some (stage.placement.attempt stage.forest renderFrame fixedFrame now) := rfl
      have told := board.tell attempted rfl
      rw [left]
      constructor
      case placement =>
        cases answer : stage.placement.resolveIn stage.forest renderFrame fixedFrame now with
        | ok pose =>
            rw [Placement.attempt, answer] at attempted
            exact placement.succeed rfl rfl attempted
        | error failure =>
            rw [Placement.attempt, answer] at attempted
            exact placement.fail rfl rfl attempted
      case board =>
        rw [Placement.notice_resolveIn, placement.path]
        exact told

theorem Follows.run {stage : Stage α} {start : Board} {earlier : List (StageEvent α path)}
    (follows : stage.Follows start earlier) (calls : List (StageCall α path)) :
    (stage.run calls).2.Follows start (earlier ++ (stage.run calls).1) := by
  induction calls using List.reverseRecOn with
  | nil =>
      rw [Stage.run, List.append_nil]
      exact follows
  | append_singleton calls call ih =>
      rw [run_concat, ← List.append_assoc]
      exact ih.perform call

omit [Scalar α] in
/-- The placement and the board tell how the updates went. -/
structure TellsHistory (stage : Stage α) (start : Board) (events : List (StageEvent α path)) :
    Prop where
  unresolved_iff : stage.placement.state = .unresolved ↔
    ∀ attempt ∈ attemptsSinceReset events, attempt.isOk = false
  resolved_iff : stage.placement.state = .resolved ↔
    ∃ pose, (attemptsSinceReset events).getLast? = some (.ok pose)
  stale_iff : stage.placement.state = .stale ↔
    (∃ reason, (attemptsSinceReset events).getLast? = some (.error reason)) ∧
      ∃ pose, .ok pose ∈ attemptsSinceReset events
  lastPose : stage.placement.lastPose = (poses (attemptsSinceReset events)).getLast?
  displayedPose : stage.placement.displayedPose =
    if stage.placement.state = .resolved ∨
        stage.placement.state = .stale ∧ policy events = .keepLastPose then
      (poses (attemptsSinceReset events)).getLast?
    else none
  /-- A reset of the placement does not show on the board. -/
  active : stage.board.active.find? path = failing (attempts events)
  elsewhere : ∀ other, other ≠ path →
    stage.board.active.find? other = (boardWithout start events).active.find? other
  cleared : stage.board.cleared = (boardWithout start events).cleared + recoveries (attempts events)
  reported : stage.board.reported =
    (boardWithout start events).reported + alarms (attempts events)

omit [Scalar α] in
theorem Follows.tellsHistory {stage : Stage α} {start : Board} {events : List (StageEvent α path)}
    (follows : stage.Follows start events) : stage.TellsHistory start events := by
  obtain ⟨placement, board⟩ := follows
  constructor
  case unresolved_iff =>
    rw [placement.state]
    exact stateAfter_eq_unresolved_iff _
  case resolved_iff =>
    rw [placement.state]
    exact stateAfter_eq_resolved_iff _
  case stale_iff =>
    rw [placement.state]
    exact stateAfter_eq_stale_iff _
  case lastPose => exact placement.lastPose
  case displayedPose =>
    rw [← placement.lastPose, ← placement.stalePolicy, Placement.displayedPose]
    cases stage.placement.state <;> cases stage.placement.stalePolicy <;> rfl
  case active => exact board.active
  case elsewhere => exact board.elsewhere
  case cleared => exact board.cleared
  case reported => exact board.reported

/-- Through every run of a new placement, whatever happens to the forest and under the other paths
of the board, placement and board tell how its updates went. -/
theorem tells_history_run (frame : String) (pose : Pose α) (time : Stamp) (forest : Forest α)
    {board : Board} (dark : board.active.find? path = none) (calls : List (StageCall α path)) :
    ((⟨.create frame path pose time, forest, board⟩ : Stage α).run calls).2.TellsHistory board
      ((⟨.create frame path pose time, forest, board⟩ : Stage α).run calls).1 :=
  (Follows.run ⟨.create frame path pose time, .of_dark dark⟩ calls).tellsHistory

/-- A robot that no forest knows yet. -/
def arrival : Stage Float :=
  ⟨.create "robot" ⟨["robot"]⟩ 1 ⟨5⟩, .empty .standard, .empty⟩

/-- It is missed, reset while it is missed, and found once it hangs from the map. -/
def search : List (StageCall Float ⟨["robot"]⟩) :=
  [.update "map" "map" ⟨5⟩, .reset,
    .change (Forest.after .standard [.record (.fixed ⟨"map", "robot", 0, 1⟩)]),
    .update "map" "map" ⟨5⟩]

/-- The board does not notice the reset, and clears the robot when it is found. -/
theorem tells_history_run_robot :
    (arrival.run search).2.board.active.find? ⟨["robot"]⟩ = none ∧
      (arrival.run search).2.board.cleared = 1 := by
  have dark : Board.empty.active.find? ⟨["robot"]⟩ = none := rfl
  have told : (arrival.run search).2.TellsHistory .empty (arrival.run search).1 :=
    tells_history_run "robot" 1 ⟨5⟩ (.empty .standard) dark search
  have shows : failing (StageEvent.attempts (arrival.run search).1) = none := by decide +kernel
  have recovered : recoveries (StageEvent.attempts (arrival.run search).1) = 1 := by decide +kernel
  refine ⟨told.active.trans shows, ?_⟩
  rw [told.cleared, recovered]
  rfl

end Stage

end FrameForest
