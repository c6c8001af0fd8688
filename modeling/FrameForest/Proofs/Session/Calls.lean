import FrameForest.Proofs.Forest.Calls

/-!
# Calls of a session

A run of a session performs calls one after the other and keeps each together
with its answer.  What a flush, a tick and a seek leave is said here in terms of
calls to the forest: the pending arrivals are recorded in turn, and every
placement of a tick is settled by the same recorded samples.
-/

namespace FrameForest

variable {α σ : Type}

/-- The answer to a recording that was refused. -/
def Answer.isRefusal : Answer α → Bool
  | recorded (.error _) => true
  | _ => false

/-! ## Placements -/

namespace Placement

variable {placement : Placement α}

/-- The placement as a tick takes it up, forgotten first if it is outdated. -/
def renew (placement : Placement α) (outdated : Bool) : Placement α :=
  if outdated then placement.reset else placement

/-- The placement after a resolution. -/
def settle (placement : Placement α) : Except ResolutionFailure (Pose α) → Placement α
  | .ok pose => placement.succeed pose
  | .error _ => placement.fail

theorem state_settle_eq_resolved_iff (told : Except ResolutionFailure (Pose α)) :
    (placement.settle told).state = .resolved ↔ told.isOk := by
  cases told with
  | ok pose => simp [settle, succeed, Except.isOk, Except.toBool]
  | error failure => cases state : placement.state <;>
      simp [settle, fail, state, Except.isOk, Except.toBool]

/-- Every placement is counted, as resolved or as failed. -/
theorem countP_resolved_add_countP_failed (placements : List (Placement α)) :
    (placements.countP fun placement => placement.state = .resolved) +
        (placements.countP fun placement =>
          placement.state = .unresolved ∨ placement.state = .stale) =
      placements.length := by
  have others : (placements.countP fun placement =>
        placement.state = .unresolved ∨ placement.state = .stale) =
      placements.countP fun placement => ¬(decide (placement.state = .resolved)) := by
    apply List.countP_congr
    intro placement _
    cases placement.state <;> simp
  rw [others]
  exact (List.length_eq_countP_add_countP _).symm

theorem state_fail_of_unresolved (unseen : placement.state = .unresolved) :
    placement.fail.state = .unresolved := by
  rw [fail, unseen]

theorem state_fail_of_seen (seen : placement.state ≠ .unresolved) :
    placement.fail.state = .stale := by
  cases state : placement.state with
  | unresolved => exact absurd state seen
  | resolved => rw [fail, state]
  | stale => rw [fail, state]

variable [Scalar α] [DiagnosisSink σ]

/-- What the samples of `forest` tell of the placement.  The pose of the message is taken from its
frame at the time of the message to the render frame at `now`. -/
def resolveIn (placement : Placement α) (forest : Forest α) (renderFrame fixedFrame : String)
    (now : Stamp) : Except ResolutionFailure (Pose α) :=
  (forest.resolve placement.messagePose
    { destination := renderFrame
      source := placement.frame
      fixed := fixedFrame
      sourceTime := placement.messageTime
      destinationTime := now }).1

/-- What a tick makes of the placement. -/
def ticked (placement : Placement α) (outdated : Bool) (forest : Forest α)
    (renderFrame fixedFrame : String) (now : Stamp) : Placement α :=
  (placement.renew outdated).settle (placement.resolveIn forest renderFrame fixedFrame now)

omit [DiagnosisSink σ] in
@[simp] theorem resolveIn_renew (outdated : Bool) :
    (placement.renew outdated).resolveIn = placement.resolveIn := by
  cases outdated <;> rfl

omit [DiagnosisSink σ] in
theorem resolveIn_of_bare_eq {forest next : Forest α} (same : next.bare = forest.bare)
    (sound : forest.Sound) (nextSound : next.Sound) :
    placement.resolveIn next = placement.resolveIn forest := by
  funext renderFrame fixedFrame now
  exact Forest.fst_resolve_of_bare_eq same sound nextSound _ _

/-- What the sink is told of a resolution. -/
def notice (placement : Placement α) (renderFrame : String) :
    Except ResolutionFailure (Pose α) → SinkCall
  | .ok _ => .clear placement.path
  | .error failure => .report placement.path (.ofFailure failure placement.frame renderFrame)

/-- What the forest is asked for the placement. -/
def ask (placement : Placement α) (renderFrame fixedFrame : String) (now : Stamp) : Call α :=
  .resolve placement.messagePose (placement.resolution renderFrame fixedFrame now)

omit [DiagnosisSink σ] [Scalar α] in
@[simp] theorem ask_renew (outdated : Bool) :
    (placement.renew outdated).ask = placement.ask := by
  cases outdated <;> rfl

omit [DiagnosisSink σ] [Scalar α] in
@[simp] theorem path_notice (renderFrame : String) (told : Except ResolutionFailure (Pose α)) :
    (placement.notice renderFrame told).path = placement.path := by
  cases told <;> rfl

omit [DiagnosisSink σ] [Scalar α] in
@[simp] theorem notice_renew (outdated : Bool) :
    (placement.renew outdated).notice = placement.notice := by
  cases outdated <;> rfl

theorem update_eq (placement : Placement α) (forest : Forest α) (renderFrame fixedFrame : String)
    (now : Stamp) (sink : σ) :
    placement.update forest renderFrame fixedFrame now sink =
      (placement.settle (placement.resolveIn forest renderFrame fixedFrame now),
        ((placement.ask renderFrame fixedFrame now).perform forest).2,
        (placement.notice renderFrame
          (placement.resolveIn forest renderFrame fixedFrame now)).send sink) := by
  have asked : ((placement.ask renderFrame fixedFrame now).perform forest).2 =
      (forest.resolve placement.messagePose
        (placement.resolution renderFrame fixedFrame now)).2 := rfl
  have told : placement.resolveIn forest renderFrame fixedFrame now =
      (forest.resolve placement.messagePose
        (placement.resolution renderFrame fixedFrame now)).1 := rfl
  rw [asked, told, update]
  generalize forest.resolve placement.messagePose
    (placement.resolution renderFrame fixedFrame now) = resolved
  obtain ⟨answer, next⟩ := resolved
  cases answer <;> rfl

end Placement

/-! ## Calls and runs -/

inductive SessionCall (α σ : Type) where
  | enqueue (arrival : Arrival α)
  | flush
  | setTime (time : Stamp) (isSeek : Bool)
  | reset
  | tick (placements : List (Placement α)) (renderFrame fixedFrame : String) (sink : σ)
  /-- A call to the forest that leaves its frames and samples alone. -/
  | ask (call : Call α) (quiet : call.isQuiet = true)

inductive SessionAnswer (α σ : Type) where
  | done
  | flushed (accepted rejected : Nat)
  | moved (cleared : Bool)
  | ticked (report : TickReport) (placements : List (Placement α)) (sink : σ)
  | told (answer : Answer α)

/-- A call and what it was answered. -/
structure SessionEvent (α σ : Type) where
  call : SessionCall α σ
  answer : SessionAnswer α σ

/-- The session forgot everything it held. -/
def SessionEvent.clears : SessionEvent α σ → Bool
  | ⟨.reset, _⟩ => true
  | ⟨.setTime _ _, .moved cleared⟩ => cleared
  | _ => false

namespace SessionCall

def ticks : SessionCall α σ → Bool
  | tick _ _ _ _ => true
  | _ => false

variable [Scalar α] [DiagnosisSink σ]

def perform (call : SessionCall α σ) (session : Session α) : SessionAnswer α σ × Session α :=
  match call with
  | enqueue arrival => (.done, session.enqueue arrival)
  | flush =>
    (.flushed session.flush.result.1.1 session.flush.result.1.2, session.flush.result.2)
  | setTime time isSeek => (session.setTime time isSeek).result.map .moved id
  | reset => (.done, session.reset.result)
  | tick placements renderFrame fixedFrame sink =>
    let (report, updated, next, told) :=
      (session.tick placements renderFrame fixedFrame sink).result
    (.ticked report updated told, next)
  | ask call _ =>
    (.told (call.perform session.forest).1,
      { session with forest := (call.perform session.forest).2 })

/-- The call together with its answer. -/
def event (call : SessionCall α σ) (session : Session α) : SessionEvent α σ :=
  ⟨call, (call.perform session).1⟩

end SessionCall

namespace Session

section Updates

variable [Scalar α] [DiagnosisSink σ]

/-- What several placements ask of the forest. -/
def asks (placements : List (Placement α)) (renderFrame fixedFrame : String) (now : Stamp) :
    List (Call α) :=
  placements.map (·.ask renderFrame fixedFrame now)

/-- What the sink is told of several placements. -/
def notices (placements : List (Placement α)) (forest : Forest α) (renderFrame fixedFrame : String)
    (now : Stamp) : List SinkCall :=
  placements.map fun placement =>
    placement.notice renderFrame (placement.resolveIn forest renderFrame fixedFrame now)

/-- Several updates, each of which finds the samples that the first one found. -/
theorem updateAll_eq {forest : Forest α} (sound : forest.Sound) (renderFrame fixedFrame : String)
    (now : Stamp) (sink : σ) (placements : List (Placement α)) :
    updateAll renderFrame fixedFrame now forest sink placements =
        (placements.map (fun placement =>
            placement.settle (placement.resolveIn forest renderFrame fixedFrame now)),
          (forest.run (asks placements renderFrame fixedFrame now)).2,
          (notices placements forest renderFrame fixedFrame now).foldl SinkCall.send sink) ∧
      (forest.run (asks placements renderFrame fixedFrame now)).2.bare = forest.bare := by
  induction placements generalizing forest sink with
  | nil => exact ⟨rfl, rfl⟩
  | cons placement rest ih =>
      have quiet : (placement.ask renderFrame fixedFrame now).isQuiet = true := rfl
      have kept := Forest.bare_perform_of_isQuiet sound quiet
      have nextSound := sound.perform (placement.ask renderFrame fixedFrame now)
      have updated := placement.update_eq forest renderFrame fixedFrame now sink
      obtain ⟨others, keptLast⟩ := ih nextSound ((placement.notice renderFrame
        (placement.resolveIn forest renderFrame fixedFrame now)).send sink)
      unfold notices at others
      simp only [Placement.resolveIn_of_bare_eq kept sound nextSound] at others
      refine ⟨?_, keptLast.trans kept⟩
      unfold updateAll
      rw [updated]
      dsimp only
      rw [others]
      rfl

end Updates

variable [Scalar α]

theorem result_absorb (forest : Forest α) (arrivals : List (Arrival α)) :
    (absorb forest arrivals).result =
      (((forest.run (arrivals.map .record)).1.countP (! ·.isRefusal),
          (forest.run (arrivals.map .record)).1.countP Answer.isRefusal),
        (forest.run (arrivals.map .record)).2) := by
  induction arrivals generalizing forest with
  | nil => rfl
  | cons arrival rest ih =>
      have next := ih (arrival.recordIn forest).result.2
      unfold absorb
      rw [Journaled.result_bind, List.map_cons, Forest.run, Call.perform]
      generalize (arrival.recordIn forest).result = recorded at next ⊢
      obtain ⟨told, forest⟩ := recorded
      dsimp only at next ⊢
      rw [Journaled.result_bind, next]
      cases told with
      | ok recording => simp [Answer.isRefusal]
      | error failure => simp [List.countP_cons, Answer.isRefusal]

theorem result_flush (session : Session α) :
    session.flush.result =
      (((session.forest.run (session.pending.map .record)).1.countP (! ·.isRefusal),
          (session.forest.run (session.pending.map .record)).1.countP Answer.isRefusal),
        { session with
          forest := (session.forest.run (session.pending.map .record)).2, pending := [] }) := by
  unfold flush
  rw [Journaled.result_bind, result_absorb]
  rfl

/-- Every pending arrival is counted, as accepted or as rejected. -/
theorem flush_counts (session : Session α) :
    session.flush.result.1.1 + session.flush.result.1.2 = session.pending.length := by
  have split := List.length_eq_countP_add_countP Answer.isRefusal
    (l := (session.forest.run (session.pending.map .record)).1)
  rw [Forest.length_fst_run, List.length_map] at split
  rw [result_flush]
  simpa [Nat.add_comm] using split.symm

theorem sound_flush {session : Session α} (sound : session.forest.Sound) :
    session.flush.result.2.forest.Sound := by
  rw [result_flush]
  exact sound.run _

omit [Scalar α] in
theorem result_reset (session : Session α) :
    session.reset.result =
      { session with
        forest := session.forest.reset.result, pending := [], placementsOutdated := true } := rfl

/-- The forest is the same, or it was told of a jump. -/
inductive Jumped (forest : Forest α) : Forest α → Prop
  | stays : Jumped forest forest
  | jumps (previous : Stamp) : Jumped forest (forest.jump previous).result

theorem Jumped.sound_and_bare {forest next : Forest α} (jumped : Jumped forest next)
    (sound : forest.Sound) : next.Sound ∧ next.bare = forest.bare := by
  cases jumped with
  | stays => exact ⟨sound, rfl⟩
  | jumps previous =>
      have quiet : (Call.jump (α := α) previous).isQuiet = true := rfl
      exact ⟨sound.perform (.jump previous), Forest.bare_perform_of_isQuiet sound quiet⟩

omit [Scalar α] in
/-- A session whose clock is set is reset, or it stays but for the clock and a jump. -/
theorem setTime_cases (session : Session α) (time : Stamp) (isSeek : Bool) :
    ∃ forest, Jumped session.forest forest ∧
      ((session.setTime time isSeek).result = (false, { session with now := some time, forest }) ∨
        (session.setTime time isSeek).result =
          (true, { session with now := some time, forest }.reset.result)) := by
  cases isSeek with
  | false => exact ⟨session.forest, .stays, .inl rfl⟩
  | true =>
      refine ⟨(session.forest.jump (session.now.getD time)).result, .jumps _, ?_⟩
      unfold setTime
      simp only [if_true, Journaled.result_bind]
      -- whether a history holds samples, and whether the seek lands before all of them
      split
      · split
        · exact .inr rfl
        · exact .inl rfl
      · exact .inl rfl

variable [DiagnosisSink σ]

/-- What a tick makes of the placements that it is given. -/
def ticked (session : Session α) (placements : List (Placement α))
    (renderFrame fixedFrame : String) : List (Placement α) :=
  placements.map fun placement =>
    placement.ticked session.placementsOutdated session.flush.result.2.forest renderFrame fixedFrame
      (session.now.getD 0)

/-- What is asked of the forest in a tick. -/
def tickAsks (session : Session α) (placements : List (Placement α))
    (renderFrame fixedFrame : String) : List (Call α) :=
  asks placements renderFrame fixedFrame (session.now.getD 0)

/-- What the sink is told in a tick. -/
def tickNotices (session : Session α) (placements : List (Placement α))
    (renderFrame fixedFrame : String) : List SinkCall :=
  notices placements session.flush.result.2.forest renderFrame fixedFrame (session.now.getD 0)

/-- What a tick reports of the arrivals that it took up and of the placements. -/
def tickReport (session : Session α) (placements : List (Placement α))
    (renderFrame fixedFrame : String) : TickReport where
  ingested := session.flush.result.1.1
  rejected := session.flush.result.1.2
  resolved := (session.ticked placements renderFrame fixedFrame).countP fun placement =>
    placement.state = .resolved
  failed := (session.ticked placements renderFrame fixedFrame).countP fun placement =>
    placement.state = .unresolved ∨ placement.state = .stale

/-- A tick flushes and then settles every placement by the samples that are there from then on. -/
theorem result_tick_eq {session : Session α} (sound : session.forest.Sound)
    (placements : List (Placement α)) (renderFrame fixedFrame : String) (sink : σ) :
    (session.tick placements renderFrame fixedFrame sink).result =
        (session.tickReport placements renderFrame fixedFrame,
          session.ticked placements renderFrame fixedFrame,
          { session.flush.result.2 with
            forest := (session.flush.result.2.forest.run
              (session.tickAsks placements renderFrame fixedFrame)).2
            placementsOutdated := false },
          (session.tickNotices placements renderFrame fixedFrame).foldl SinkCall.send sink) ∧
      (session.flush.result.2.forest.run
        (session.tickAsks placements renderFrame fixedFrame)).2.bare =
          session.flush.result.2.forest.bare := by
  have taken : (if session.placementsOutdated then placements.map Placement.reset else placements) =
      placements.map (Placement.renew · session.placementsOutdated) := by
    cases session.placementsOutdated with
    | false => exact (List.map_id placements).symm
    | true => rfl
  have now : session.flush.result.2.now = session.now := by rw [result_flush]
  have outdated : session.flush.result.2.placementsOutdated = session.placementsOutdated := by
    rw [result_flush]
  obtain ⟨updated, kept⟩ := updateAll_eq (sound_flush sound) renderFrame
    fixedFrame (session.now.getD 0) sink
    (placements.map (Placement.renew · session.placementsOutdated))
  have settled : (session.ticked placements renderFrame fixedFrame) =
      (placements.map (Placement.renew · session.placementsOutdated)).map (fun placement =>
        placement.settle (placement.resolveIn session.flush.result.2.forest renderFrame fixedFrame
          (session.now.getD 0))) := by
    simp [ticked, Placement.ticked]
  have asked : asks (placements.map (Placement.renew · session.placementsOutdated)) renderFrame
      fixedFrame (session.now.getD 0) = session.tickAsks placements renderFrame fixedFrame := by
    simp [tickAsks, asks]
  have noticed : notices (placements.map (Placement.renew · session.placementsOutdated))
      session.flush.result.2.forest renderFrame fixedFrame (session.now.getD 0) =
        session.tickNotices placements renderFrame fixedFrame := by
    simp [tickNotices, notices]
  rw [asked] at updated kept
  rw [noticed] at updated
  refine ⟨?_, kept⟩
  unfold tick
  rw [Journaled.result_bind, Journaled.result_pure]
  dsimp only
  rw [now, outdated, taken, updated, tickReport, settled]

theorem result_tick {session : Session α} (sound : session.forest.Sound)
    (placements : List (Placement α)) (renderFrame fixedFrame : String) (sink : σ) :
    ∃ forest told, (session.tick placements renderFrame fixedFrame sink).result =
        (session.tickReport placements renderFrame fixedFrame,
          session.ticked placements renderFrame fixedFrame,
          { session.flush.result.2 with forest, placementsOutdated := false }, told) ∧
      forest.bare = session.flush.result.2.forest.bare ∧ forest.Sound := by
  obtain ⟨ticked, kept⟩ := result_tick_eq sound placements renderFrame fixedFrame sink
  exact ⟨_, _, ticked, kept, (sound_flush sound).run _⟩

theorem sound_perform {session : Session α} (sound : session.forest.Sound)
    (call : SessionCall α σ) : (call.perform session).2.forest.Sound := by
  cases call with
  | enqueue arrival => exact sound
  | flush => exact sound_flush sound
  | setTime time isSeek =>
      obtain ⟨forest, jumped, told⟩ := session.setTime_cases time isSeek
      have moved := (jumped.sound_and_bare sound).1
      rw [SessionCall.perform]
      rcases told with kept | cleared
      · rw [kept]
        exact moved
      · rw [cleared]
        exact Forest.Sound.perform moved .reset
  | reset => exact Forest.Sound.perform sound .reset
  | tick placements renderFrame fixedFrame sink =>
      obtain ⟨forest, told, ticked, _, forestSound⟩ :=
        result_tick sound placements renderFrame fixedFrame sink
      rw [SessionCall.perform, ticked]
      exact forestSound
  | ask call quiet => exact Forest.Sound.perform sound call

/-- A clearing makes the placements outdated until the next tick. -/
theorem placementsOutdated_perform (session : Session α) (call : SessionCall α σ) :
    (call.perform session).2.placementsOutdated =
      ((call.event session).clears || (!call.ticks && session.placementsOutdated)) := by
  cases call with
  | enqueue arrival => rfl
  | flush =>
      rw [SessionCall.perform, result_flush]
      rfl
  | setTime time isSeek =>
      obtain ⟨forest, _, kept | cleared⟩ := session.setTime_cases time isSeek
      · rw [SessionCall.event, SessionCall.perform, kept]
        rfl
      · rw [SessionCall.event, SessionCall.perform, cleared]
        rfl
  | reset => rfl
  | tick placements renderFrame fixedFrame sink => rfl
  | ask call quiet => rfl

/-- The events of several calls, and the session that they leave. -/
def run (session : Session α) : List (SessionCall α σ) → List (SessionEvent α σ) × Session α
  | [] => ([], session)
  | call :: rest =>
    (call.event session :: ((call.perform session).2.run rest).1,
      ((call.perform session).2.run rest).2)

theorem run_concat (session : Session α) (calls : List (SessionCall α σ))
    (call : SessionCall α σ) :
    session.run (calls ++ [call]) =
      ((session.run calls).1 ++ [call.event (session.run calls).2],
        (call.perform (session.run calls).2).2) := by
  induction calls generalizing session with
  | nil => rfl
  | cons first rest ih =>
      rw [List.cons_append, run, ih]
      rfl

end Session

end FrameForest
