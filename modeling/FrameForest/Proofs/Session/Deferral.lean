import FrameForest.Proofs.Session.Calls
import Mathlib.Data.List.DropRight

/-!
# Sessions defer the recording of arrivals

The forest of a session is the one that the arrivals would have made if each had
been recorded when it came: those since the last clearing that a flush or a tick
has taken up.  The others still wait.  How many flushes and ticks it took, and
which of the arrivals each took up, does not show.
-/

namespace FrameForest

variable {α σ : Type}

namespace SessionEvent

/-- The waiting arrivals were taken up. -/
def absorbs : SessionEvent α σ → Bool
  | ⟨.flush, _⟩ | ⟨.tick _ _ _ _, _⟩ => true
  | _ => false

def arrival? : SessionEvent α σ → Option (Arrival α)
  | ⟨.enqueue arrival, _⟩ => some arrival
  | _ => none

/-- What happened after the last clearing. -/
def sinceClearing (events : List (SessionEvent α σ)) : List (SessionEvent α σ) :=
  events.rtakeWhile (! ·.clears)

/-- The arrivals up to the last flush or tick since the last clearing. -/
def absorbed (events : List (SessionEvent α σ)) : List (Arrival α) :=
  ((sinceClearing events).rdropWhile (! ·.absorbs)).filterMap arrival?

/-- The arrivals since the last flush, tick or clearing. -/
def waiting (events : List (SessionEvent α σ)) : List (Arrival α) :=
  ((sinceClearing events).rtakeWhile (! ·.absorbs)).filterMap arrival?

variable (events : List (SessionEvent α σ)) {event : SessionEvent α σ}

theorem absorbed_concat_of_clears (clears : event.clears = true) :
    absorbed (events ++ [event]) = [] := by
  rw [absorbed, sinceClearing, List.rtakeWhile_concat_neg _ _ _ (by simp [clears])]
  rfl

theorem waiting_concat_of_clears (clears : event.clears = true) :
    waiting (events ++ [event]) = [] := by
  rw [waiting, sinceClearing, List.rtakeWhile_concat_neg _ _ _ (by simp [clears])]
  rfl

theorem sinceClearing_concat (stays : event.clears = false) :
    sinceClearing (events ++ [event]) = sinceClearing events ++ [event] :=
  List.rtakeWhile_concat_pos _ _ _ (by simp [stays])

/-- No arrival since the last clearing is lost. -/
theorem absorbed_append_waiting :
    absorbed events ++ waiting events = (sinceClearing events).filterMap arrival? := by
  rw [absorbed, waiting, ← List.filterMap_append, List.rdropWhile_append_rtakeWhile]

theorem absorbed_concat_of_absorbs (stays : event.clears = false)
    (absorbs : event.absorbs = true) (none : event.arrival? = none) :
    absorbed (events ++ [event]) = absorbed events ++ waiting events := by
  rw [absorbed, sinceClearing_concat events stays,
    List.rdropWhile_concat_neg _ _ _ (by simp [absorbs]), List.filterMap_append,
    absorbed_append_waiting]
  simp [none]

theorem waiting_concat_of_absorbs (stays : event.clears = false)
    (absorbs : event.absorbs = true) : waiting (events ++ [event]) = [] := by
  rw [waiting, sinceClearing_concat events stays,
    List.rtakeWhile_concat_neg _ _ _ (by simp [absorbs])]
  rfl

theorem absorbed_concat (stays : event.clears = false) (defers : event.absorbs = false) :
    absorbed (events ++ [event]) = absorbed events := by
  rw [absorbed, sinceClearing_concat events stays,
    List.rdropWhile_concat_pos _ _ _ (by simp [defers])]
  rfl

theorem waiting_concat (stays : event.clears = false) (defers : event.absorbs = false) :
    waiting (events ++ [event]) = waiting events ++ event.arrival?.toList := by
  rw [waiting, sinceClearing_concat events stays,
    List.rtakeWhile_concat_pos _ _ _ (by simp [defers]), List.filterMap_append]
  cases told : event.arrival? <;> simp [waiting, told]

theorem waiting_concat_of_none (stays : event.clears = false) (defers : event.absorbs = false)
    (none : event.arrival? = none) : waiting (events ++ [event]) = waiting events := by
  rw [waiting_concat events stays defers, none]
  exact List.append_nil _

end SessionEvent

variable [Scalar α]

/-- The forest that arrivals make when each is recorded at once. -/
def Forest.recorded (settings : Settings) (arrivals : List (Arrival α)) : Forest α :=
  Forest.after settings (arrivals.map .record)

theorem Forest.recorded_append (settings : Settings) (first second : List (Arrival α)) :
    Forest.recorded settings (first ++ second) =
      ((Forest.recorded settings first).run (second.map .record)).2 := by
  unfold recorded after
  rw [List.map_append, run_append]

namespace Session

/-- The arrivals that were taken up are in the forest and the others wait. -/
structure Holds (session : Session α) (settings : Settings) (absorbed waiting : List (Arrival α)) :
    Prop where
  pending : session.pending = waiting
  sound : session.forest.Sound
  bare : session.forest.bare = (Forest.recorded settings absorbed).bare

namespace Holds

variable {session : Session α} {settings : Settings} {absorbed waiting : List (Arrival α)}

theorem empty (settings : Settings) : (Session.empty (α := α) settings).Holds settings [] [] where
  pending := rfl
  sound := .empty settings
  bare := rfl

theorem run_eq (holds : session.Holds settings absorbed waiting) (calls : List (Call α)) :
    (session.forest.run calls).1 = ((Forest.recorded settings absorbed).run calls).1 ∧
      (session.forest.run calls).2.bare = ((Forest.recorded settings absorbed).run calls).2.bare :=
  Forest.run_of_bare_eq holds.bare holds.sound (Forest.sound_after _ _) calls

/-- A flush takes up all that waits. -/
theorem flush (holds : session.Holds settings absorbed waiting) :
    session.flush.result.2.Holds settings (absorbed ++ waiting) [] where
  pending := by rw [result_flush]
  sound := sound_flush holds.sound
  bare := by
    rw [result_flush, Forest.recorded_append, holds.pending]
    exact (holds.run_eq _).2

/-- Neither hints nor memo nor the clock have a part in it. -/
theorem of_bare_eq (holds : session.Holds settings absorbed waiting) {next : Session α}
    (pending : next.pending = session.pending) (sound : next.forest.Sound)
    (bare : next.forest.bare = session.forest.bare) : next.Holds settings absorbed waiting :=
  ⟨pending.trans holds.pending, sound, bare.trans holds.bare⟩

theorem reset (holds : session.Holds settings absorbed waiting) :
    session.reset.result.Holds settings [] [] where
  pending := rfl
  sound := holds.sound.perform .reset
  bare := by
    have settings := Forest.bare_settings_run (Forest.Sound.empty settings)
      (absorbed.map (Call.record (α := α)))
    rw [result_reset, Forest.result_reset]
    refine Forest.bare_eq_iff.2 ⟨?_, rfl, rfl⟩
    exact (congrArg Forest.settings holds.bare).trans settings

variable [DiagnosisSink σ]

theorem perform {events : List (SessionEvent α σ)}
    (holds : session.Holds settings (SessionEvent.absorbed events) (SessionEvent.waiting events))
    (call : SessionCall α σ) :
    (call.perform session).2.Holds settings
      (SessionEvent.absorbed (events ++ [call.event session]))
      (SessionEvent.waiting (events ++ [call.event session])) := by
  -- flush and tick take up what waits, a reset or a seek that clears forgets it
  cases call with
  | enqueue arrival =>
      rw [SessionEvent.absorbed_concat _ rfl rfl, SessionEvent.waiting_concat _ rfl rfl]
      exact ⟨congrArg (· ++ [arrival]) holds.pending, holds.sound, holds.bare⟩
  | flush =>
      rw [SessionEvent.absorbed_concat_of_absorbs _ rfl rfl rfl,
        SessionEvent.waiting_concat_of_absorbs _ rfl rfl]
      exact holds.flush
  | setTime time isSeek =>
      obtain ⟨forest, jumped, told⟩ := session.setTime_cases time isSeek
      obtain ⟨sound, bare⟩ := jumped.sound_and_bare holds.sound
      have moved : ({ session with now := some time, forest } : Session α).Holds settings
          (SessionEvent.absorbed events) (SessionEvent.waiting events) :=
        holds.of_bare_eq rfl sound bare
      rw [SessionCall.event, SessionCall.perform]
      rcases told with kept | cleared
      · rw [kept, SessionEvent.absorbed_concat _ rfl rfl,
          SessionEvent.waiting_concat_of_none _ rfl rfl rfl]
        exact moved
      · rw [cleared, SessionEvent.absorbed_concat_of_clears _ rfl,
          SessionEvent.waiting_concat_of_clears _ rfl]
        exact moved.reset
  | reset =>
      rw [SessionEvent.absorbed_concat_of_clears _ rfl, SessionEvent.waiting_concat_of_clears _ rfl]
      exact holds.reset
  | tick placements renderFrame fixedFrame sink =>
      rw [SessionEvent.absorbed_concat_of_absorbs _ rfl rfl rfl,
        SessionEvent.waiting_concat_of_absorbs _ rfl rfl]
      obtain ⟨forest, told, ticked, kept, sound⟩ :=
        result_tick holds.sound placements renderFrame fixedFrame sink
      rw [SessionCall.perform, ticked]
      exact holds.flush.of_bare_eq rfl sound kept
  | ask call quiet =>
      have asked : (call.perform session.forest).2.bare = session.forest.bare :=
        Forest.bare_perform_of_isQuiet holds.sound quiet
      rw [SessionEvent.absorbed_concat _ rfl rfl,
        SessionEvent.waiting_concat_of_none _ rfl rfl rfl]
      exact holds.of_bare_eq rfl (holds.sound.perform call) asked

theorem run (settings : Settings) (calls : List (SessionCall α σ)) :
    ((Session.empty settings).run calls).2.Holds settings
      (SessionEvent.absorbed ((Session.empty settings).run calls).1)
      (SessionEvent.waiting ((Session.empty settings).run calls).1) := by
  induction calls using List.reverseRecOn with
  | nil => exact .empty settings
  | append_singleton calls call ih =>
      rw [run_concat]
      exact ih.perform call

end Holds

/-- What a session does is told by the arrivals that it has absorbed and those that wait. -/
structure Defers (σ : Type) [DiagnosisSink σ] (session : Session α) (settings : Settings)
    (absorbed waiting : List (Arrival α)) : Prop where
  pending : session.pending = waiting
  /-- All of the forest but its hints and its memo. -/
  forest : session.forest.bare = (Forest.recorded settings absorbed).bare
  answers : ∀ calls : List (Call α),
    (session.forest.run calls).1 = ((Forest.recorded settings absorbed).run calls).1
  flushCounts : session.flush.result.1.1 + session.flush.result.1.2 = waiting.length
  flushRejects : session.flush.result.1.2 =
    ((Forest.recorded settings absorbed).run (waiting.map .record)).1.countP Answer.isRefusal
  tickCounts : ∀ placements renderFrame fixedFrame (sink : σ),
    let report := (session.tick placements renderFrame fixedFrame sink).result.1
    (report.ingested, report.rejected) = session.flush.result.1 ∧
      report.resolved + report.failed = placements.length ∧
      report.resolved = placements.countP fun placement =>
        (placement.resolveIn (Forest.recorded settings (absorbed ++ waiting)) renderFrame fixedFrame
          (session.now.getD 0)).isOk
  /-- All placements of a tick are resolved by the samples that waited and those before. -/
  tickPlacements : ∀ placements renderFrame fixedFrame (sink : σ),
    (session.tick placements renderFrame fixedFrame sink).result.2.1 =
      placements.map fun placement =>
        placement.ticked session.placementsOutdated
          (Forest.recorded settings (absorbed ++ waiting)) renderFrame fixedFrame
          (session.now.getD 0)

namespace Holds

variable {session : Session α} {settings : Settings} {absorbed waiting : List (Arrival α)}

theorem ticked_eq (holds : session.Holds settings absorbed waiting)
    (placements : List (Placement α)) (renderFrame fixedFrame : String) :
    session.ticked placements renderFrame fixedFrame = placements.map fun placement =>
      placement.ticked session.placementsOutdated
        (Forest.recorded settings (absorbed ++ waiting)) renderFrame fixedFrame
        (session.now.getD 0) := by
  apply List.map_congr_left
  intro placement _
  unfold Placement.ticked
  rw [Placement.resolveIn_of_bare_eq holds.flush.bare (Forest.sound_after _ _) holds.flush.sound]

theorem countP_ticked (holds : session.Holds settings absorbed waiting)
    (placements : List (Placement α)) (renderFrame fixedFrame : String) :
    (session.ticked placements renderFrame fixedFrame).countP (·.state = .resolved) =
      placements.countP fun placement =>
        (placement.resolveIn (Forest.recorded settings (absorbed ++ waiting)) renderFrame fixedFrame
          (session.now.getD 0)).isOk := by
  rw [holds.ticked_eq, List.countP_map]
  apply List.countP_congr
  intro placement _
  exact decide_eq_true_iff.trans (Placement.state_settle_eq_resolved_iff _)

variable [DiagnosisSink σ]

theorem defers (holds : session.Holds settings absorbed waiting) :
    session.Defers σ settings absorbed waiting where
  pending := holds.pending
  forest := holds.bare
  answers := fun calls => (holds.run_eq calls).1
  flushCounts := by
    rw [flush_counts, holds.pending]
  flushRejects := by
    rw [result_flush, holds.pending]
    exact congrArg (List.countP Answer.isRefusal) (holds.run_eq _).1
  tickCounts := by
    intro placements renderFrame fixedFrame sink
    obtain ⟨forest, told, ticked, _⟩ :=
      result_tick holds.sound placements renderFrame fixedFrame sink
    have every : (session.ticked placements renderFrame fixedFrame).length = placements.length :=
      List.length_map _
    rw [ticked]
    refine ⟨rfl, ?_, holds.countP_ticked placements renderFrame fixedFrame⟩
    exact (Placement.countP_resolved_add_countP_failed _).trans every
  tickPlacements := by
    intro placements renderFrame fixedFrame sink
    obtain ⟨forest, told, ticked, _⟩ :=
      result_tick holds.sound placements renderFrame fixedFrame sink
    rw [ticked]
    exact holds.ticked_eq placements renderFrame fixedFrame

end Holds

variable [DiagnosisSink σ]

/-- At every point of a run the session is what it would be if the arrivals since the last clearing
had been recorded as they came, up to the last flush or tick.  Two runs that have absorbed the same
arrivals, however they flushed, answer alike. -/
theorem defers_run (settings : Settings) (calls : List (SessionCall α σ)) :
    ((Session.empty settings).run calls).2.Defers σ settings
        (SessionEvent.absorbed ((Session.empty settings).run calls).1)
        (SessionEvent.waiting ((Session.empty settings).run calls).1) ∧
      ∀ others : List (SessionCall α σ),
        SessionEvent.absorbed ((Session.empty settings).run others).1 =
          SessionEvent.absorbed ((Session.empty settings).run calls).1 →
        ((Session.empty settings).run others).2.forest.bare =
            ((Session.empty settings).run calls).2.forest.bare ∧
          ∀ questions : List (Call α),
            (((Session.empty settings).run others).2.forest.run questions).1 =
              (((Session.empty settings).run calls).2.forest.run questions).1 := by
  have holds := Holds.run settings calls
  refine ⟨holds.defers, fun others same => ?_⟩
  have other := Holds.run settings others
  rw [same] at other
  refine ⟨other.bare.trans holds.bare.symm, fun questions => ?_⟩
  exact (other.run_eq questions).1.trans (holds.run_eq questions).1.symm

end Session

end FrameForest
