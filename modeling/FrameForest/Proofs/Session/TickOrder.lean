import FrameForest.Proofs.Diagnosis.Boards
import FrameForest.Proofs.Forest.Twins
import FrameForest.Proofs.Session.Calls

/-!
# The order of placements in a tick

All placements of a tick are settled by the same samples, and each tells the sink
of its own path.  So it does not matter in which order they come: placements,
report and board are the same, and the session answers every later call the same.
Only which lookups it remembers may differ, and with it how many of the lookups
to come need not be computed.
-/

namespace FrameForest

variable {α σ : Type}

namespace Session

/-- What a clock that is set leaves, with the forest told of the jump if it is a seek. -/
def moved (session : Session α) (time : Stamp) (isSeek : Bool) : Session α :=
  { session with
    now := some time
    forest :=
      if isSeek then (session.forest.jump (session.now.getD time)).result else session.forest }

/-- A seek clears the session if it lands before the earliest sample. -/
theorem result_setTime (session : Session α) (time : Stamp) (isSeek : Bool) :
    (session.setTime time isSeek).result =
      if isSeek ∧ ∃ earliest ∈ (session.moved time isSeek).forest.edges.earliestTimed?,
          time < earliest then
        (true, (session.moved time isSeek).reset.result)
      else (false, session.moved time isSeek) := by
  cases isSeek with
  | false => rfl
  | true =>
      have jumped : (session.moved time true).forest =
          (session.forest.jump (session.now.getD time)).result := rfl
      unfold setTime
      rw [if_pos rfl, Journaled.result_bind, jumped]
      dsimp only
      cases (session.forest.jump (session.now.getD time)).result.edges.earliestTimed? with
      | none =>
          rw [if_neg (by simp)]
          rfl
      | some earliest =>
          dsimp only
          by_cases early : time < earliest
          · rw [if_pos early, if_pos ⟨rfl, earliest, rfl, early⟩]
            rfl
          · rw [if_neg early, if_neg (by simpa using early)]
            rfl

variable [Scalar α]

/-- Calls can make the forest of the session. -/
def Reached (session : Session α) : Prop :=
  ∃ settings calls, session.forest = Forest.after settings calls

theorem Reached.of_run {session next : Session α} (reached : session.Reached)
    {calls : List (Call α)} (forest : next.forest = (session.forest.run calls).2) :
    next.Reached := by
  obtain ⟨settings, earlier, made⟩ := reached
  refine ⟨settings, earlier ++ calls, ?_⟩
  rw [forest, made, Forest.after, Forest.after, Forest.run_append]

theorem Reached.sound {session : Session α} (reached : session.Reached) :
    session.forest.Sound := by
  obtain ⟨settings, calls, made⟩ := reached
  rw [made]
  exact Forest.sound_after settings calls

theorem Reached.flush {session : Session α} (reached : session.Reached) :
    session.flush.result.2.Reached := by
  apply reached.of_run
  rw [result_flush]

theorem Reached.moved {session : Session α} (reached : session.Reached) (time : Stamp)
    (isSeek : Bool) : (session.moved time isSeek).Reached := by
  cases isSeek with
  | false => exact reached
  | true =>
      have jumped : (session.moved time true).forest =
          (session.forest.run [.jump (session.now.getD time)]).2 := rfl
      exact reached.of_run jumped

theorem Reached.reset {session : Session α} (reached : session.Reached) :
    session.reset.result.Reached := by
  have cleared : session.reset.result.forest = (session.forest.run [.reset]).2 := by
    rw [result_reset]
    rfl
  exact reached.of_run cleared

theorem Reached.setTime {session : Session α} (reached : session.Reached) (time : Stamp)
    (isSeek : Bool) : (session.setTime time isSeek).result.2.Reached := by
  rw [result_setTime]
  split
  · exact (reached.moved time isSeek).reset
  · exact reached.moved time isSeek

theorem reached_empty (settings : Settings) : (Session.empty (α := α) settings).Reached :=
  ⟨settings, [], rfl⟩

section Runs

variable [DiagnosisSink σ]

theorem Reached.tick {session : Session α} (reached : session.Reached)
    (placements : List (Placement α)) (renderFrame fixedFrame : String) (sink : σ) :
    (session.tick placements renderFrame fixedFrame sink).result.2.2.1.Reached := by
  rw [(result_tick_eq reached.sound placements renderFrame fixedFrame sink).1]
  exact reached.flush.of_run rfl

theorem Reached.perform {session : Session α} (reached : session.Reached)
    (call : SessionCall α σ) : (call.perform session).2.Reached := by
  cases call with
  | enqueue arrival => exact reached
  | flush => exact reached.flush
  | setTime time isSeek => exact reached.setTime time isSeek
  | reset => exact reached.reset
  | tick placements renderFrame fixedFrame sink =>
      exact reached.tick placements renderFrame fixedFrame sink
  | ask call quiet =>
      have asked : ((SessionCall.ask (σ := σ) call quiet).perform session).2.forest =
          (session.forest.run [call]).2 := rfl
      exact reached.of_run asked

/-- Whatever a session does, its forest is one that calls can make. -/
theorem reached_run (settings : Settings) (calls : List (SessionCall α σ)) :
    ((Session.empty settings).run calls).2.Reached := by
  induction calls using List.reverseRecOn with
  | nil => exact reached_empty settings
  | append_singleton earlier call ih =>
      rw [run_concat]
      exact ih.perform call

end Runs

/-! ## Sessions that answer the same -/

/-- Sessions that differ in the hints and in which lookups are remembered. -/
structure Twin (left right : Session α) : Prop where
  forest : left.forest.Twin right.forest
  pending : left.pending = right.pending
  now : left.now = right.now
  advertisements : left.advertisements = right.advertisements
  placementsOutdated : left.placementsOutdated = right.placementsOutdated

theorem twin_of_forest (session : Session α) {left right : Forest α} (twin : left.Twin right)
    (outdated : Bool) :
    ({ session with forest := left, placementsOutdated := outdated } : Session α).Twin
      { session with forest := right, placementsOutdated := outdated } :=
  ⟨twin, rfl, rfl, rfl, rfl⟩

namespace Twin

variable {left right : Session α}

theorem flush (twin : left.Twin right) :
    left.flush.result.1 = right.flush.result.1 ∧
      left.flush.result.2.Twin right.flush.result.2 := by
  obtain ⟨answers, forest⟩ := twin.forest.run (right.pending.map .record)
  rw [result_flush, result_flush, twin.pending, answers]
  exact ⟨rfl, forest, rfl, twin.now, twin.advertisements, twin.placementsOutdated⟩

theorem moved (twin : left.Twin right) (time : Stamp) (isSeek : Bool) :
    (left.moved time isSeek).Twin (right.moved time isSeek) where
  forest := by
    unfold Session.moved
    rw [twin.now]
    cases isSeek with
    | false => exact twin.forest
    | true => exact (twin.forest.perform (.jump (right.now.getD time))).2
  pending := twin.pending
  now := rfl
  advertisements := twin.advertisements
  placementsOutdated := twin.placementsOutdated

theorem reset (twin : left.Twin right) : left.reset.result.Twin right.reset.result where
  forest := (twin.forest.perform .reset).2
  pending := rfl
  now := twin.now
  advertisements := twin.advertisements
  placementsOutdated := rfl

theorem earliestTimed?_eq (twin : left.Twin right) :
    left.forest.edges.earliestTimed? = right.forest.edges.earliestTimed? :=
  (Forest.alike_of_bare_eq twin.forest.bare.symm).edges.earliestTimed?_eq

theorem resolveIn_eq (twin : left.Twin right) (placement : Placement α) :
    placement.resolveIn left.forest = placement.resolveIn right.forest :=
  Placement.resolveIn_of_bare_eq twin.forest.bare twin.forest.rightSound twin.forest.leftSound

variable [DiagnosisSink σ]

theorem tick (twin : left.Twin right) (placements : List (Placement α))
    (renderFrame fixedFrame : String) (sink : σ) :
    ((SessionCall.tick placements renderFrame fixedFrame sink).perform left).1 =
        ((SessionCall.tick placements renderFrame fixedFrame sink).perform right).1 ∧
      ((SessionCall.tick placements renderFrame fixedFrame sink).perform left).2.Twin
        ((SessionCall.tick placements renderFrame fixedFrame sink).perform right).2 := by
  obtain ⟨counts, flushed⟩ := twin.flush
  have ticked : left.ticked placements renderFrame fixedFrame =
      right.ticked placements renderFrame fixedFrame := by
    unfold ticked Placement.ticked
    simp only [flushed.resolveIn_eq, twin.placementsOutdated, twin.now]
  have reported : left.tickReport placements renderFrame fixedFrame =
      right.tickReport placements renderFrame fixedFrame := by
    rw [tickReport, counts, ticked, tickReport]
  have noticed : left.tickNotices placements renderFrame fixedFrame =
      right.tickNotices placements renderFrame fixedFrame := by
    unfold tickNotices notices
    simp only [flushed.resolveIn_eq, twin.now]
  have asked : left.tickAsks placements renderFrame fixedFrame =
      right.tickAsks placements renderFrame fixedFrame := by
    rw [tickAsks, twin.now, tickAsks]
  have leftTick := (result_tick_eq twin.forest.leftSound placements renderFrame fixedFrame sink).1
  have rightTick := (result_tick_eq twin.forest.rightSound placements renderFrame fixedFrame sink).1
  rw [reported, ticked, noticed, asked] at leftTick
  rw [SessionCall.perform, SessionCall.perform, leftTick, rightTick]
  refine ⟨rfl, ?_, ?_, ?_, ?_, rfl⟩
  · exact (flushed.forest.run _).2
  · exact flushed.pending
  · exact flushed.now
  · exact flushed.advertisements

theorem perform (twin : left.Twin right) (call : SessionCall α σ) :
    (call.perform left).1 = (call.perform right).1 ∧
      (call.perform left).2.Twin (call.perform right).2 := by
  cases call with
  | enqueue arrival =>
      exact ⟨rfl, twin.forest, congrArg (· ++ [arrival]) twin.pending, twin.now,
        twin.advertisements, twin.placementsOutdated⟩
  | flush =>
      obtain ⟨counts, flushed⟩ := twin.flush
      rw [SessionCall.perform, SessionCall.perform, counts]
      exact ⟨rfl, flushed⟩
  | setTime time isSeek =>
      have moved := twin.moved time isSeek
      rw [SessionCall.perform, SessionCall.perform, result_setTime, result_setTime,
        moved.earliestTimed?_eq]
      split
      · exact ⟨rfl, moved.reset⟩
      · exact ⟨rfl, moved⟩
  | reset => exact ⟨rfl, twin.reset⟩
  | tick placements renderFrame fixedFrame sink =>
      exact twin.tick placements renderFrame fixedFrame sink
  | ask call quiet =>
      obtain ⟨answer, forest⟩ := twin.forest.perform call
      exact ⟨congrArg SessionAnswer.told answer, forest, twin.pending, twin.now,
        twin.advertisements, twin.placementsOutdated⟩

theorem run (twin : left.Twin right) (calls : List (SessionCall α σ)) :
    (left.run calls).1 = (right.run calls).1 ∧ (left.run calls).2.Twin (right.run calls).2 := by
  induction calls generalizing left right with
  | nil => exact ⟨rfl, twin⟩
  | cons call rest ih =>
      obtain ⟨told, next⟩ := twin.perform call
      obtain ⟨events, last⟩ := ih next
      refine ⟨List.cons_eq_cons.2 ⟨?_, events⟩, last⟩
      rw [SessionCall.event, told, SessionCall.event]

end Twin

/-- Sessions that answer every question the same, but for which lookups they remember. -/
structure AnswersAlike (left right : Session α) : Prop where
  pending : left.pending = right.pending
  now : left.now = right.now
  advertisements : left.advertisements = right.advertisements
  placementsOutdated : left.placementsOutdated = right.placementsOutdated
  /-- All of the forest but its hints and its memo. -/
  forest : left.forest.bare = right.forest.bare
  answers : ∀ calls : List (Call α), (left.forest.run calls).1 = (right.forest.run calls).1
  sampleCount : ∀ child, left.forest.sampleCount child = right.forest.sampleCount child
  earliestTimed? : left.forest.edges.earliestTimed? = right.forest.edges.earliestTimed?
  /-- As much is remembered. -/
  remembered : left.forest.memo.entries.size = right.forest.memo.entries.size
  /-- As many lookups were asked of the memo. -/
  asked : left.forest.memo.hits + left.forest.memo.misses =
    right.forest.memo.hits + right.forest.memo.misses

theorem Twin.answersAlike {left right : Session α} (twin : left.Twin right) :
    left.AnswersAlike right where
  pending := twin.pending
  now := twin.now
  advertisements := twin.advertisements
  placementsOutdated := twin.placementsOutdated
  forest := twin.forest.bare
  answers := fun calls => (twin.forest.run calls).1
  sampleCount := (Forest.alike_of_bare_eq twin.forest.bare.symm).sampleCount_eq
  earliestTimed? := twin.earliestTimed?_eq
  remembered := twin.forest.size_eq
  asked := twin.forest.counted_eq

/-! ## A tick in another order -/

/-- Two ticks do the same to each of their placements and leave the same on the board, and the
sessions that they leave answer all later calls the same. -/
structure SameTick (placements others : List (Placement α))
    (left right : TickReport × List (Placement α) × Session α × Board) : Prop where
  report : left.1 = right.1
  /-- What becomes of a placement depends on no other. -/
  placements : ∃ settle : Placement α → Placement α,
    left.2.1 = placements.map settle ∧ right.2.1 = others.map settle
  board : left.2.2.2.Alike right.2.2.2
  listing : left.2.2.2.listing = right.2.2.2.listing
  later : ∀ {σ : Type} [DiagnosisSink σ] (calls : List (SessionCall α σ)),
    (left.2.2.1.run calls).1 = (right.2.2.1.run calls).1 ∧
      (left.2.2.1.run calls).2.AnswersAlike (right.2.2.1.run calls).2

theorem Reached.twin_of_perm {session : Session α} (reached : session.Reached)
    (renderFrame fixedFrame : String) {placements others : List (Placement α)}
    (perm : placements.Perm others) :
    (session.flush.result.2.forest.run (session.tickAsks placements renderFrame fixedFrame)).2.Twin
      (session.flush.result.2.forest.run (session.tickAsks others renderFrame fixedFrame)).2 := by
  obtain ⟨settings, calls, made⟩ := reached.flush
  have reflects := Forest.reflects_after settings calls
  rw [← made] at reflects
  apply Forest.twin_run_of_perm reached.flush.sound reflects ?asks (perm.map _)
  case asks =>
    intro call member
    obtain ⟨placement, _, rfl⟩ := List.mem_map.1 member
    rfl

/-- The order of placements with different paths does not matter to a tick, nor to what comes
after it. -/
theorem tick_order_irrelevant {session : Session α} (reached : session.Reached) (board : Board)
    (renderFrame fixedFrame : String) {placements others : List (Placement α)}
    (distinct : (placements.map Placement.path).Nodup) (perm : placements.Perm others) :
    SameTick placements others (session.tick placements renderFrame fixedFrame board).result
      (session.tick others renderFrame fixedFrame board).result := by
  have ticked : (session.ticked placements renderFrame fixedFrame).Perm
      (session.ticked others renderFrame fixedFrame) := perm.map _
  have noticed : (session.tickNotices placements renderFrame fixedFrame).Perm
      (session.tickNotices others renderFrame fixedFrame) := perm.map _
  have paths : (session.tickNotices placements renderFrame fixedFrame).map SinkCall.path =
      placements.map Placement.path := by
    simp [tickNotices, notices]
  have boards := board.foldl_send_of_perm (paths ▸ distinct) noticed
  rw [(result_tick_eq reached.sound placements renderFrame fixedFrame board).1,
    (result_tick_eq reached.sound others renderFrame fixedFrame board).1]
  constructor
  case report =>
    unfold tickReport
    rw [ticked.countP_eq, ticked.countP_eq]
  case placements => exact ⟨_, rfl, rfl⟩
  case board => exact boards
  case listing => exact boards.listing_eq
  case later =>
    intro σ _ calls
    have twin := reached.twin_of_perm renderFrame fixedFrame perm
    obtain ⟨events, last⟩ := (twin_of_forest session.flush.result.2 twin false).run calls
    exact ⟨events, last.answersAlike⟩

/-- A robot and a lamp on the map, and room for one lookup. -/
def gallery : Session Float :=
  { Session.empty { Settings.standard with memoCapacity := 1 } with
    pending := [.fixed ⟨"map", "robot", 0, 1⟩, .fixed ⟨"map", "lamp", 0, 1⟩] }

/-- The robot, its arm in the same frame, and the lamp. -/
def robot : Placement Float :=
  .create "robot" ⟨["robot"]⟩ 1 ⟨5⟩

def arm : Placement Float :=
  .create "robot" ⟨["robot", "arm"]⟩ 1 ⟨5⟩

def lamp : Placement Float :=
  .create "lamp" ⟨["lamp"]⟩ 1 ⟨5⟩

theorem tick_order_irrelevant_gallery :
    SameTick [robot, arm, lamp] [robot, lamp, arm]
      (gallery.tick [robot, arm, lamp] "map" "map" Board.empty).result
      (gallery.tick [robot, lamp, arm] "map" "map" Board.empty).result :=
  tick_order_irrelevant ⟨{ Settings.standard with memoCapacity := 1 }, [], rfl⟩ _ _ _
    (by decide) (.cons _ (.swap _ _ _))

/-- The lookup of the robot is still remembered for the arm, unless the lamp comes in between. -/
theorem hits_depend_on_tick_order :
    [robot, arm, lamp].Perm [robot, lamp, arm] ∧
      ([robot, arm, lamp].map Placement.path).Nodup ∧
      (gallery.tick [robot, arm, lamp] "map" "map" Board.empty).result.2.2.1.forest.memo.hits = 1 ∧
      (gallery.tick [robot, lamp, arm] "map" "map" Board.empty).result.2.2.1.forest.memo.hits =
        0 := by
  refine ⟨.cons _ (.swap _ _ _), by decide, ?_, ?_⟩ <;> decide +kernel

end Session

end FrameForest
