import FrameForest.Proofs.Edge.Answers
import FrameForest.Proofs.Session.TickOrder

/-!
# Setting the clock

A seek looks at where each history starts, and histories are ordered, so this
decides about all of their samples.  The session is cleared if the seek lands
before all of them and there is one; motions that are fixed do not count.
Otherwise only hints and remembered lookups go, which no answer depends on.
-/

namespace FrameForest

variable {α : Type}

/-! ## Where histories start -/

/-- No sample of a history comes before its start. -/
theorem Edge.start_le_of_mem {edge : Edge α} {start : Stamp} (starts : edge.start? = some start)
    {sample : Sample α} (member : sample ∈ edge.track.samples) : start ≤ sample.stamp := by
  obtain ⟨parent, child, track⟩ := edge
  cases track with
  | fixed motion => cases starts
  | timed history =>
      obtain ⟨first, isFirst, rfl⟩ := Option.map_eq_some_iff.1 starts
      exact (Duration.le_iff_toNat _ _).2 (History.first_le_of_mem isFirst member)

/-- A history starts with one of its samples. -/
theorem Edge.timed_of_start {edge : Edge α} {start : Stamp} (starts : edge.start? = some start) :
    edge.track.isFixed = false ∧ ∃ sample ∈ edge.track.samples, sample.stamp = start := by
  obtain ⟨parent, child, track⟩ := edge
  cases track with
  | fixed motion => cases starts
  | timed history =>
      obtain ⟨first, isFirst, rfl⟩ := Option.map_eq_some_iff.1 starts
      exact ⟨rfl, first, List.mem_of_head? isFirst, rfl⟩

theorem Edge.exists_start {edge : Edge α} (timed : edge.track.isFixed = false)
    (occupied : edge.track.samples ≠ []) : ∃ start, edge.start? = some start := by
  obtain ⟨first, isFirst⟩ := Option.ne_none_iff_exists'.1 (mt List.head?_eq_none_iff.1 occupied)
  have own : edge.start? = edge.track.earliest?.map Sample.stamp := by simp [start?, timed]
  exact ⟨first.stamp, own.trans (congrArg _ isFirst)⟩

namespace EdgeTable

variable {edges : EdgeTable α} {time : Stamp}

/-- The table holds a sample of a history, and all such samples are later than `time`. -/
structure StartsAfter (edges : EdgeTable α) (time : Stamp) : Prop where
  occupied : ∃ child edge, edges.find? child = some edge ∧ edge.track.isFixed = false ∧
    edge.track.samples ≠ []
  later : ∀ child edge, edges.find? child = some edge → edge.track.isFixed = false →
    ∀ sample ∈ edge.track.samples, time < sample.stamp

theorem le_of_earliestTimed? {earliest start : Stamp} {child : String} {edge : Edge α}
    (least : edges.earliestTimed? = some earliest) (found : edges.find? child = some edge)
    (starts : edge.start? = some start) : earliest ≤ start := by
  have first : (edges.values.filterMap Edge.start?).min? = some earliest := least
  apply (List.min?_eq_some_iff.1 first).2
  exact List.mem_filterMap.2 ⟨edge, Table.mem_values.2 ⟨child, found⟩, starts⟩

/-- The first samples speak for all. -/
theorem startsAfter_iff :
    edges.StartsAfter time ↔ ∃ earliest ∈ edges.earliestTimed?, time < earliest := by
  constructor
  · rintro ⟨⟨child, edge, found, timed, occupied⟩, later⟩
    obtain ⟨start, starts⟩ := Edge.exists_start timed occupied
    obtain ⟨earliest, least⟩ := exists_earliestTimed? found starts
    obtain ⟨first, holder, held, isFirst⟩ := exists_start_of_earliestTimed? least
    obtain ⟨holderTimed, sample, member, rfl⟩ := Edge.timed_of_start isFirst
    exact ⟨sample.stamp, least, later first holder held holderTimed sample member⟩
  · rintro ⟨earliest, least, early⟩
    constructor
    · obtain ⟨child, edge, found, starts⟩ := exists_start_of_earliestTimed? least
      obtain ⟨timed, sample, member, _⟩ := Edge.timed_of_start starts
      exact ⟨child, edge, found, timed, List.ne_nil_of_mem member⟩
    · intro child edge found timed sample member
      obtain ⟨start, starts⟩ := Edge.exists_start timed (List.ne_nil_of_mem member)
      have first := le_of_earliestTimed? least found starts
      have within := Edge.start_le_of_mem starts member
      grind

end EdgeTable

/-! ## Seeks -/

namespace Session

variable {session : Session α}

theorem edges_moved (session : Session α) (time : Stamp) :
    (session.moved time true).forest.edges = session.forest.edges.forgetHints := by
  have jumped : (session.moved time true).forest =
      (session.forest.jump (session.now.getD time)).result := rfl
  rw [jumped, Forest.result_jump]

/-- A seek clears the session or keeps all but the hints and the memo. -/
theorem seek_cases (session : Session α) (time : Stamp) :
    ((∃ earliest ∈ session.forest.edges.earliestTimed?, time < earliest) ∧
        (session.setTime time true).result = (true, (session.moved time true).reset.result)) ∨
      (¬∃ earliest ∈ session.forest.edges.earliestTimed?, time < earliest) ∧
        (session.setTime time true).result = (false, session.moved time true) := by
  have told := session.result_setTime time true
  rw [edges_moved, ← (EdgeTable.agree_forgetHints _).earliestTimed?_eq] at told
  by_cases early : ∃ earliest ∈ session.forest.edges.earliestTimed?, time < earliest
  · exact .inl ⟨early, told.trans (if_pos ⟨rfl, early⟩)⟩
  · exact .inr ⟨early, told.trans (if_neg fun both => early both.2)⟩

variable [Scalar α]

/-- What becomes of a session whose clock is set. -/
structure SetsTime (session : Session α) (time : Stamp) (isSeek : Bool) : Prop where
  clears_iff : (session.setTime time isSeek).result.1 = true ↔
    isSeek = true ∧ session.forest.edges.StartsAfter time
  cleared : (session.setTime time isSeek).result.1 = true →
    (session.setTime time isSeek).result.2.forest.graph = ∅ ∧
      (session.setTime time isSeek).result.2.forest.edges = ∅ ∧
      (session.setTime time isSeek).result.2.pending = []
  /-- Nothing but hints and the memo has changed, and no call to the forest can tell. -/
  kept : (session.setTime time isSeek).result.1 = false →
    (session.setTime time isSeek).result.2.forest.bare = session.forest.bare ∧
      (session.setTime time isSeek).result.2.pending = session.pending ∧
      ∀ calls : List (Call α), ((session.setTime time isSeek).result.2.forest.run calls).1 =
        (session.forest.run calls).1
  now : (session.setTime time isSeek).result.2.now = some time

theorem setsTime_of_cleared {time : Stamp} (early : session.forest.edges.StartsAfter time)
    (told : (session.setTime time true).result = (true, (session.moved time true).reset.result)) :
    session.SetsTime time true := by
  constructor <;> rw [told]
  case clears_iff => exact iff_of_true rfl ⟨rfl, early⟩
  case cleared =>
    have emptied : (session.moved time true).reset.result.forest = _ := Forest.result_reset _
    exact fun _ => ⟨congrArg Forest.graph emptied, congrArg Forest.edges emptied, rfl⟩
  case kept => exact fun kept => nomatch kept
  case now => rfl

theorem Reached.setsTime_of_kept (reached : session.Reached) {time : Stamp} {isSeek : Bool}
    (late : ¬(isSeek = true ∧ session.forest.edges.StartsAfter time))
    (told : (session.setTime time isSeek).result = (false, session.moved time isSeek)) :
    session.SetsTime time isSeek := by
  have bare : (session.moved time isSeek).forest.bare = session.forest.bare := by
    cases isSeek with
    | false => rfl
    | true => exact ((Jumped.jumps (session.now.getD time)).sound_and_bare reached.sound).2
  have sound := (reached.moved time isSeek).sound
  constructor <;> rw [told]
  case clears_iff => exact iff_of_false (by simp) late
  case cleared => exact fun cleared => nomatch cleared
  case kept => exact fun _ => ⟨bare, rfl, fun calls =>
    (Forest.run_of_bare_eq bare sound reached.sound calls).1⟩
  case now => rfl

/-- A session is cleared exactly by a seek before all samples of its histories, provided that there
are any.  Otherwise the clock is all that moves. -/
theorem sets_time (reached : session.Reached) (time : Stamp) (isSeek : Bool) :
    session.SetsTime time isSeek := by
  cases isSeek with
  | false => exact reached.setsTime_of_kept (by simp) rfl
  | true =>
      rcases session.seek_cases time with ⟨early, cleared⟩ | ⟨late, kept⟩
      · exact setsTime_of_cleared (EdgeTable.startsAfter_iff.2 early) cleared
      · exact reached.setsTime_of_kept (fun both => late (EdgeTable.startsAfter_iff.1 both.2)) kept

/-- A robot with a lidar has been seen once, and is about to be seen again. -/
def drive : Session Float :=
  ((Session.empty .standard).run
    ([.enqueue (.fixed ⟨"robot", "lidar", 0, 1⟩), .enqueue (.timed ⟨"map", "robot", ⟨5⟩, 1⟩), .flush,
      .enqueue (.timed ⟨"map", "robot", ⟨7⟩, 1⟩)] : List (SessionCall Float Board))).2

/-- Playback goes back before the first sight of the robot, or just to it. -/
theorem sets_time_drive :
    (drive.setTime ⟨4⟩ true).result.1 = true ∧
      drive.forest.edges.StartsAfter ⟨4⟩ ∧ (drive.setTime ⟨4⟩ true).result.2.pending = [] ∧
      (drive.setTime ⟨5⟩ true).result.1 = false ∧
      ¬drive.forest.edges.StartsAfter ⟨5⟩ ∧
      (drive.setTime ⟨5⟩ true).result.2.pending = drive.pending := by
  have reached : drive.Reached := reached_run .standard _
  have before := sets_time reached ⟨4⟩ true
  have there := sets_time reached ⟨5⟩ true
  have cleared : (drive.setTime ⟨4⟩ true).result.1 = true := by decide +kernel
  have kept : (drive.setTime ⟨5⟩ true).result.1 = false := by decide +kernel
  refine ⟨cleared, (before.clears_iff.1 cleared).2, (before.cleared cleared).2.2, kept, ?_,
    (there.kept kept).2.1⟩
  intro late
  have contrary := there.clears_iff.2 ⟨rfl, late⟩
  rw [kept] at contrary
  cases contrary

end Session

end FrameForest
