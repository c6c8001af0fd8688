import FrameForest.Proofs.Forest.Storing
import FrameForest.Proofs.Session.Seeking

/-!
# Resuming playback where it was sought

A seek clears the session only when it lands before every timed sample of every
edge, while an edge refuses a sample on account of its own samples alone.  A
sample of the sought time is therefore lost when its edge has moved on too far
and some other edge reaches further back.  In all other cases it is stored, and
lookups along its edge answer it.
-/

namespace FrameForest

variable {α : Type} [Scalar α]

namespace Session

/-- Seeks to the stamp of a sample, which is the next to arrive and to be flushed. -/
def resume (session : Session α) (stamped : StampedMotion α) : Session α :=
  ((session.setTime stamped.stamp true).result.2.enqueue (.timed stamped)).flush.result.2

/-- What becomes of a sample at the time that playback sought. -/
structure Resumes (session : Session α) (stamped : StampedMotion α) (history : History α) :
    Prop where
  stored_iff : (session.resume stamped).forest.Stores stamped ↔
    (session.setTime stamped.stamp true).result.1 = true ∨ history.Admits stamped.stamp
  /-- A sample that is lost is older than all of its edge, and not older than all of another. -/
  overshadowed : ¬(session.resume stamped).forest.Stores stamped →
    (∀ sample ∈ history.samples, stamped.stamp < sample.stamp) ∧
      ∃ other edge start, other ≠ stamped.child ∧ session.forest.edges.find? other = some edge ∧
        edge.start? = some start ∧ start ≤ stamped.stamp
  untouched : ¬(session.resume stamped).forest.Stores stamped →
    (session.resume stamped).forest.bare = session.forest.bare
  answered : (session.resume stamped).forest.Stores stamped →
    ((session.resume stamped).forest.lookup stamped.child stamped.parent stamped.stamp).1 =
        .ok (Forest.compose [stamped.motion] []) ∧
      ((session.resume stamped).forest.lookup stamped.parent stamped.child stamped.stamp).1 =
        .ok (Forest.compose [] [stamped.motion])

section Resume

variable {session : Session α} {stamped : StampedMotion α} {history : History α}

/-- With nothing pending, the sample is all that is flushed. -/
theorem forest_resume (quiet : session.pending = []) :
    (session.resume stamped).forest =
      ((Call.record (.timed stamped)).perform
        (session.setTime stamped.stamp true).result.2.forest).2 := by
  have alone : (session.setTime stamped.stamp true).result.2.pending = [] := by
    rcases session.seek_cases stamped.stamp with ⟨_, cleared⟩ | ⟨_, kept⟩
    · rw [cleared]
      rfl
    · rw [kept]
      exact quiet
  rw [resume, result_flush]
  show (Forest.run _ (((session.setTime stamped.stamp true).result.2.pending ++
    [Arrival.timed stamped]).map Call.record)).2 = _
  rw [alone]
  rfl

theorem Reached.resume (reached : session.Reached) (quiet : session.pending = [])
    (stamped : StampedMotion α) : (session.resume stamped).Reached := by
  have recorded : (session.resume stamped).forest =
      ((session.setTime stamped.stamp true).result.2.forest.run [.record (.timed stamped)]).2 :=
    forest_resume quiet
  exact (reached.setTime stamped.stamp true).of_run recorded

theorem Reached.trimmed (reached : session.Reached) {child : String} {edge : Edge α}
    (found : session.forest.edges.find? child = some edge) : edge.track.Trimmed := by
  obtain ⟨settings, calls, made⟩ := reached
  rw [made] at found
  exact Forest.trimmed_after settings calls found

section Edge

variable (reached : session.Reached) (quiet : session.pending = [])
  (found : session.forest.edges.find? stamped.child =
    some ⟨stamped.parent, stamped.child, .timed history⟩)

include reached quiet found

theorem Reached.stores_of_cleared
    (cleared : (session.setTime stamped.stamp true).result.1 = true) :
    (session.resume stamped).forest.Stores stamped := by
  have consistent := reached.sound.consistent
  have held : session.forest.graph.parent? stamped.child = some stamped.parent := by
    rw [← consistent.parents, found]
    rfl
  have sound := (reached.setTime stamped.stamp true).sound
  rw [forest_resume quiet]
  rcases session.seek_cases stamped.stamp with ⟨_, told⟩ | ⟨_, told⟩
  · rw [told] at sound ⊢
    have emptied : (session.moved stamped.stamp true).reset.result.forest = _ :=
      Forest.result_reset _
    apply sound.consistent.record_first
    · exact congrArg Forest.graph emptied
    · exact congrArg Forest.edges emptied
    · exact consistent.isForest.ne_of_parent? held
  · rw [told] at cleared
    cases cleared

/-- If the session is not cleared, the sample meets the history as it was. -/
theorem Reached.stores_iff_of_kept
    (kept : (session.setTime stamped.stamp true).result.1 = false) :
    ((session.resume stamped).forest.Stores stamped ↔ history.Admits stamped.stamp) ∧
      (¬history.Admits stamped.stamp →
        (session.resume stamped).forest.bare = session.forest.bare) := by
  have consistent := (reached.moved stamped.stamp true).sound.consistent
  have there : (session.moved stamped.stamp true).forest.edges.find? stamped.child =
      some ⟨stamped.parent, stamped.child, .timed history.forgetHint⟩ := by
    rw [edges_moved, EdgeTable.find?_forgetHints, found]
    rfl
  have trimmed : history.forgetHint.Trimmed := reached.trimmed found
  have admits : history.forgetHint.Admits stamped.stamp ↔ history.Admits stamped.stamp :=
    ⟨fun both => ⟨both.young, both.room⟩, fun both => ⟨both.young, both.room⟩⟩
  have bare : (session.moved stamped.stamp true).forest.bare = session.forest.bare :=
    ((Jumped.jumps (session.now.getD stamped.stamp)).sound_and_bare reached.sound).2
  rw [forest_resume quiet]
  rcases session.seek_cases stamped.stamp with ⟨_, told⟩ | ⟨_, told⟩
  · rw [told] at kept
    cases kept
  · obtain ⟨stored, lost⟩ := consistent.record_held there trimmed
    rw [told, ← admits]
    exact ⟨stored, fun excluded => by rw [lost excluded, bare]⟩

omit quiet in
/-- A sample that its edge refuses comes before all of the edge.  What kept the session from being
cleared is therefore another edge. -/
theorem Reached.overshadowed (kept : (session.setTime stamped.stamp true).result.1 = false)
    (excluded : ¬history.Admits stamped.stamp) :
    (∀ sample ∈ history.samples, stamped.stamp < sample.stamp) ∧
      ∃ other edge start, other ≠ stamped.child ∧ session.forest.edges.find? other = some edge ∧
        edge.start? = some start ∧ start ≤ stamped.stamp := by
  rw [History.admits_iff, not_not] at excluded
  have older : ∀ sample ∈ history.samples, stamped.stamp < sample.stamp := fun sample member =>
    (Duration.lt_iff_toNat _ _).2
      (History.older_of_refuses (reached.trimmed found) excluded sample member)
  have occupied : history.samples ≠ [] :=
    reached.sound.consistent.occupied stamped.child _ found
  obtain ⟨first, starts⟩ := Option.ne_none_iff_exists'.1 (mt List.head?_eq_none_iff.1 occupied)
  have own : Edge.start? ⟨stamped.parent, stamped.child, .timed history⟩ = some first.stamp :=
    congrArg (Option.map Sample.stamp) starts
  obtain ⟨earliest, least⟩ := EdgeTable.exists_earliestTimed? found own
  obtain ⟨other, edge, there, start⟩ := EdgeTable.exists_start_of_earliestTimed? least
  have notLater : earliest ≤ stamped.stamp := by
    rcases session.seek_cases stamped.stamp with ⟨_, told⟩ | ⟨late, _⟩
    · rw [told] at kept
      cases kept
    · rw [Duration.le_iff_toNat]
      apply Nat.le_of_not_lt
      intro early
      exact late ⟨earliest, least, (Duration.lt_iff_toNat _ _).2 early⟩
  refine ⟨older, other, edge, earliest, ?_, there, start, notLater⟩
  rintro rfl
  rw [found] at there
  cases there
  rw [own] at start
  cases start
  have before := older first (List.mem_of_head? starts)
  grind

end Edge

/-- After a seek, a sample of that time is lost only if its own edge holds nothing but newer
samples, too many or too much newer, while another edge reaches further back. -/
theorem resumes_after_seek (reached : session.Reached) (quiet : session.pending = [])
    (found : session.forest.edges.find? stamped.child =
      some ⟨stamped.parent, stamped.child, .timed history⟩) :
    session.Resumes stamped history := by
  have sound := (reached.resume quiet stamped).sound
  cases kept : (session.setTime stamped.stamp true).result.1 with
  | true =>
      have stores := reached.stores_of_cleared quiet found kept
      constructor
      · exact iff_of_true stores (.inl kept)
      · exact fun lost => absurd stores lost
      · exact fun lost => absurd stores lost
      · exact fun stores => stores.fst_lookup sound
  | false =>
      obtain ⟨stored, unchanged⟩ := reached.stores_iff_of_kept quiet found kept
      constructor
      · simpa [kept] using stored
      · exact fun lost => reached.overshadowed found kept (mt stored.2 lost)
      · exact fun lost => unchanged (mt stored.2 lost)
      · exact fun stores => stores.fst_lookup sound

end Resume

/-- A car was seen on the map long before a drone. -/
def convoy : Session Float :=
  ((Session.empty .standard).run
    ([.enqueue (.timed ⟨"map", "car", ⟨50000000000⟩, 1⟩),
      .enqueue (.timed ⟨"map", "drone", ⟨100000000000⟩, 1⟩), .flush] :
      List (SessionCall Float Board))).2

def drone (time : Stamp) : StampedMotion Float :=
  ⟨"map", "drone", time, 1⟩

/-- The only sample of the drone. -/
def sighting : History Float :=
  ((History.empty Settings.standard.samplesPerEdge.toNat Settings.standard.storageTime).insert
    ⟨⟨100000000000⟩, 1⟩).2

theorem reached_convoy : convoy.Reached :=
  reached_run .standard _

theorem find?_convoy_drone :
    convoy.forest.edges.find? "drone" = some ⟨"map", "drone", .timed sighting⟩ := by
  with_unfolding_all rfl

/-- Playback goes back by half of the storage time. -/
theorem resumes_after_seek_drone :
    (convoy.resume (drone ⟨95000000000⟩)).forest.Stores (drone ⟨95000000000⟩) ∧
      ((convoy.resume (drone ⟨95000000000⟩)).forest.lookup "drone" "map" ⟨95000000000⟩).1 =
        .ok (Forest.compose [1] []) := by
  have resumes : convoy.Resumes (drone ⟨95000000000⟩) sighting :=
    resumes_after_seek reached_convoy (by decide +kernel) find?_convoy_drone
  have admitted : sighting.Admits ⟨95000000000⟩ :=
    ⟨by decide +kernel, .inl (by decide +kernel)⟩
  have stores := resumes.stored_iff.2 (.inr admitted)
  exact ⟨stores, (resumes.answered stores).1⟩

/-- Playback goes back further, to a time that only the car reaches. -/
theorem resumption_overshadowed :
    convoy.Reached ∧ convoy.pending = [] ∧
      convoy.forest.edges.find? "drone" = some ⟨"map", "drone", .timed sighting⟩ ∧
      (convoy.setTime ⟨60000000000⟩ true).result.1 = false ∧
      ¬(convoy.resume (drone ⟨60000000000⟩)).forest.Stores (drone ⟨60000000000⟩) ∧
      ((convoy.resume (drone ⟨60000000000⟩)).forest.lookup "drone" "map" ⟨60000000000⟩).1.isOk =
        false := by
  have kept : (convoy.resume (drone ⟨60000000000⟩)).forest.edges.find? "drone" =
      some ⟨"map", "drone", .timed sighting⟩ := by
    with_unfolding_all rfl
  have absent : ⟨60000000000⟩ ∉ sighting.samples.map Sample.stamp := by decide +kernel
  refine ⟨reached_convoy, by decide +kernel, find?_convoy_drone, by decide +kernel, ?_,
    by decide +kernel⟩
  rw [Forest.stores_iff_of_find? kept]
  exact fun member => absent (List.mem_map_of_mem member)

end Session

end FrameForest
