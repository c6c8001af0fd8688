import FrameForest.Proofs.Edge.Bracketing
import FrameForest.Proofs.Edge.Retention

/-!
# When a history answers

A history answers at every time that its span contains within the tolerance.
Inside of the span there is a last sample that is not later than the time, and
between that sample and the next one interpolation never fails.  At the stamp of a
sample the answer is the motion of that sample.
-/

namespace FrameForest

namespace History

variable {α : Type}

/-- Samples that start early enough have a last one that is not later than `time`. -/
theorem exists_last_not_later {samples : List (Sample α)} {first : Sample α} {time : Stamp}
    (starts : samples.head? = some first) (early : first.stamp ≤ time) :
    ∃ lower here upper, samples = lower ++ here :: upper ∧ here.stamp ≤ time ∧
      ∀ next ∈ upper.head?, time < next.stamp := by
  induction samples generalizing first with
  | nil => cases starts
  | cons head rest ih =>
      cases starts
      cases rest with
      | nil => exact ⟨[], head, [], rfl, early, by simp⟩
      | cons next rest =>
          by_cases reached : next.stamp ≤ time
          · obtain ⟨lower, here, upper, split, notLater, passed⟩ := ih rfl reached
            exact ⟨head :: lower, here, upper, congrArg (head :: ·) split, notLater, passed⟩
          · refine ⟨[], head, next :: rest, rfl, early, fun other member => ?_⟩
            cases member
            grind

theorem mem_of_bracketSearch? {history : History α} {time : Stamp} {bracket : Bracket α}
    (found : history.bracketSearch? time = some bracket) :
    bracket.before ∈ history.samples ∧ bracket.after ∈ history.samples := by
  unfold bracketSearch? at found
  dsimp only at found
  split at found
  · rename_i before after rest here
    split at found
    · cases found
      constructor <;> apply List.mem_of_mem_drop <;> rw [here] <;> simp
    · cases found
  · rename_i last here
    split at found
    · cases found
      constructor <;> apply List.mem_of_mem_drop <;> rw [here] <;> simp
    · cases found
  · cases found

theorem first_le_of_mem {history : History α} {sample first : Sample α}
    (starts : history.earliest? = some first) (member : sample ∈ history.samples) :
    first.stamp.toNat ≤ sample.stamp.toNat := by
  obtain ⟨rest, shape⟩ := List.head?_eq_some_iff.1 starts
  have ordered : Ordered history.samples := history.ordered
  rw [shape] at ordered member
  rcases List.mem_cons.1 member with rfl | later
  · exact Nat.le_refl _
  · exact Nat.le_of_lt (ordered.toNat_lt later)

/-- No sample comes before the first one or after the last. -/
theorem exists_ends_of_mem {history : History α} {sample : Sample α}
    (member : sample ∈ history.samples) :
    ∃ first last, history.earliest? = some first ∧ history.latest? = some last ∧
      first.stamp ≤ sample.stamp ∧ sample.stamp ≤ last.stamp := by
  have occupied : history.samples ≠ [] := List.ne_nil_of_mem member
  obtain ⟨first, starts⟩ := Option.ne_none_iff_exists'.1 (mt List.head?_eq_none_iff.1 occupied)
  obtain ⟨last, ends⟩ := Option.ne_none_iff_exists'.1 (mt List.getLast?_eq_none_iff.1 occupied)
  refine ⟨first, last, starts, ends, ?_, ?_⟩
  · rw [Duration.le_iff_toNat]
    exact first_le_of_mem starts member
  · rw [Duration.le_iff_toNat, ← reach_eq_getLast history.ordered ends]
    exact reach_le_iff.1 (Nat.le_refl _) sample member

variable [Scalar α]

theorem isSome_reading? {history : History α} {first last : Sample α} {time : Stamp}
    (starts : history.earliest? = some first) (ends : history.latest? = some last)
    (early : first.stamp ≤ time) (late : time ≤ last.stamp) :
    (history.reading? time).isSome = true := by
  obtain ⟨lower, here, upper, split, notLater, passed⟩ := exists_last_not_later starts early
  rw [reading?, bracketSearch?_eq split notLater passed, Option.bind_some, Bracket.motion?]
  split
  · rfl
  · rename_i apart
    have unfinished : time ≤ (upper.head?.getD here).stamp := by
      cases upper with
      | nil =>
          -- the last sample of all is reached only at its own stamp
          rw [latest?, split, List.getLast?_concat] at ends
          cases ends
          exact late
      | cons next rest =>
          have before := passed next rfl
          show time ≤ next.stamp
          grind
    obtain ⟨motion, told⟩ := Sample.exists_interpolate notLater unfinished
    rw [told]
    rfl

/-- From the first stamp to the last the samples around the time decide. -/
theorem fst_query_inside {history : History α} {first last : Sample α} {time : Stamp}
    (starts : history.earliest? = some first) (ends : history.latest? = some last)
    (early : first.stamp ≤ time) (late : time ≤ last.stamp) (tolerance : Duration) :
    (history.query time tolerance).1 = history.reading? time := by
  have within : (TimeSpan.mk first.stamp last.stamp).containsWithin time tolerance = true := by
    have small := time.toNat_lt
    rw [Duration.le_iff_toNat] at early late
    simp only [TimeSpan.containsWithin, TimeSpan.contains, Bool.and_eq_true, decide_eq_true_eq,
      Duration.le_iff_toNat, Duration.toNat_saturatingSub, Duration.toNat_saturatingAdd]
    omega
  have started : ¬time < first.stamp := by grind
  have unfinished : ¬last.stamp < time := by grind
  rw [fst_query, starts, ends]
  dsimp only
  rw [if_neg (by simp [within]), if_neg started, if_neg unfinished]

/-- At the stamp of a sample a history answers the motion of this sample. -/
theorem fst_query_of_mem {history : History α} {sample : Sample α}
    (member : sample ∈ history.samples) (tolerance : Duration) :
    (history.query sample.stamp tolerance).1 = some sample.motion := by
  obtain ⟨lower, upper, split⟩ := List.append_of_mem member
  obtain ⟨first, last, starts, ends, early, late⟩ := exists_ends_of_mem member
  have passed : ∀ next ∈ upper.head?, sample.stamp < next.stamp := by
    have ordered := history.ordered
    rw [split] at ordered
    intro next isNext
    exact List.rel_of_pairwise_cons (List.pairwise_append.1 ordered).2.1
      (List.mem_of_mem_head? isNext)
  rw [fst_query_inside starts ends early late, reading?,
    bracketSearch?_eq split (Std.le_refl _) passed]
  exact if_pos rfl

/-- A history answers exactly where its span reaches. -/
theorem isSome_query_iff {history : History α} {time : Stamp} {tolerance : Duration} :
    (history.query time tolerance).1.isSome = true ↔
      ∃ span, history.span? = some span ∧ span.containsWithin time tolerance = true := by
  rw [fst_query]
  unfold span?
  cases starts : history.earliest? with
  | none => simp
  | some first =>
      cases ends : history.latest? with
      | none => simp
      | some last =>
          dsimp only
          by_cases reached : (TimeSpan.mk first.stamp last.stamp).containsWithin time tolerance
          · have answered : (if time < first.stamp then some first.motion
                else if last.stamp < time then some last.motion
                else history.reading? time).isSome = true := by
              split
              · rfl
              · split
                · rfl
                · exact isSome_reading? starts ends (by grind) (by grind)
            rw [if_neg (by simp [reached])]
            exact iff_of_true answered ⟨_, rfl, reached⟩
          · rw [if_pos (by simpa using reached)]
            apply iff_of_false
            · exact Bool.false_ne_true
            · rintro ⟨span, same, within⟩
              cases same
              exact reached within

/-- What a history answers is stored in it, or lies between two motions that are. -/
theorem query_cases {history : History α} {time : Stamp} {tolerance : Duration}
    {motion : Motion α} (told : (history.query time tolerance).1 = some motion) :
    (∃ sample ∈ history.samples, sample.motion = motion) ∨
      ∃ before ∈ history.samples, ∃ after ∈ history.samples,
        before.interpolate after time = .ok motion := by
  rw [fst_query] at told
  split at told
  case h_2 => cases told
  case h_1 first last starts ends =>
    split at told
    · cases told
    · split at told
      · cases told
        exact .inl ⟨first, List.mem_of_head? starts, rfl⟩
      · split at told
        · cases told
          exact .inl ⟨last, List.mem_of_getLast? ends, rfl⟩
        · obtain ⟨bracket, found, answer⟩ := Option.bind_eq_some_iff.1 told
          obtain ⟨before, after⟩ := mem_of_bracketSearch? found
          unfold Bracket.motion? at answer
          split at answer
          · cases answer
            exact .inl ⟨bracket.before, before, rfl⟩
          · cases mixed : bracket.before.interpolate bracket.after time with
            | error failure =>
                rw [mixed] at answer
                cases answer
            | ok mixture =>
                rw [mixed] at answer
                cases answer
                exact .inr ⟨bracket.before, before, bracket.after, after, mixed⟩

end History

end FrameForest
