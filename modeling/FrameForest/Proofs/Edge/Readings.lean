import FrameForest.Proofs.Edge.Answers
import FrameForest.Proofs.Edge.Holdings

/-!
# Tracks read plainly

A query compares with a span that saturates at both ends of the timeline, tries
the bracket of its hint and searches if it has to.  None of this shows: the answer
is the one of the nearest end beyond the samples, the stored motion at a stamp, and
a mixture of the two neighbours everywhere else.  A fixed motion is answered at
every time.
-/

namespace FrameForest

namespace TimeSpan

/-- The time is further from the span than `tolerance`, counted without saturation. -/
def Beyond (span : TimeSpan) (time : Stamp) (tolerance : Duration) : Prop :=
  (time.toNat : Int) < span.start.toNat - tolerance.toNat ∨
    (span.stop.toNat : Int) + tolerance.toNat < time.toNat

theorem beyond_iff {span : TimeSpan} {time : Stamp} {tolerance : Duration} :
    span.Beyond time tolerance ↔ span.containsWithin time tolerance = false := by
  have small := time.toNat_lt
  unfold Beyond containsWithin contains
  simp only [Bool.and_eq_false_iff, decide_eq_false_iff_not, Duration.le_iff_toNat,
    Duration.toNat_saturatingSub, Duration.toNat_saturatingAdd]
  omega

end TimeSpan

namespace History

variable {α : Type}

/-- Two samples that follow each other, with the time strictly between their stamps. -/
structure Encloses (history : History α) (before after : Sample α) (time : Stamp) : Prop where
  adjacent : [before, after] <:+: history.samples
  started : before.stamp < time
  unfinished : time < after.stamp

section Brackets

variable {history : History α} {first last : Sample α} {time : Stamp}

/-- From the first stamp to the last, a time is the stamp of a sample or has two neighbours. -/
theorem stored_or_enclosed (starts : history.earliest? = some first)
    (ends : history.latest? = some last) (early : first.stamp ≤ time) (late : time ≤ last.stamp) :
    (∃ sample ∈ history.samples, sample.stamp = time) ∨
      ∃ before after, history.Encloses before after time := by
  obtain ⟨lower, here, upper, split, notLater, passed⟩ := exists_last_not_later starts early
  have member : here ∈ history.samples := by
    rw [split]
    exact List.mem_append_right _ List.mem_cons_self
  by_cases reached : here.stamp = time
  · exact .inl ⟨here, member, reached⟩
  · cases upper with
    | nil =>
        rw [latest?, split, List.getLast?_concat] at ends
        cases ends
        grind
    | cons next rest =>
        refine .inr ⟨here, next, ⟨lower, rest, ?_⟩, by grind, passed next rfl⟩
        rw [split, List.append_assoc]
        rfl

theorem bracketAt?_around {position : Nat} {bracket : Bracket α}
    (held : history.bracketAt? position time = some bracket) :
    bracket.before.stamp ≤ time ∧ time ≤ bracket.after.stamp := by
  unfold bracketAt? at held
  split at held
  case h_1 before after rest here =>
    split at held
    case isTrue inside =>
      cases held
      exact inside
    case isFalse => cases held
  case h_2 => cases held

/-- From the first stamp to the last there is a bracket, wherever the hint points. -/
theorem exists_bracket?_around (starts : history.earliest? = some first)
    (ends : history.latest? = some last) (early : first.stamp ≤ time) (late : time ≤ last.stamp) :
    ∃ bracket, history.bracket? time = some bracket ∧
      bracket.before.stamp ≤ time ∧ time ≤ bracket.after.stamp := by
  unfold bracket?
  cases hinted : history.bracketAt? history.hint time with
  | some bracket => exact ⟨bracket, rfl, bracketAt?_around hinted⟩
  | none =>
      obtain ⟨lower, here, upper, split, notLater, passed⟩ := exists_last_not_later starts early
      rw [bracketSearch?_eq split notLater passed]
      refine ⟨_, rfl, notLater, ?_⟩
      cases upper with
      | nil =>
          rw [latest?, split, List.getLast?_concat] at ends
          cases ends
          exact late
      | cons next rest =>
          have before := passed next rfl
          show time ≤ next.stamp
          grind

end Brackets

variable [Scalar α]

/-- The answer of a query, described by the samples alone. -/
structure ReadsPlainly (history : History α) (time : Stamp) (tolerance : Duration) : Prop where
  silent : (history.query time tolerance).1 = none ↔
    history.samples = [] ∨ ∃ span, history.span? = some span ∧ span.Beyond time tolerance
  early : (history.query time tolerance).1 ≠ none →
    ∀ first, history.earliest? = some first → time < first.stamp →
      (history.query time tolerance).1 = some first.motion
  late : (history.query time tolerance).1 ≠ none →
    ∀ last, history.latest? = some last → last.stamp < time →
      (history.query time tolerance).1 = some last.motion
  stored : ∀ sample ∈ history.samples, sample.stamp = time →
    (history.query time tolerance).1 = some sample.motion
  between : ∀ before after, history.Encloses before after time →
    ∃ motion, before.interpolate after time = .ok motion ∧
      (history.query time tolerance).1 = some motion
  /-- These are all the cases. -/
  covered : ∀ first last, history.earliest? = some first → history.latest? = some last →
    time < first.stamp ∨ last.stamp < time ∨ (∃ sample ∈ history.samples, sample.stamp = time) ∨
      ∃ before after, history.Encloses before after time
  /-- Whatever bracket a query takes, interpolation does not fail on it. -/
  bracketed : ∀ first last, history.earliest? = some first → history.latest? = some last →
    first.stamp ≤ time → time ≤ last.stamp →
      ∃ bracket, history.bracket? time = some bracket ∧
        ∃ motion, bracket.before.interpolate bracket.after time = .ok motion

section Plain

variable {history : History α} {time : Stamp} {tolerance : Duration}

omit [Scalar α] in
theorem span?_eq_none_iff : history.span? = none ↔ history.samples = [] := by
  unfold span? earliest? latest?
  cases shape : history.samples with
  | nil => simp
  | cons first rest =>
      obtain ⟨last, ends⟩ : ∃ last, (first :: rest).getLast? = some last :=
        Option.isSome_iff_exists.1 (by simp)
      simp [ends]

theorem query_eq_none_iff : (history.query time tolerance).1 = none ↔
    history.samples = [] ∨ ∃ span, history.span? = some span ∧ span.Beyond time tolerance := by
  rw [← Option.not_isSome_iff_eq_none, isSome_query_iff, ← span?_eq_none_iff]
  cases history.span? with
  | none => simp
  | some span => simp [TimeSpan.beyond_iff]

theorem fst_query_of_answered {first last : Sample α}
    (answered : (history.query time tolerance).1 ≠ none)
    (starts : history.earliest? = some first) (ends : history.latest? = some last) :
    (history.query time tolerance).1 =
      if time < first.stamp then some first.motion
      else if last.stamp < time then some last.motion
      else history.reading? time := by
  rw [fst_query, starts, ends] at answered ⊢
  exact if_neg fun far => answered (if_pos far)

/-- Between two neighbours their mixture is answered. -/
theorem Encloses.fst_query {before after : Sample α}
    (encloses : history.Encloses before after time) :
    ∃ motion, before.interpolate after time = .ok motion ∧
      (history.query time tolerance).1 = some motion := by
  obtain ⟨⟨lower, upper, split⟩, started, unfinished⟩ := encloses
  have shape : history.samples = lower ++ before :: after :: upper := by
    rw [← split, List.append_assoc]
    rfl
  have notLater : before.stamp ≤ time := by grind
  have notEarlier : time ≤ after.stamp := by grind
  obtain ⟨motion, mixed⟩ := Sample.exists_interpolate notLater notEarlier
  refine ⟨motion, mixed, ?_⟩
  have passed : ∀ next ∈ (after :: upper).head?, time < next.stamp := by
    intro next first
    cases first
    exact unfinished
  have beforeHeld : before ∈ history.samples := by simp [shape]
  have afterHeld : after ∈ history.samples := by simp [shape]
  obtain ⟨first, last, starts, ends, early, _⟩ := exists_ends_of_mem beforeHeld
  have late : after.stamp ≤ last.stamp := by
    obtain ⟨_, other, _, otherEnds, _, notLater⟩ := exists_ends_of_mem afterHeld
    rw [ends] at otherEnds
    cases otherEnds
    exact notLater
  have apart : before.stamp ≠ time := by grind
  rw [fst_query_inside starts ends (by grind) (by grind), reading?,
    bracketSearch?_eq shape notLater passed, Option.bind_some, Bracket.motion?, if_neg apart]
  exact congrArg Except.toOption mixed

/-- A query reads the samples plainly, whatever was asked before and wherever the hint points. -/
theorem readsPlainly (history : History α) (time : Stamp) (tolerance : Duration) :
    history.ReadsPlainly time tolerance where
  silent := query_eq_none_iff
  early := by
    intro answered first starts before
    obtain ⟨_, last, same, ends, _, _⟩ := exists_ends_of_mem (List.mem_of_head? starts)
    rw [starts] at same
    cases same
    rw [fst_query_of_answered answered starts ends, if_pos before]
  late := by
    intro answered last ends after
    obtain ⟨first, _, starts, same, early, _⟩ := exists_ends_of_mem (List.mem_of_getLast? ends)
    have started : ¬time < first.stamp := by grind
    rw [fst_query_of_answered answered starts ends, if_neg started, if_pos after]
  stored := by
    rintro sample member rfl
    exact fst_query_of_mem member tolerance
  between := fun before after encloses => encloses.fst_query
  covered := by
    intro first last starts ends
    by_cases early : time < first.stamp
    · exact .inl early
    · by_cases late : last.stamp < time
      · exact .inr (.inl late)
      · exact .inr (.inr (stored_or_enclosed starts ends (by grind) (by grind)))
  bracketed := by
    intro first last starts ends early late
    obtain ⟨bracket, found, started, unfinished⟩ := exists_bracket?_around starts ends early late
    exact ⟨bracket, found, Sample.exists_interpolate started unfinished⟩

end Plain

end History

/-! ## Tracks after calls -/

/-- The effect of a call on a track of either kind. -/
def HistoryCall.performOn {α : Type} [Scalar α] (call : HistoryCall α) (track : Track α) :
    Track α :=
  match call with
  | insert sample => (track.insert sample).2
  | query time tolerance => (track.query time tolerance).2
  | forgetHint => track.forgetHint

namespace Track

variable {α : Type} [Scalar α]

def after (track : Track α) (calls : List (HistoryCall α)) : Track α :=
  calls.foldl (fun track call => call.performOn track) track

theorem after_timed (capacity : Nat) (horizon : Duration) (calls : List (HistoryCall α)) :
    (timed (.empty capacity horizon)).after calls =
      timed (History.after capacity horizon calls) := by
  unfold after History.after
  generalize History.empty capacity horizon = history
  induction calls generalizing history with
  | nil => rfl
  | cons call rest ih =>
      have first : call.performOn (timed history) = timed (call.perform history) := by
        cases call <;> rfl
      rw [List.foldl_cons, List.foldl_cons, first]
      exact ih _

/-- A fixed track stays one, whatever is inserted. -/
theorem exists_after_fixed (motion : Motion α) (calls : List (HistoryCall α)) :
    ∃ single, (fixed motion).after calls = fixed single := by
  unfold after
  induction calls generalizing motion with
  | nil => exact ⟨motion, rfl⟩
  | cons call rest ih =>
      cases call with
      | insert sample => exact ih sample.motion
      | query time tolerance => exact ih motion
      | forgetHint => exact ih motion

/-- After any calls a timed track is read plainly at every hint, and a fixed one answers the only
motion that it holds. -/
theorem reads_plainly_after (capacity : Nat) (horizon : Duration) (motion : Motion α)
    (calls : List (HistoryCall α)) :
    (∃ history, (timed (.empty capacity horizon)).after calls = timed history ∧
        ∀ hint time tolerance, { history with hint := hint }.ReadsPlainly time tolerance) ∧
      ∃ single, ((fixed motion).after calls).samples = [⟨0, single⟩] ∧
        ∀ time tolerance, (((fixed motion).after calls).query time tolerance).1 = some single := by
  constructor
  · refine ⟨_, after_timed capacity horizon calls, fun hint time tolerance => ?_⟩
    exact History.readsPlainly _ time tolerance
  · obtain ⟨single, stays⟩ := exists_after_fixed motion calls
    rw [stays]
    exact ⟨single, rfl, fun _ _ => rfl⟩

end Track

end FrameForest
