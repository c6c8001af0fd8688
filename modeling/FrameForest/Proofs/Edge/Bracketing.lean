import FrameForest.Edge.Track
import FrameForest.Proofs.Edge.Interpolation

/-!
# Bracketing

The search for the samples around a time finds the last sample that is not
later.  The bracket that a hint proposes may be another one, when the time is
the stamp that two neighbouring brackets share; both then answer the sample
stored there.  So a history answers the same whatever its hint is, and a query
moves nothing but the hint.
-/

namespace FrameForest

namespace History

variable {α : Type}

private theorem takeWhile_not_later {lower upper : List (Sample α)} {here : Sample α}
    {time : Stamp}
    (ordered : (lower ++ here :: upper).Pairwise fun earlier later => earlier.stamp < later.stamp)
    (reached : here.stamp ≤ time) (passed : ∀ next ∈ upper.head?, time < next.stamp) :
    (lower ++ here :: upper).takeWhile (fun sample => decide (sample.stamp ≤ time)) =
      lower ++ [here] := by
  have ⟨_, _, before⟩ := List.pairwise_append.1 ordered
  have early : ∀ sample ∈ lower, decide (sample.stamp ≤ time) = true := by
    intro sample member
    have below := before sample member here List.mem_cons_self
    grind
  rw [List.takeWhile_append_of_pos early,
    List.takeWhile_cons_of_pos (by simpa using reached)]
  cases upper with
  | nil => rfl
  | cons next rest =>
      have later : time < next.stamp := passed next rfl
      rw [List.takeWhile_cons_of_neg (by grind)]

/-- The search stops at the last sample that is not later than `time`. -/
theorem bracketSearch?_eq {history : History α} {lower upper : List (Sample α)} {here : Sample α}
    {time : Stamp} (split : history.samples = lower ++ here :: upper)
    (reached : here.stamp ≤ time) (passed : ∀ next ∈ upper.head?, time < next.stamp) :
    history.bracketSearch? time = some ⟨here, upper.head?.getD here, lower.length⟩ := by
  have ordered := history.ordered
  rw [split] at ordered
  have position : (history.samples.takeWhile
      fun sample => decide (sample.stamp ≤ time)).length - 1 = lower.length := by
    rw [split, takeWhile_not_later ordered reached passed]
    simp
  have found : history.samples.drop lower.length = here :: upper := by
    rw [split, List.drop_left]
  unfold bracketSearch?
  simp only [position, found]
  cases upper with
  | nil => simp [reached]
  | cons next rest => simp [reached]

section Answers

variable [Scalar α]

/-- The motion that a bracket answers at `time`. -/
def Bracket.motion? (bracket : Bracket α) (time : Stamp) : Option (Motion α) :=
  if bracket.before.stamp = time then some bracket.before.motion
  else (bracket.before.interpolate bracket.after time).toOption

/-- The motion at `time` between the samples that the search finds. -/
def reading? (history : History α) (time : Stamp) : Option (Motion α) :=
  (history.bracketSearch? time).bind (·.motion? time)

private theorem motion?_stop {before after : Sample α} {position : Nat}
    (apart : before.stamp < after.stamp) :
    Bracket.motion? ⟨before, after, position⟩ after.stamp = some after.motion := by
  have differ : before.stamp ≠ after.stamp := by grind
  have stops := (before.interpolates after after.stamp).eq_stop rfl apart
  rw [Bracket.motion?, if_neg differ, stops]
  rfl

private theorem motion?_start {before after : Sample α} {position : Nat} :
    Bracket.motion? ⟨before, after, position⟩ before.stamp = some before.motion :=
  if_pos rfl

/-- A bracket at any position answers what the search would. -/
theorem motion?_bracketAt? {history : History α} {position : Nat} {time : Stamp}
    {bracket : Bracket α} (held : history.bracketAt? position time = some bracket) :
    bracket.motion? time = history.reading? time := by
  unfold bracketAt? at held
  split at held
  case h_2 => cases held
  case h_1 before after rest here =>
    split at held
    case isFalse => cases held
    case isTrue inside =>
      cases held
      have split : history.samples = history.samples.take position ++ before :: after :: rest := by
        rw [← here, List.take_append_drop]
      have ordered := history.ordered
      rw [split] at ordered
      have tail := (List.pairwise_append.1 ordered).2.1
      have apart : before.stamp < after.stamp := List.rel_of_pairwise_cons tail List.mem_cons_self
      by_cases stop : time = after.stamp
      · -- the search prefers the bracket that starts at the shared stamp
        subst stop
        have further : history.samples =
            (history.samples.take position ++ [before]) ++ after :: rest := by
          rw [List.append_assoc]
          exact split
        have passed : ∀ next ∈ rest.head?, after.stamp < next.stamp := by
          intro next first
          exact List.rel_of_pairwise_cons tail.tail (List.mem_of_mem_head? first)
        rw [motion?_stop apart, reading?,
          bracketSearch?_eq further (Std.le_refl _) passed, Option.bind_some, motion?_start]
      · have passed : ∀ next ∈ (after :: rest).head?, time < next.stamp := by
          intro next first
          cases first
          have reached := inside.2
          grind
        rw [reading?, bracketSearch?_eq split inside.1 passed]
        rfl

/-- The answer of a query in terms of the samples alone. -/
theorem fst_query (history : History α) (time : Stamp) (tolerance : Duration) :
    (history.query time tolerance).1 =
      match history.earliest?, history.latest? with
      | some first, some last =>
        if (TimeSpan.mk first.stamp last.stamp).containsWithin time tolerance = false then none
        else if time < first.stamp then some first.motion
        else if last.stamp < time then some last.motion
        else history.reading? time
      | _, _ => none := by
  have answered : (history.bracket? time).bind (·.motion? time) = history.reading? time := by
    unfold bracket?
    cases held : history.bracketAt? history.hint time with
    | none => rfl
    | some bracket => exact motion?_bracketAt? held
  unfold query
  cases history.earliest? with
  | none => rfl
  | some first =>
      cases history.latest? with
      | none => rfl
      | some last =>
          dsimp only
          split
          · rfl
          · split
            · rfl
            · split
              · rfl
              · rw [← answered]
                cases history.bracket? time <;> rfl

theorem forgetHint_query (history : History α) (time : Stamp) (tolerance : Duration) :
    (history.query time tolerance).2.forgetHint = history.forgetHint := by
  unfold query
  split
  · split
    · rfl
    · split
      · rfl
      · split
        · rfl
        · split <;> rfl
  · rfl

theorem query_forgetHint (history : History α) (time : Stamp) (tolerance : Duration) :
    (history.forgetHint.query time tolerance).1 = (history.query time tolerance).1 := by
  rw [fst_query, fst_query]
  rfl

end Answers

end History

namespace Track

variable {α : Type}

@[simp] theorem isFixed_forgetHint (track : Track α) :
    track.forgetHint.isFixed = track.isFixed := by
  cases track <;> rfl

@[simp] theorem samples_forgetHint (track : Track α) :
    track.forgetHint.samples = track.samples := by
  cases track <;> rfl

@[simp] theorem forgetHint_forgetHint (track : Track α) :
    track.forgetHint.forgetHint = track.forgetHint := by
  cases track <;> rfl

variable [Scalar α]

theorem forgetHint_query (track : Track α) (time : Stamp) (tolerance : Duration) :
    (track.query time tolerance).2.forgetHint = track.forgetHint := by
  cases track with
  | fixed motion => rfl
  | timed history => exact congrArg timed (history.forgetHint_query time tolerance)

theorem query_forgetHint (track : Track α) (time : Stamp) (tolerance : Duration) :
    (track.forgetHint.query time tolerance).1 = (track.query time tolerance).1 := by
  cases track with
  | fixed motion => rfl
  | timed history => exact history.query_forgetHint time tolerance

end Track

namespace Edge

variable {α : Type}

@[simp] theorem forgetHint_forgetHint (edge : Edge α) :
    edge.forgetHint.forgetHint = edge.forgetHint := by
  simp [forgetHint]

theorem reportedSpan_forgetHint (edge : Edge α) :
    edge.forgetHint.reportedSpan = edge.reportedSpan := by
  simp [reportedSpan, forgetHint, Track.span?, Track.earliest?, Track.latest?]

variable [Scalar α]

theorem forgetHint_query (edge : Edge α) (time : Stamp) (tolerance : Duration) :
    (edge.query time tolerance).2.forgetHint = edge.forgetHint := by
  have kept := edge.track.forgetHint_query time tolerance
  unfold query
  cases answered : edge.track.query time tolerance with
  | mk found track =>
      rw [answered] at kept
      cases found <;> simp only [forgetHint, kept]

theorem fst_query (edge : Edge α) (time : Stamp) (tolerance : Duration) :
    (edge.query time tolerance).1 =
      match (edge.track.query time tolerance).1 with
      | some motion => .ok motion
      | none =>
        .error (.outsideHistory edge.parent edge.child time edge.reportedSpan.start
          edge.reportedSpan.stop) := by
  unfold query
  cases edge.track.query time tolerance with
  | mk found track => cases found <;> rfl

theorem query_forgetHint (edge : Edge α) (time : Stamp) (tolerance : Duration) :
    (edge.forgetHint.query time tolerance).1 = (edge.query time tolerance).1 := by
  have answer : (edge.forgetHint.track.query time tolerance).1 =
      (edge.track.query time tolerance).1 := edge.track.query_forgetHint time tolerance
  rw [fst_query, fst_query, answer, reportedSpan_forgetHint]
  rfl

end Edge

end FrameForest
