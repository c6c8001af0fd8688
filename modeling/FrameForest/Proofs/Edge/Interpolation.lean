import Mathlib.Algebra.Order.Field.Rat
import Mathlib.Tactic.Positivity
import FrameForest.Edge.Sample
import FrameForest.Proofs.Time.Order

/-!
# Interpolation between any two samples

Interpolation may be asked with any two samples, also with the later one in
front, and `Interpolates` lists what it then does.  It subtracts words that wrap
around and it divides, so its tests have to keep most questions away from the
arithmetic.  That they do is seen by taking the same steps with operations that
have no result where they should not be used: the two agree everywhere.
-/

namespace FrameForest

/-! ## The cases of an interpolation -/

namespace Sample

variable {α : Type} [Scalar α] {before after : Sample α} {time : Stamp}
  {answer : Except Failure (Motion α)}

/-- Everything that an interpolation can come to. -/
inductive Interpolates (before after : Sample α) (time : Stamp) :
    Except Failure (Motion α) → Prop
  | outside {failure : Failure} (missed : ¬(before.stamp ≤ time ∧ time ≤ after.stamp)) :
      Interpolates before after time (.error failure)
  | start (here : time = before.stamp) (unfinished : time ≤ after.stamp) :
      Interpolates before after time (.ok before.motion)
  | stop (here : time = after.stamp) (longer : before.stamp < after.stamp) :
      Interpolates before after time (.ok after.motion)
  | between (started : before.stamp < time) (unfinished : time < after.stamp) :
      Interpolates before after time
        (.ok (mix before.motion after.motion (share before.stamp after.stamp time)))

theorem interpolates (before after : Sample α) (time : Stamp) :
    before.Interpolates after time (before.interpolate after time) := by
  unfold interpolate
  split
  case isTrue outside => exact .outside (by grind)
  case isFalse inside =>
    split
    case isTrue early => exact .start (by grind) (by grind)
    case isFalse apart =>
      split
      case isTrue here => exact .stop here (by grind)
      case isFalse short => exact .between (by grind) (by grind)

namespace Interpolates

variable (interpolates : before.Interpolates after time answer)

include interpolates

theorem isError_iff :
    (∃ failure, answer = .error failure) ↔ ¬(before.stamp ≤ time ∧ time ≤ after.stamp) := by
  cases interpolates with
  | outside missed => exact iff_of_true ⟨_, rfl⟩ missed
  | start here unfinished => exact iff_of_false nofun (by grind)
  | stop here longer => exact iff_of_false nofun (by grind)
  | between started unfinished => exact iff_of_false nofun (by grind)

theorem eq_start (here : time = before.stamp) (unfinished : time ≤ after.stamp) :
    answer = .ok before.motion := by
  cases interpolates with
  | outside missed => grind
  | start => rfl
  | stop here' longer => grind
  | between started => grind

theorem eq_stop (here : time = after.stamp) (longer : before.stamp < after.stamp) :
    answer = .ok after.motion := by
  cases interpolates with
  | outside missed => grind
  | start here' => grind
  | stop => rfl
  | between _ unfinished => grind

theorem eq_mix (started : before.stamp < time) (unfinished : time < after.stamp) :
    answer = .ok (mix before.motion after.motion (share before.stamp after.stamp time)) := by
  cases interpolates with
  | outside missed => grind
  | start here => grind
  | stop here => grind
  | between => rfl

end Interpolates

/-- Between two stamps, or at them, interpolation always answers. -/
theorem exists_interpolate (started : before.stamp ≤ time) (unfinished : time ≤ after.stamp) :
    ∃ motion, before.interpolate after time = .ok motion := by
  cases told : before.interpolate after time with
  | ok motion => exact ⟨motion, rfl⟩
  | error failure =>
      have missed := (before.interpolates after time).isError_iff.1 ⟨failure, told⟩
      exact absurd ⟨started, unfinished⟩ missed

end Sample

/-! ## Operations that may not be misused -/

/-- A use of an operation that it is not meant for. -/
inductive Misuse where
  | differenceBelowZero (left right : Duration)
  | divisionByZero
  /-- Not strictly between zero and one. -/
  | shareOutside (share : ℚ)
  deriving DecidableEq

namespace Duration

/-- The difference of two durations, the right one not the larger. -/
def difference (a b : Duration) : Except Misuse Duration :=
  if b ≤ a then .ok (a - b) else .error (.differenceBelowZero a b)

variable {α : Type} [Scalar α]

/-- The quotient of two durations, which in exact arithmetic lies between zero and one. -/
def ratio (part whole : Duration) : Except Misuse α :=
  let exact : ℚ := part.toNat / whole.toNat
  if whole = 0 then .error .divisionByZero
  else if 0 < exact ∧ exact < 1 then
    .ok (Scalar.ofCount part.nanos / Scalar.ofCount whole.nanos)
  else .error (.shareOutside exact)

theorem difference_of_le {a b : Duration} (le : b ≤ a) : a.difference b = .ok (a - b) :=
  if_pos le

theorem ratio_of_lt {part whole : Duration} (positive : 0 < part) (less : part < whole) :
    ratio part whole = .ok (Scalar.ofCount part.nanos / Scalar.ofCount whole.nanos : α) := by
  rw [lt_iff_toNat, toNat_zero] at positive
  rw [lt_iff_toNat] at less
  have nonzero : whole ≠ 0 := by
    rintro rfl
    exact Nat.not_lt_zero _ less
  have partPositive : (0 : ℚ) < part.toNat := by exact_mod_cast positive
  have wholePositive : (0 : ℚ) < whole.toNat := by exact_mod_cast positive.trans less
  have above : (0 : ℚ) < part.toNat / whole.toNat := by positivity
  have below : (part.toNat / whole.toNat : ℚ) < 1 := by
    rw [div_lt_one wholePositive]
    exact_mod_cast less
  rw [ratio, if_neg nonzero, if_pos ⟨above, below⟩]

end Duration

namespace Sample

variable {α : Type} [Scalar α]

/-- `share` by operations that refuse to be misused. -/
def checkedShare (start stop time : Stamp) : Except Misuse α := do
  let whole ← stop.difference start
  let part ← time.difference start
  part.ratio whole

/-- `interpolate` by operations that refuse to be misused. -/
def checkedInterpolate (before after : Sample α) (time : Stamp) :
    Except Misuse (Except Failure (Motion α)) :=
  if time < before.stamp ∨ after.stamp < time then
    .ok (.error (.interpolation
      s!"Requested time {time.text} is outside [{before.stamp.text}, {after.stamp.text}]"))
  else if time = before.stamp ∨ before.stamp = after.stamp then
    .ok (.ok before.motion)
  else if time = after.stamp then
    .ok (.ok after.motion)
  else do
    let share ← checkedShare before.stamp after.stamp time
    .ok (.ok (mix before.motion after.motion share))

theorem checkedShare_eq {start stop time : Stamp} (started : start < time)
    (unfinished : time < stop) :
    checkedShare start stop time = .ok (share start stop time : α) := by
  have notEarlier : start ≤ time := Std.le_of_lt started
  have longer : start ≤ stop := Std.le_trans notEarlier (Std.le_of_lt unfinished)
  have part := Duration.toNat_sub notEarlier
  have whole := Duration.toNat_sub longer
  rw [Duration.lt_iff_toNat] at started unfinished
  have positive : 0 < time - start := by
    rw [Duration.lt_iff_toNat, Duration.toNat_zero]
    omega
  have less : time - start < stop - start := by
    rw [Duration.lt_iff_toNat]
    omega
  rw [checkedShare, Duration.difference_of_le longer, Duration.difference_of_le notEarlier]
  exact Duration.ratio_of_lt positive less

/-- The tests leave to the arithmetic only what it is meant for. -/
theorem checkedInterpolate_eq (before after : Sample α) (time : Stamp) :
    before.checkedInterpolate after time = .ok (before.interpolate after time) := by
  unfold checkedInterpolate interpolate
  split
  case isTrue => rfl
  case isFalse inside =>
    split
    case isTrue => rfl
    case isFalse apart =>
      split
      case isTrue => rfl
      case isFalse short =>
        have started : before.stamp < time := by grind
        have unfinished : time < after.stamp := by grind
        rw [checkedShare_eq started unfinished]
        rfl

/-- How an interpolation behaves whose samples may come in any order. -/
structure SafeAt (before after : Sample α) (time : Stamp) : Prop where
  refuses_iff : (∃ failure, before.interpolate after time = .error failure) ↔
    ¬(before.stamp ≤ time ∧ time ≤ after.stamp)
  /-- No difference falls below zero, nothing is divided by zero, and the share that is taken lies
  strictly between zero and one. -/
  checked : before.checkedInterpolate after time = .ok (before.interpolate after time)
  /-- Also when both samples have the same stamp. -/
  start : time = before.stamp → time ≤ after.stamp →
    before.interpolate after time = .ok before.motion
  stop : time = after.stamp → before.stamp < after.stamp →
    before.interpolate after time = .ok after.motion

theorem interpolate_safeAt (before after : Sample α) (time : Stamp) :
    before.SafeAt after time where
  refuses_iff := (before.interpolates after time).isError_iff
  checked := before.checkedInterpolate_eq after time
  start := (before.interpolates after time).eq_start
  stop := (before.interpolates after time).eq_stop

/-- One nanosecond inside the longest of all spans, and the same samples in reverse order. -/
example :
    let first : Sample Float := ⟨0, 1⟩
    let last : Sample Float := ⟨.longest, 1⟩
    (first.interpolate last ⟨1⟩).isOk = true ∧ (last.interpolate first ⟨1⟩).isOk = false := by
  decide

end Sample

end FrameForest
