import FrameForest.Decimal.Fixed

/-!
# Durations and time spans

Times count nanoseconds in an unsigned word of 64 bits; a stamp on the playback
timeline is the duration since its start.  Arithmetic that could leave the word
saturates, and the lemmas below say so in natural numbers.
-/

namespace FrameForest

structure Duration where
  nanos : UInt64
  deriving DecidableEq, Hashable, Repr

/-- A point on the playback timeline. -/
abbrev Stamp := Duration

namespace Duration

def toNat (duration : Duration) : Nat :=
  duration.nanos.toNat

instance : LE Duration := ⟨fun a b => a.nanos ≤ b.nanos⟩
instance : LT Duration := ⟨fun a b => a.nanos < b.nanos⟩
instance : DecidableLE Duration := fun a b => inferInstanceAs (Decidable (a.nanos ≤ b.nanos))
instance : DecidableLT Duration := fun a b => inferInstanceAs (Decidable (a.nanos < b.nanos))
instance : Ord Duration := ⟨fun a b => compare a.nanos b.nanos⟩
instance : Min Duration := minOfLe

/-- The start of the timeline. -/
instance : Zero Duration := ⟨⟨0⟩⟩

instance : Inhabited Duration := ⟨0⟩

/-- The largest duration that can be counted. -/
def longest : Duration := ⟨0xffffffffffffffff⟩

instance : Sub Duration := ⟨fun a b => ⟨a.nanos - b.nanos⟩⟩

/-- The difference, zero when the right side is larger. -/
def saturatingSub (a b : Duration) : Duration :=
  if b ≤ a then a - b else 0

/-- The sum, `longest` when it does not fit. -/
def saturatingAdd (a b : Duration) : Duration :=
  if longest - b < a then longest else ⟨a.nanos + b.nanos⟩

def ofMillis (millis : UInt64) : Duration :=
  ⟨millis * 1000000⟩

def ofSeconds (seconds : UInt64) : Duration :=
  ⟨seconds * 1000000000⟩

/-- The nearest count of nanoseconds, halves away from zero.  Negative and undefined inputs give
zero, too large ones `longest`. -/
def ofSecondsRounded (seconds : Float) : Duration :=
  ⟨(seconds * 1000000000.0).round.toUInt64⟩

/-- The units of a duration's text with their lengths in nanoseconds, the longest first. -/
def units : List (UInt64 × String) :=
  [(86400000000000, "d"), (3600000000000, "h"), (60000000000, "m"), (1000000000, "s"),
    (1000000, "ms"), (1000, "\u00b5s")]

/-- Three decimals of the longest unit that the duration fills; below a microsecond the plain
count of nanoseconds. -/
def text (duration : Duration) : String :=
  match units.find? (fun unit => unit.1 ≤ duration.nanos) with
  | some (length, name) =>
    Decimal.fixed 3 (duration.nanos.toFloat / length.toFloat) ++ " " ++ name
  | none => toString duration.nanos ++ " ns"

theorem le_iff_toNat (a b : Duration) : a ≤ b ↔ a.toNat ≤ b.toNat :=
  UInt64.le_iff_toNat_le

theorem lt_iff_toNat (a b : Duration) : a < b ↔ a.toNat < b.toNat :=
  UInt64.lt_iff_toNat_lt

theorem toNat_lt (a : Duration) : a.toNat < UInt64.size :=
  a.nanos.toNat_lt

theorem eq_iff_toNat (a b : Duration) : a = b ↔ a.toNat = b.toNat := by
  cases a; cases b
  simp [toNat, UInt64.toNat_inj]

@[simp] theorem toNat_zero : (0 : Duration).toNat = 0 := rfl

@[simp] theorem toNat_longest : longest.toNat = UInt64.size - 1 := rfl

theorem toNat_sub {a b : Duration} (le : b ≤ a) : (a - b).toNat = a.toNat - b.toNat :=
  UInt64.toNat_sub_of_le _ _ le

@[simp] theorem toNat_saturatingSub (a b : Duration) :
    (a.saturatingSub b).toNat = a.toNat - b.toNat := by
  unfold saturatingSub
  split
  case isTrue le => exact toNat_sub le
  case isFalse notLe =>
    rw [le_iff_toNat] at notLe
    simp only [toNat_zero]
    omega

@[simp] theorem toNat_saturatingAdd (a b : Duration) :
    (a.saturatingAdd b).toNat = min (a.toNat + b.toNat) (UInt64.size - 1) := by
  have small := b.toNat_lt
  have room : (longest - b).toNat = UInt64.size - 1 - b.toNat := by
    refine toNat_sub ((le_iff_toNat _ _).2 ?_)
    simp only [toNat_longest]
    omega
  unfold saturatingAdd
  split
  case isTrue full =>
    rw [lt_iff_toNat, room] at full
    simp only [toNat_longest]
    omega
  case isFalse fits =>
    rw [lt_iff_toNat, room] at fits
    have sum : (⟨a.nanos + b.nanos⟩ : Duration).toNat = (a.toNat + b.toNat) % UInt64.size :=
      UInt64.toNat_add _ _
    have inside : a.toNat + b.toNat < UInt64.size := by omega
    rw [sum, Nat.mod_eq_of_lt inside]
    omega

end Duration

/-- All stamps from `start` to `stop`, both included. -/
structure TimeSpan where
  start : Stamp
  stop : Stamp
  deriving DecidableEq, Repr

namespace TimeSpan

def contains (span : TimeSpan) (time : Stamp) : Bool :=
  decide (span.start ≤ time) && decide (time ≤ span.stop)

/-- Membership in the span widened by `tolerance` at both ends, as far as the timeline goes. -/
def containsWithin (span : TimeSpan) (time : Stamp) (tolerance : Duration) : Bool :=
  contains ⟨span.start.saturatingSub tolerance, span.stop.saturatingAdd tolerance⟩ time

end TimeSpan

end FrameForest
