import FrameForest.Time.Duration

/-!
# The order of durations

Durations are ordered like the numbers of their nanoseconds, which makes the
order linear.
-/

namespace FrameForest

namespace Duration

instance : Std.IsLinearOrder Duration :=
  .of_le
    { antisymm := fun a b below above => by
        rw [le_iff_toNat] at below above
        rw [eq_iff_toNat]
        omega }
    { trans := fun {a b c} first second => by
        rw [le_iff_toNat] at first second ⊢
        omega }
    { total := fun a b => by
        rw [le_iff_toNat, le_iff_toNat]
        omega }

instance : Std.LawfulOrderLT Duration where
  lt_iff a b := by
    rw [lt_iff_toNat, le_iff_toNat, le_iff_toNat]
    omega

end Duration

end FrameForest
