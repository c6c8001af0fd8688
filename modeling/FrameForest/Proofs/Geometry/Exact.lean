import Mathlib.Analysis.SpecialFunctions.Complex.Arg
import Mathlib.Analysis.SpecialFunctions.Trigonometric.Inverse
import Mathlib.Data.Rat.Sqrt
import Mathlib.Tactic.NormNum
import FrameForest.Proofs.Geometry.Algebra

/-!
# Exact arithmetic

An exact scalar is an element of an ordered field, all of whose values count as
finite.  Nothing is asked of its trigonometric functions, and of its square root
only where `ExactRoots` is assumed.  The reals are such scalars.  So are the
rationals, whose roots are right for squares; with them statements about single
forests can be evaluated.
-/

namespace FrameForest

class ExactScalar (α : Type) extends Field α, LinearOrder α, IsStrictOrderedRing α where
  sqrt : α → α
  sin : α → α
  arccos : α → α
  /-- The angle of the point with the given height and width. -/
  arctan2 : α → α → α

class ExactRoots (α : Type) [ExactScalar α] : Prop where
  sqrt_mul_self (value : α) : 0 ≤ value → ExactScalar.sqrt (value * value) = value

instance {α : Type} [ExactScalar α] : Scalar α where
  decidableLT := inferInstance
  decidableLE := inferInstance
  isFinite _ := true
  sqrt := ExactScalar.sqrt
  sin := ExactScalar.sin
  arccos := ExactScalar.arccos
  arctan2 := ExactScalar.arctan2
  ofCount count := (count.toNat : α)

noncomputable instance : ExactScalar ℝ where
  sqrt := Real.sqrt
  sin := Real.sin
  arccos := Real.arccos
  arctan2 height width := Complex.arg ⟨width, height⟩

instance : ExactRoots ℝ where
  sqrt_mul_self _ := Real.sqrt_mul_self

/-- The rationals have no trigonometry of their own, here it is zero throughout. -/
instance : ExactScalar ℚ where
  sqrt := Rat.sqrt
  sin _ := 0
  arccos _ := 0
  arctan2 _ _ := 0

instance : ExactRoots ℚ where
  sqrt_mul_self value positive := by
    show Rat.sqrt (value * value) = value
    rw [Rat.sqrt_eq, abs_of_nonneg positive]

variable {α : Type} [ExactScalar α] [ExactRoots α]

theorem Quaternion.norm_eq_one {q : Quaternion α} (unit : q.dot q = 1) : q.norm = 1 := by
  have root := ExactRoots.sqrt_mul_self (1 : α) zero_le_one
  rw [mul_one] at root
  exact (congrArg ExactScalar.sqrt unit).trans root

theorem Quaternion.normalized_of_unit {q : Quaternion α} (unit : q.dot q = 1) :
    q.normalized = q := by
  have norm := Quaternion.norm_eq_one unit
  have direction : q.HasDirection := by
    refine ⟨rfl, ?_⟩
    rw [norm]
    show ¬(1 : α) < 1e-9
    norm_num
  rw [normalized, if_pos direction, norm]
  ext <;> exact div_one _

theorem Motion.Proper.normalized_eq {motion : Motion α} (proper : motion.Proper) :
    motion.normalized = motion :=
  Motion.ext rfl (Quaternion.normalized_of_unit proper)

end FrameForest
