import Mathlib.Algebra.Group.Basic
import Mathlib.Algebra.Ring.Rat
import Mathlib.Tactic.LinearCombination
import Mathlib.Tactic.Ring
import FrameForest.Geometry.Motion

/-!
# The algebra of motions

Over a commutative ring the motions form a monoid that acts on points, whatever
the norms of their rotations.  A rotation of unit norm can be undone, and the
motions with such rotations are closed under products and under `inverse`, which
is their inverse on both sides.
-/

namespace FrameForest

variable {α : Type} [CommRing α]

attribute [ext] Vector3 Quaternion Motion

instance : AddCommGroup (Vector3 α) where
  add_assoc u v w := by
    ext <;> simp [add_assoc]
  zero_add v := by
    ext <;> simp
  add_zero v := by
    ext <;> simp
  add_comm v w := by
    ext <;> simp [add_comm]
  neg_add_cancel v := by
    ext <;> simp
  nsmul := nsmulRec
  zsmul := zsmulRec

namespace Quaternion

section Coordinates

variable (p q : Quaternion α)

@[simp] theorem one_x : (1 : Quaternion α).x = 0 := rfl
@[simp] theorem one_y : (1 : Quaternion α).y = 0 := rfl
@[simp] theorem one_z : (1 : Quaternion α).z = 0 := rfl
@[simp] theorem one_w : (1 : Quaternion α).w = 1 := rfl

@[simp] theorem mul_x : (p * q).x = p.w * q.x + p.x * q.w + p.y * q.z - p.z * q.y := rfl
@[simp] theorem mul_y : (p * q).y = p.w * q.y - p.x * q.z + p.y * q.w + p.z * q.x := rfl
@[simp] theorem mul_z : (p * q).z = p.w * q.z + p.x * q.y - p.y * q.x + p.z * q.w := rfl
@[simp] theorem mul_w : (p * q).w = p.w * q.w - p.x * q.x - p.y * q.y - p.z * q.z := rfl

@[simp] theorem conjugate_x : q.conjugate.x = -q.x := rfl
@[simp] theorem conjugate_y : q.conjugate.y = -q.y := rfl
@[simp] theorem conjugate_z : q.conjugate.z = -q.z := rfl
@[simp] theorem conjugate_w : q.conjugate.w = q.w := rfl

end Coordinates

instance : Monoid (Quaternion α) where
  mul_assoc p q r := by
    ext <;> simp <;> ring
  one_mul q := by
    ext <;> simp
  mul_one q := by
    ext <;> simp

theorem rotate_mul (p q : Quaternion α) (v : Vector3 α) :
    (p * q).rotate v = p.rotate (q.rotate v) := by
  ext <;> simp [rotate, imaginary, Vector3.scale, Vector3.dot, Vector3.cross] <;> ring

theorem rotate_one (v : Vector3 α) : (1 : Quaternion α).rotate v = v := by
  ext <;> simp [rotate, imaginary, Vector3.scale, Vector3.dot, Vector3.cross]

theorem rotate_add (q : Quaternion α) (v w : Vector3 α) :
    q.rotate (v + w) = q.rotate v + q.rotate w := by
  ext <;> simp [rotate, imaginary, Vector3.scale, Vector3.dot, Vector3.cross] <;> ring

theorem rotate_neg (q : Quaternion α) (v : Vector3 α) : q.rotate (-v) = -q.rotate v := by
  ext <;> simp [rotate, imaginary, Vector3.scale, Vector3.dot, Vector3.cross] <;> ring

theorem rotate_zero (q : Quaternion α) : q.rotate 0 = 0 := by
  ext <;> simp [rotate, imaginary, Vector3.scale, Vector3.dot, Vector3.cross]

/-- The square of the norm is multiplicative. -/
theorem dot_mul (p q : Quaternion α) : (p * q).dot (p * q) = p.dot p * q.dot q := by
  simp only [dot, mul_x, mul_y, mul_z, mul_w]
  ring

@[simp] theorem dot_conjugate (q : Quaternion α) :
    q.conjugate.dot q.conjugate = q.dot q := by
  simp [dot]

@[simp] theorem conjugate_conjugate (q : Quaternion α) : q.conjugate.conjugate = q := by
  ext <;> simp

theorem conjugate_mul_self {q : Quaternion α} (unit : q.dot q = 1) : q.conjugate * q = 1 := by
  rw [dot] at unit
  ext <;> simp
  · ring
  · ring
  · ring
  · linear_combination unit

theorem mul_conjugate_self {q : Quaternion α} (unit : q.dot q = 1) : q * q.conjugate = 1 := by
  have undone := conjugate_mul_self (q := q.conjugate) (by rwa [dot_conjugate])
  rwa [conjugate_conjugate] at undone

end Quaternion

namespace Motion

@[simp] theorem one_offset : (1 : Motion α).offset = 0 := rfl

@[simp] theorem one_rotation : (1 : Motion α).rotation = 1 := rfl

theorem act_one (point : Vector3 α) : (1 : Motion α).act point = point := by
  rw [act, one_rotation, one_offset, Quaternion.rotate_one, add_zero]

theorem act_mul (outer inner : Motion α) (point : Vector3 α) :
    (outer * inner).act point = outer.act (inner.act point) := by
  simp only [act, mul_rotation, mul_offset, Quaternion.rotate_mul, Quaternion.rotate_add,
    add_assoc]

instance : Monoid (Motion α) where
  mul_assoc first second third := by
    apply Motion.ext
    · exact act_mul first second third.offset
    · exact mul_assoc first.rotation second.rotation third.rotation
  one_mul motion := by
    apply Motion.ext
    · exact act_one motion.offset
    · exact one_mul motion.rotation
  mul_one motion := by
    apply Motion.ext
    · rw [mul_offset, one_offset, act, Quaternion.rotate_zero, zero_add]
    · exact mul_one motion.rotation

/-- The rotation has unit norm. -/
def Proper (motion : Motion α) : Prop :=
  motion.rotation.dot motion.rotation = 1

instance [DecidableEq α] (motion : Motion α) : Decidable motion.Proper :=
  inferInstanceAs (Decidable (_ = _))

theorem proper_one : (1 : Motion α).Proper := by
  simp [Proper, Quaternion.dot]

namespace Proper

variable {motion other : Motion α}

theorem mul (proper : motion.Proper) (otherProper : other.Proper) : (motion * other).Proper := by
  rw [Proper, mul_rotation, Quaternion.dot_mul, proper, otherProper, mul_one]

theorem inverse (proper : motion.Proper) : motion.inverse.Proper := by
  rw [Proper, Motion.inverse, Quaternion.dot_conjugate, proper]

theorem inverse_mul_self (proper : motion.Proper) : motion.inverse * motion = 1 := by
  apply Motion.ext
  · exact add_neg_cancel _
  · exact Quaternion.conjugate_mul_self proper

theorem mul_inverse_self (proper : motion.Proper) : motion * motion.inverse = 1 := by
  apply Motion.ext
  · rw [mul_offset, act, Motion.inverse, Quaternion.rotate_neg, ← Quaternion.rotate_mul,
      Quaternion.mul_conjugate_self proper, Quaternion.rotate_one]
    exact neg_add_cancel _
  · exact Quaternion.mul_conjugate_self proper

theorem inverse_mul_cancel_left (proper : motion.Proper) (other : Motion α) :
    motion.inverse * (motion * other) = other := by
  rw [← mul_assoc, proper.inverse_mul_self, one_mul]

theorem mul_inverse_cancel_left (proper : motion.Proper) (other : Motion α) :
    motion * (motion.inverse * other) = other := by
  rw [← mul_assoc, proper.mul_inverse_self, one_mul]

theorem inverse_mul (proper : motion.Proper) (otherProper : other.Proper) :
    (motion * other).inverse = other.inverse * motion.inverse := by
  apply left_inv_eq_right_inv (proper.mul otherProper).inverse_mul_self
  rw [mul_assoc, otherProper.mul_inverse_cancel_left, proper.mul_inverse_self]

theorem inverse_inverse (proper : motion.Proper) : motion.inverse.inverse = motion :=
  left_inv_eq_right_inv proper.inverse.inverse_mul_self proper.inverse_mul_self

end Proper

/-- The laws of motions over a commutative ring.  Only those about `inverse` ask for unit norm,
which products keep. -/
theorem rigid_laws (α : Type) [CommRing α] :
    (∀ (outer inner : Motion α) (point : Vector3 α),
      (outer * inner).act point = outer.act (inner.act point)) ∧
    (∀ first second third : Motion α, first * second * third = first * (second * third)) ∧
    (∀ motion : Motion α, 1 * motion = motion ∧ motion * 1 = motion) ∧
    ∀ motion : Motion α, motion.Proper →
      motion * motion.inverse = 1 ∧ motion.inverse * motion = 1 ∧ motion.inverse.Proper ∧
      ∀ other : Motion α, other.Proper →
        (motion * other).inverse = other.inverse * motion.inverse ∧ (motion * other).Proper := by
  refine ⟨act_mul, mul_assoc, ?neutral, ?undone⟩
  case neutral =>
    intro motion
    exact ⟨one_mul motion, mul_one motion⟩
  case undone =>
    intro motion proper
    refine ⟨proper.mul_inverse_self, proper.inverse_mul_self, proper.inverse, ?_⟩
    intro other otherProper
    exact ⟨proper.inverse_mul otherProper, proper.mul otherProper⟩

/-- Two turns of unit norm about different axes, each followed by a shift. -/
theorem rigid_laws_turns :
    let tilt : Motion ℚ := ⟨⟨1, 2, 3⟩, ⟨3 / 5, 0, 0, 4 / 5⟩⟩
    let spin : Motion ℚ := ⟨⟨-2, 0, 1⟩, ⟨0, 0, 5 / 13, 12 / 13⟩⟩
    tilt.Proper ∧ spin.Proper ∧ tilt * tilt.inverse = 1 ∧ tilt.inverse * tilt = 1 ∧
      tilt.inverse.Proper ∧ (tilt * spin).inverse = spin.inverse * tilt.inverse ∧
      (tilt * spin).Proper := by
  intro tilt spin
  have tiltProper : tilt.Proper := by decide +kernel
  have spinProper : spin.Proper := by decide +kernel
  obtain ⟨_, _, _, undone⟩ := rigid_laws ℚ
  obtain ⟨right, left, inverseProper, products⟩ := undone tilt tiltProper
  exact ⟨tiltProper, spinProper, right, left, inverseProper, products spin spinProper⟩

end Motion

end FrameForest
