import FrameForest.Proofs.Geometry.Exact

/-!
# Rotations of other lengths

Normalising gives a rotation of unit norm, so that the motion preserves the
distances between points.  Behind a proper motion it makes no difference whether
a rotation is normalised before the product or after it.  In front of another
motion it does, because the offset of that motion is scaled by the square of the
norm.
-/

namespace FrameForest

/-- Square roots are right for all values that are not negative. -/
class TrueRoots (α : Type) [ExactScalar α] : Prop extends ExactRoots α where
  mul_self_sqrt (value : α) : 0 ≤ value → ExactScalar.sqrt value * ExactScalar.sqrt value = value

instance : TrueRoots ℝ where
  mul_self_sqrt _ := Real.mul_self_sqrt

/-- The square of the distance between two points. -/
def Vector3.distance {α : Type} [CommRing α] (first second : Vector3 α) : α :=
  (first - second).dot (first - second)

section Distances

variable {α : Type} [CommRing α]

theorem Quaternion.dot_rotate (q : Quaternion α) (v : Vector3 α) :
    (q.rotate v).dot (q.rotate v) = q.dot q * q.dot q * v.dot v := by
  simp only [rotate, imaginary, Vector3.scale, Vector3.dot, Vector3.cross, dot, Vector3.add_x,
    Vector3.add_y, Vector3.add_z]
  ring

theorem Motion.Proper.distance_act {motion : Motion α} (proper : motion.Proper)
    (first second : Vector3 α) :
    (motion.act first).distance (motion.act second) = first.distance second := by
  have turned : motion.act first - motion.act second = motion.rotation.rotate (first - second) := by
    rw [act, act, add_sub_add_right_eq_sub, sub_eq_add_neg, sub_eq_add_neg,
      Quaternion.rotate_add, Quaternion.rotate_neg]
  rw [Vector3.distance, turned, Quaternion.dot_rotate, proper, mul_one, one_mul, Vector3.distance]

end Distances

section Norms

variable {α : Type} [ExactScalar α]

theorem Quaternion.HasDirection.norm_ne_zero {q : Quaternion α} (direction : q.HasDirection) :
    q.norm ≠ 0 := by
  intro zero
  apply direction.2
  rw [zero]
  show (0 : α) < 1e-9
  norm_num

variable [TrueRoots α]

theorem Quaternion.norm_mul_self (q : Quaternion α) : q.norm * q.norm = q.dot q := by
  apply TrueRoots.mul_self_sqrt
  have x := mul_self_nonneg q.x
  have y := mul_self_nonneg q.y
  have z := mul_self_nonneg q.z
  have w := mul_self_nonneg q.w
  exact add_nonneg (add_nonneg (add_nonneg x y) z) w

theorem Quaternion.dot_normalized (q : Quaternion α) : q.normalized.dot q.normalized = 1 := by
  unfold normalized
  split
  case isTrue direction =>
    have size := q.norm_mul_self
    have nonzero := mul_ne_zero direction.norm_ne_zero direction.norm_ne_zero
    unfold dot at size ⊢
    simp only [div_mul_div_comm, ← add_div]
    rw [← size, div_self nonzero]
  case isFalse => simp [dot]

theorem Motion.proper_normalized (motion : Motion α) : motion.normalized.Proper :=
  motion.rotation.dot_normalized

theorem Quaternion.normalized_mul_normalized {p q : Quaternion α} (unit : p.dot p = 1)
    (direction : q.HasDirection) : (p * q.normalized).normalized = (p * q).normalized := by
  have size : (p * q).norm = q.norm := by
    unfold norm
    rw [dot_mul, unit, one_mul]
  have productDirection : (p * q).HasDirection := by
    unfold HasDirection
    rw [size]
    exact direction
  have whole : (p * q.normalized).dot (p * q.normalized) = 1 := by
    rw [dot_mul, unit, dot_normalized, one_mul]
  rw [normalized_of_unit whole, normalized, if_pos direction, normalized, if_pos productDirection,
    size]
  ext <;> simp <;> ring

/-- Behind a proper motion the length of a rotation gets lost. -/
theorem Motion.Proper.normalized_mul_normalized {outer inner : Motion α} (proper : outer.Proper)
    (direction : inner.rotation.HasDirection) :
    (outer * inner.normalized).normalized = (outer * inner).normalized :=
  Motion.ext rfl (Quaternion.normalized_mul_normalized proper direction)

end Norms

end FrameForest
