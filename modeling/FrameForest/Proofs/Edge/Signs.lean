import FrameForest.Proofs.Edge.Interpolation
import FrameForest.Proofs.Geometry.Exact

/-!
# Signs of rotations

A quaternion and its negative turn every point alike, so the samples of an edge
may come with either.  Interpolation takes the shorter arc, for which it turns
one end round when the two are obtuse.  A change of sign is therefore made good
at the far end, and at the near end it passes through to the answer: in exact
arithmetic neither shows in what the answer does to a point.  Only at a right
angle, where both arcs are equally long, does the sign choose between them.

Square roots and trigonometric functions may be any functions here.
-/

namespace FrameForest

/-! ## Negatives -/

namespace Quaternion

section Negation

variable {α : Type} [CommRing α] (p q : Quaternion α)

@[simp] theorem neg_x : (-q).x = -q.x := mul_neg_one q.x
@[simp] theorem neg_y : (-q).y = -q.y := mul_neg_one q.y
@[simp] theorem neg_z : (-q).z = -q.z := mul_neg_one q.z
@[simp] theorem neg_w : (-q).w = -q.w := mul_neg_one q.w

@[simp] theorem add_x : (p + q).x = p.x + q.x := rfl
@[simp] theorem add_y : (p + q).y = p.y + q.y := rfl
@[simp] theorem add_z : (p + q).z = p.z + q.z := rfl
@[simp] theorem add_w : (p + q).w = p.w + q.w := rfl

instance : InvolutiveNeg (Quaternion α) where
  neg_neg q := by
    ext <;> simp

theorem dot_neg : p.dot (-q) = -p.dot q := by
  simp only [dot, neg_x, neg_y, neg_z, neg_w]
  ring

theorem neg_dot : (-p).dot q = -p.dot q := by
  simp only [dot, neg_x, neg_y, neg_z, neg_w]
  ring

theorem neg_dot_neg : (-p).dot (-q) = p.dot q := by
  rw [neg_dot, dot_neg, neg_neg]

theorem neg_scale (factor : α) : (-q).scale factor = -q.scale factor := by
  ext <;> simp [scale]

theorem neg_add_neg : -p + -q = -(p + q) := by
  ext <;> simp [add_comm]

theorem neg_rotate (v : Vector3 α) : (-q).rotate v = q.rotate v := by
  ext <;> simp [rotate, imaginary, Vector3.scale, Vector3.dot, Vector3.cross] <;> ring

end Negation

section Exact

variable {α : Type} [ExactScalar α] (p q : Quaternion α)

theorem norm_neg : (-q).norm = q.norm := by
  unfold norm
  rw [neg_dot_neg]

theorem unit_neg : (-q).unit = -q.unit := by
  unfold unit
  rw [norm_neg, neg_scale]

/-- Without a direction both give way to the neutral quaternion, which keeps its sign. -/
theorem normalized_neg : (-q).normalized = q.normalized ∨ (-q).normalized = -q.normalized := by
  have same : (-q).HasDirection ↔ q.HasDirection := by
    unfold HasDirection
    rw [norm_neg]
  by_cases direction : q.HasDirection
  · right
    rw [normalized, normalized, if_pos direction, if_pos (same.2 direction), norm_neg]
    ext <;> simp [neg_div]
  · left
    rw [normalized, normalized, if_neg direction, if_neg (mt same.1 direction)]

/-- An end that is turned round when it has to be may be given by either sign. -/
theorem facing_neg {p q : Quaternion α} (oblique : p.dot q ≠ 0) : p.facing (-q) = p.facing q := by
  unfold facing
  rw [dot_neg]
  rcases lt_or_gt_of_ne oblique with obtuse | acute
  · rw [if_neg (by simpa using obtuse.le), if_pos obtuse]
  · rw [if_pos (by simpa using acute), if_neg acute.not_gt, neg_neg]

theorem neg_facing_neg : (-p).facing (-q) = -p.facing q := by
  unfold facing
  rw [neg_dot_neg]
  split <;> rfl

theorem neg_facing {p q : Quaternion α} (oblique : p.dot q ≠ 0) :
    (-p).facing q = -p.facing q := by
  rw [← neg_facing_neg, facing_neg]
  rwa [neg_dot, neg_ne_zero]

theorem neg_slerp_neg (share : α) : (-p).slerp (-q) share = -p.slerp q share := by
  unfold slerp
  simp only [neg_facing_neg, neg_dot_neg, neg_scale, neg_add_neg, unit_neg]
  exact (apply_ite Neg.neg _ _ _).symm

theorem slerpShortest_neg {p q : Quaternion α} (oblique : p.dot q ≠ 0) (share : α) :
    p.slerpShortest (-q) share = p.slerpShortest q share := by
  rw [slerpShortest, slerpShortest, facing_neg oblique]

theorem neg_slerpShortest {p q : Quaternion α} (oblique : p.dot q ≠ 0) (share : α) :
    (-p).slerpShortest q share = -p.slerpShortest q share := by
  rw [slerpShortest, slerpShortest, neg_facing oblique, neg_slerp_neg, unit_neg]

end Exact

end Quaternion

/-! ## The same rotation -/

/-- Equal, or each the negative of the other. -/
def Quaternion.SameTurn {α : Type} [CommRing α] (p q : Quaternion α) : Prop :=
  p = q ∨ p = -q

/-- Motions with the same offset and the same rotation, which may be given by either sign. -/
structure Motion.SameMove {α : Type} [CommRing α] (left right : Motion α) : Prop where
  offset : left.offset = right.offset
  rotation : left.rotation.SameTurn right.rotation

/-- The same motion at the same stamp, whose rotation may be given by either sign. -/
structure Sample.SameMoment {α : Type} [CommRing α] (left right : Sample α) : Prop where
  stamp : left.stamp = right.stamp
  motion : left.motion.SameMove right.motion

namespace Quaternion.SameTurn

variable {α : Type}

theorem refl [CommRing α] (q : Quaternion α) : q.SameTurn q :=
  .inl rfl

theorem rotate_eq [CommRing α] {p q : Quaternion α} (same : p.SameTurn q) (v : Vector3 α) :
    p.rotate v = q.rotate v := by
  rcases same with rfl | rfl
  · rfl
  · exact neg_rotate q v

theorem dot_ne_zero [CommRing α] {p q p' q' : Quaternion α} (first : p'.SameTurn p)
    (second : q'.SameTurn q) (oblique : p.dot q ≠ 0) : p'.dot q' ≠ 0 := by
  rcases first with rfl | rfl <;> rcases second with rfl | rfl <;>
    simpa only [neg_dot, dot_neg, neg_neg, ne_eq, neg_eq_zero] using oblique

variable [ExactScalar α] {p q p' q' : Quaternion α}

theorem normalized (same : p.SameTurn q) : p.normalized.SameTurn q.normalized := by
  rcases same with rfl | rfl
  · exact .refl _
  · exact q.normalized_neg

/-- The sign of the far end makes no difference, that of the near end is the sign of the result. -/
theorem slerpShortest (first : p'.SameTurn p) (second : q'.SameTurn q) (oblique : p.dot q ≠ 0)
    (share : α) : (p'.slerpShortest q' share).SameTurn (p.slerpShortest q share) := by
  have far : p.slerpShortest q' share = p.slerpShortest q share := by
    rcases second with rfl | rfl
    · rfl
    · exact slerpShortest_neg oblique share
  have obliqueToo : p.dot q' ≠ 0 := dot_ne_zero (.refl p) second oblique
  rw [← far]
  rcases first with rfl | rfl
  · exact .refl _
  · exact .inr (neg_slerpShortest obliqueToo share)

end Quaternion.SameTurn

namespace Motion.SameMove

variable {α : Type}

theorem act_eq [CommRing α] {left right : Motion α} (same : left.SameMove right)
    (point : Vector3 α) : left.act point = right.act point := by
  rw [act, act, same.rotation.rotate_eq, same.offset]

theorem mix [ExactScalar α] {before after before' after' : Motion α}
    (first : before'.SameMove before) (second : after'.SameMove after)
    (oblique : before.rotation.dot after.rotation ≠ 0) (share : α) :
    (Sample.mix before' after' share).SameMove (Sample.mix before after share) where
  offset := by
    show before'.offset.lerp after'.offset share = before.offset.lerp after.offset share
    rw [first.offset, second.offset]
  rotation := (first.rotation.slerpShortest second.rotation oblique share).normalized

end Motion.SameMove

namespace Sample

variable {α : Type} [ExactScalar α] {before after before' after' : Sample α} {time : Stamp}

/-- Samples given by other signs are interpolated to the same motion. -/
theorem interpolate_sameMove (first : before'.SameMoment before)
    (second : after'.SameMoment after) (started : before.stamp ≤ time)
    (unfinished : time ≤ after.stamp)
    (oblique : before.motion.rotation.dot after.motion.rotation ≠ 0) :
    ∃ motion motion', before.interpolate after time = .ok motion ∧
      before'.interpolate after' time = .ok motion' ∧ motion'.SameMove motion ∧
      ∀ point, motion'.act point = motion.act point := by
  have other := before'.interpolates after' time
  have interpolates := before.interpolates after time
  generalize before.interpolate after time = answer at interpolates ⊢
  cases interpolates with
  | outside missed => exact absurd ⟨started, unfinished⟩ missed
  | start here _ =>
      have answered := other.eq_start (here.trans first.stamp.symm) (second.stamp ▸ unfinished)
      exact ⟨_, _, rfl, answered, first.motion, first.motion.act_eq⟩
  | stop here longer =>
      have apart : before'.stamp < after'.stamp := by rwa [first.stamp, second.stamp]
      have answered := other.eq_stop (here.trans second.stamp.symm) apart
      exact ⟨_, _, rfl, answered, second.motion, second.motion.act_eq⟩
  | between later earlier =>
      have answered := other.eq_mix (first.stamp ▸ later) (second.stamp ▸ earlier)
      rw [first.stamp, second.stamp] at answered
      have mixed := first.motion.mix second.motion oblique (share before.stamp after.stamp time)
      exact ⟨_, _, rfl, answered, mixed, mixed.act_eq⟩

/-- Half way between a rotation and its negative, with the first end given by the other sign. -/
theorem interpolate_sameMove_halfway :
    let turn : Quaternion ℚ := ⟨0, 0, 3 / 5, 4 / 5⟩
    let before : Sample ℚ := ⟨⟨0⟩, ⟨0, turn⟩⟩
    let after : Sample ℚ := ⟨⟨100⟩, ⟨⟨4, 0, 0⟩, -turn⟩⟩
    let other : Sample ℚ := ⟨⟨0⟩, ⟨0, -turn⟩⟩
    let time : Stamp := ⟨50⟩
    other.SameMoment before ∧ after.SameMoment after ∧ before.stamp ≤ time ∧ time ≤ after.stamp ∧
      before.motion.rotation.dot after.motion.rotation ≠ 0 ∧
      ∃ motion motion', before.interpolate after time = .ok motion ∧
        other.interpolate after time = .ok motion' ∧ motion'.SameMove motion ∧
        ∀ point, motion'.act point = motion.act point := by
  intro turn before after other time
  have first : other.SameMoment before := ⟨rfl, rfl, .inr rfl⟩
  have second : after.SameMoment after := ⟨rfl, rfl, .refl _⟩
  have started : before.stamp ≤ time := by decide
  have unfinished : time ≤ after.stamp := by decide
  have oblique : before.motion.rotation.dot after.motion.rotation ≠ 0 := by decide +kernel
  exact ⟨first, second, started, unfinished, oblique,
    interpolate_sameMove first second started unfinished oblique⟩

end Sample

end FrameForest
