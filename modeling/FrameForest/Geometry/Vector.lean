import FrameForest.Scalar

/-!
# Vectors of three coordinates

Sums are taken from left to right, which matters for doubles.
-/

namespace FrameForest

structure Vector3 (α : Type) where
  x : α
  y : α
  z : α
  deriving DecidableEq, BEq, Repr

namespace Vector3

variable {α β : Type}

def map (f : α → β) (v : Vector3 α) : Vector3 β :=
  ⟨f v.x, f v.y, f v.z⟩

instance [Zero α] : Zero (Vector3 α) := ⟨⟨0, 0, 0⟩⟩

instance [Add α] : Add (Vector3 α) :=
  ⟨fun v w => ⟨v.x + w.x, v.y + w.y, v.z + w.z⟩⟩

instance [Neg α] : Neg (Vector3 α) := ⟨map Neg.neg⟩

def scale [Mul α] (v : Vector3 α) (factor : α) : Vector3 α :=
  ⟨v.x * factor, v.y * factor, v.z * factor⟩

def dot [Add α] [Mul α] (v w : Vector3 α) : α :=
  v.x * w.x + v.y * w.y + v.z * w.z

def cross [Sub α] [Mul α] (v w : Vector3 α) : Vector3 α :=
  ⟨v.y * w.z - w.y * v.z, v.z * w.x - w.z * v.x, v.x * w.y - w.x * v.y⟩

/-- The point a given share of the way from `start` to `stop`. -/
def lerp [Add α] [Sub α] [Mul α] [One α] (start stop : Vector3 α) (share : α) : Vector3 α :=
  start.scale (1 - share) + stop.scale share

/-- Every coordinate differs by at most `bound`. -/
def within [Scalar α] (bound : α) (v w : Vector3 α) : Bool :=
  Scalar.within bound v.x w.x && Scalar.within bound v.y w.y && Scalar.within bound v.z w.z

/-- The same point on the plane at height zero. -/
def onGround [Zero α] (v : Vector3 α) : Vector3 α :=
  { v with z := 0 }

section Coordinates

variable (v w : Vector3 α)

@[simp] theorem zero_x [Zero α] : (0 : Vector3 α).x = 0 := rfl
@[simp] theorem zero_y [Zero α] : (0 : Vector3 α).y = 0 := rfl
@[simp] theorem zero_z [Zero α] : (0 : Vector3 α).z = 0 := rfl
@[simp] theorem add_x [Add α] : (v + w).x = v.x + w.x := rfl
@[simp] theorem add_y [Add α] : (v + w).y = v.y + w.y := rfl
@[simp] theorem add_z [Add α] : (v + w).z = v.z + w.z := rfl
@[simp] theorem neg_x [Neg α] : (-v).x = -v.x := rfl
@[simp] theorem neg_y [Neg α] : (-v).y = -v.y := rfl
@[simp] theorem neg_z [Neg α] : (-v).z = -v.z := rfl

end Coordinates

end Vector3

end FrameForest
