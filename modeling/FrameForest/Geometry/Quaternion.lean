import FrameForest.Geometry.Vector

/-!
# Quaternions

A quaternion is stored with its imaginary part first.  `rotate` and the product
are the usual formulas written out, in the order in which doubles add them up;
neither assumes that the quaternion has unit norm.
-/

namespace FrameForest

structure Quaternion (α : Type) where
  x : α
  y : α
  z : α
  w : α
  deriving DecidableEq, BEq, Repr

namespace Quaternion

variable {α β : Type}

def map (f : α → β) (q : Quaternion α) : Quaternion β :=
  ⟨f q.x, f q.y, f q.z, f q.w⟩

instance [Zero α] [One α] : One (Quaternion α) := ⟨⟨0, 0, 0, 1⟩⟩

def scale [Mul α] (q : Quaternion α) (factor : α) : Quaternion α :=
  ⟨q.x * factor, q.y * factor, q.z * factor, q.w * factor⟩

instance [Add α] : Add (Quaternion α) :=
  ⟨fun p q => ⟨p.x + q.x, p.y + q.y, p.z + q.z, p.w + q.w⟩⟩

instance [Mul α] [Neg α] [One α] : Neg (Quaternion α) := ⟨fun q => q.scale (-1)⟩

instance [Add α] [Sub α] [Mul α] : Mul (Quaternion α) :=
  ⟨fun p q =>
    { x := p.w * q.x + p.x * q.w + p.y * q.z - p.z * q.y
      y := p.w * q.y - p.x * q.z + p.y * q.w + p.z * q.x
      z := p.w * q.z + p.x * q.y - p.y * q.x + p.z * q.w
      w := p.w * q.w - p.x * q.x - p.y * q.y - p.z * q.z }⟩

def dot [Add α] [Mul α] (p q : Quaternion α) : α :=
  p.x * q.x + p.y * q.y + p.z * q.z + p.w * q.w

def conjugate [Neg α] (q : Quaternion α) : Quaternion α :=
  ⟨-q.x, -q.y, -q.z, q.w⟩

def imaginary (q : Quaternion α) : Vector3 α :=
  ⟨q.x, q.y, q.z⟩

def rotate [Add α] [Sub α] [Mul α] (q : Quaternion α) (point : Vector3 α) : Vector3 α :=
  let axis := q.imaginary
  let along := point.dot axis
  point.scale (q.w * q.w - axis.dot axis) + axis.scale (along + along)
    + (axis.cross point).scale (q.w + q.w)

variable [Scalar α]

def norm (q : Quaternion α) : α :=
  Scalar.sqrt (q.dot q)

/-- Every component times the reciprocal of the norm. -/
def unit (q : Quaternion α) : Quaternion α :=
  q.scale (1 / q.norm)

/-- A norm that can be divided by: finite and not tiny. -/
def HasDirection (q : Quaternion α) : Prop :=
  Scalar.isFinite q.norm = true ∧ ¬q.norm < 1e-9

instance (q : Quaternion α) : Decidable q.HasDirection :=
  inferInstanceAs (Decidable (_ ∧ _))

/-- Every component divided by the norm; a quaternion without direction gives the neutral one. -/
def normalized (q : Quaternion α) : Quaternion α :=
  if q.HasDirection then ⟨q.x / q.norm, q.y / q.norm, q.z / q.norm, q.w / q.norm⟩ else 1

/-- The angle of the rotation around its axis; zero when the axis is too short to tell. -/
def angle (q : Quaternion α) : α :=
  let length := Scalar.sqrt (q.imaginary.dot q.imaginary)
  if (1e-8 : α) ≤ length then
    Scalar.arctan2 length q.w + Scalar.arctan2 length q.w
  else
    0

/-- Every component differs by at most `bound`. -/
def within (bound : α) (p q : Quaternion α) : Bool :=
  Scalar.within bound p.x q.x && Scalar.within bound p.y q.y &&
    Scalar.within bound p.z q.z && Scalar.within bound p.w q.w

end Quaternion

end FrameForest
