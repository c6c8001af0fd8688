import FrameForest.Geometry.Quaternion
import FrameForest.Decimal.Fixed

/-!
# Rigid motions

A motion turns a point and then shifts it.  The motion of an edge from a parent
frame to a child frame takes coordinates of the child to coordinates of the
parent.  A pose is the same data: the placement of an object in a frame.
-/

namespace FrameForest

structure Motion (α : Type) where
  offset : Vector3 α
  rotation : Quaternion α
  deriving DecidableEq, BEq, Repr

namespace Motion

variable {α β : Type}

def map (f : α → β) (motion : Motion α) : Motion β :=
  ⟨motion.offset.map f, motion.rotation.map f⟩

instance [Zero α] [One α] : One (Motion α) := ⟨⟨0, 1⟩⟩

/-- The motion that shifts and does not turn. -/
def shift [Zero α] [One α] (offset : Vector3 α) : Motion α :=
  ⟨offset, 1⟩

def act [Add α] [Sub α] [Mul α] (motion : Motion α) (point : Vector3 α) : Vector3 α :=
  motion.rotation.rotate point + motion.offset

/-- The product applies its right factor first. -/
instance [Add α] [Sub α] [Mul α] : Mul (Motion α) :=
  ⟨fun outer inner =>
    { offset := outer.rotation.rotate inner.offset + outer.offset
      rotation := outer.rotation * inner.rotation }⟩

/-- The way back, for a rotation of unit norm: the conjugate is not divided by the norm. -/
def inverse [Add α] [Sub α] [Mul α] [Neg α] (motion : Motion α) : Motion α :=
  { offset := -motion.rotation.conjugate.rotate motion.offset
    rotation := motion.rotation.conjugate }

variable [Scalar α]

def normalized (motion : Motion α) : Motion α :=
  { motion with rotation := motion.rotation.normalized }

/-- The motion with the given parts, its rotation normalised. -/
def ofParts (offset : Vector3 α) (rotation : Quaternion α) : Motion α :=
  normalized ⟨offset, rotation⟩

/-- All components agree up to `bound`, where a rotation and its negative count as the same. -/
def within (bound : α) (left right : Motion α) : Bool :=
  (left.rotation.within bound right.rotation || left.rotation.within bound (-right.rotation)) &&
    left.offset.within bound right.offset

/-- Offset and rotation with four decimals each. -/
def text (motion : Motion Float) : String :=
  let digits := Decimal.fixed 4
  let t := motion.offset
  let q := motion.rotation
  s!"t=({digits t.x}, {digits t.y}, {digits t.z}) " ++
    s!"q=({digits q.x}, {digits q.y}, {digits q.z}, {digits q.w})"

@[simp] theorem mul_offset [Add β] [Sub β] [Mul β] (outer inner : Motion β) :
    (outer * inner).offset = outer.act inner.offset := rfl

@[simp] theorem mul_rotation [Add β] [Sub β] [Mul β] (outer inner : Motion β) :
    (outer * inner).rotation = outer.rotation * inner.rotation := rfl

end Motion

/-- The placement of an object in a frame. -/
abbrev Pose := Motion

end FrameForest
