/-!
# Scalars

Coordinates of motions are read in an arbitrary number type.  A `Scalar` offers
the field operations, an order that can be tested, and the few functions that
normalisation and spherical interpolation call.  Running code uses doubles;
statements in exact arithmetic choose an ordered field instead.

The algebra of vectors, quaternions and motions asks for the ring operations
only, so it also makes sense over every commutative ring.
-/

namespace FrameForest

class Scalar (α : Type) extends
    Add α, Sub α, Mul α, Div α, Neg α, Zero α, One α, LT α, LE α, OfScientific α where
  decidableLT : DecidableLT α
  decidableLE : DecidableLE α
  /-- Neither an infinity nor an undefined value. -/
  isFinite : α → Bool
  sqrt : α → α
  sin : α → α
  arccos : α → α
  /-- The angle of the point with the given height and width. -/
  arctan2 : α → α → α
  /-- The scalar nearest to a count of nanoseconds. -/
  ofCount : UInt64 → α

namespace Scalar

attribute [reducible, instance] decidableLT decidableLE

variable {α : Type} [Scalar α]

/-- Restricts a value to the range from `low` to `high`; an undefined value stays. -/
def clamp (low high value : α) : α :=
  if value < low then low else if high < value then high else value

/-- The two values differ by at most `bound`; false as soon as one is undefined. -/
def within (bound left right : α) : Bool :=
  decide (left - right ≤ bound) && decide (-(left - right) ≤ bound)

end Scalar

instance : Scalar Float where
  zero := 0.0
  one := 1.0
  decidableLT := inferInstance
  decidableLE := inferInstance
  isFinite := Float.isFinite
  sqrt := Float.sqrt
  sin := Float.sin
  arccos := Float.acos
  arctan2 := Float.atan2
  ofCount := UInt64.toFloat

end FrameForest
