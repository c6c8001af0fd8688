/-!
# Decimal text with a fixed number of places

A double is an integer times a power of two, so its decimal expansion is finite
and rounding it to a given number of places is a division of natural numbers.
Only a value that lies exactly between two decimals is a tie; it goes to the
even neighbour.
-/

namespace FrameForest.Decimal

/-- The quotient rounded to the nearest integer, a tie to the even one. -/
def roundedQuotient (numerator denominator : Nat) : Nat :=
  let quotient := numerator / denominator
  match compare (2 * (numerator % denominator)) denominator with
  | .lt => quotient
  | .gt => quotient + 1
  | .eq => quotient + quotient % 2

/-- Writes `count` units of the last of `places` decimals. -/
def digits (places count : Nat) : String :=
  let unit := Nat.pow 10 places
  let whole := toString (count / unit)
  let rest := toString (count % unit)
  if places = 0 then whole
  else whole ++ "." ++ String.ofList (List.replicate (places - rest.length) '0') ++ rest

/-- A double as a sign and a magnitude; the magnitude of a finite one is a fraction. -/
inductive Magnitude where
  | undefined
  | infinite
  | finite (numerator denominator : Nat)

def isNegative (value : Float) : Bool :=
  value.toBits >>> 63 != 0

/-- The leading bit of a full mantissa, which is not stored. -/
def hiddenBit : Nat := Nat.pow 2 52

def magnitude (value : Float) : Magnitude :=
  let bits := value.toBits.toNat
  let exponent := bits / hiddenBit % 2048
  let fraction := bits % hiddenBit
  if exponent = 2047 then
    if fraction = 0 then .infinite else .undefined
  else if exponent = 0 then
    .finite fraction (Nat.pow 2 1074)
  else
    .finite ((hiddenBit + fraction) * Nat.pow 2 (exponent - 1075)) (Nat.pow 2 (1075 - exponent))

/-- The double with exactly `places` decimals.  A negative value keeps its sign even when all
digits are zero. -/
def fixed (places : Nat) (value : Float) : String :=
  let sign := if isNegative value then "-" else ""
  match magnitude value with
  | .undefined => "NaN"
  | .infinite => sign ++ "inf"
  | .finite numerator denominator =>
    sign ++ digits places (roundedQuotient (numerator * Nat.pow 10 places) denominator)

end FrameForest.Decimal
