import FrameForest.Decimal.Literal

/-!
# Numbers of RON text

Integers are decimal or carry one of the bases `0x`, `0b` and `0o`; their digits
may be separated by `_`.  Floating-point numbers are decimal literals or the
names of an infinity or of the undefined value.
-/

namespace FrameForest.Ron

/-- The value of digits in a base; `_` may stand anywhere but in front. -/
def digits? (base : Nat) (digits : List Char) : Option Nat :=
  if digits.isEmpty ∨ digits.head? = some '_' then none
  else
    (digits.filter (· ≠ '_')).foldlM
      (fun value c => do
        let digit ← Decimal.digitValue? c
        if digit < base then some (value * base + digit) else none)
      0

/-- The value of an integer without sign. -/
def natural? (literal : List Char) : Option Nat :=
  match literal with
  | '0' :: 'x' :: digits => digits? 16 digits
  | '0' :: 'b' :: digits => digits? 2 digits
  | '0' :: 'o' :: digits => digits? 8 digits
  | digits => digits? 10 digits

/-- An integer without sign that fits into 64 bits. -/
def word? (literal : String) : Option UInt64 := do
  let value ← natural? literal.toList
  if value < UInt64.size then some (UInt64.ofNat value) else none

/-- The values that have no decimal literal, under their names. -/
def special? (literal : String) : Option Float :=
  if literal ∈ ["inf", "+inf"] then some (1.0 / 0.0)
  else if literal = "-inf" then some (-1.0 / 0.0)
  else if literal ∈ ["NaN", "+NaN", "-NaN"] then some (0.0 / 0.0)
  else none

/-- The value of a floating-point number. -/
def double? (literal : String) : Option Float :=
  (special? literal).or (Decimal.literal? literal.toList)

/-- An integer of 64 bits, with or without sign. -/
def isInteger (literal : List Char) : Bool :=
  match literal with
  | '-' :: digits => (natural? digits).any (· ≤ UInt64.size / 2)
  | '+' :: digits => (natural? digits).any (· < UInt64.size / 2)
  | digits => (natural? digits).any (· < UInt64.size)

/-- What can be read as a number of some type. -/
def isNumber (literal : String) : Bool :=
  isInteger literal.toList || (double? literal).isSome

end FrameForest.Ron
