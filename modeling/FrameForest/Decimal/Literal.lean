/-!
# Reading decimal literals

A decimal literal is an optional sign, digits with at most one point among them
and an optional exponent.  Its value is the nearest double.
-/

namespace FrameForest.Decimal

def isDigit (c : Char) : Bool :=
  decide ('0' ≤ c) && decide (c ≤ '9')

/-- The value of a digit in bases up to sixteen. -/
def digitValue? (c : Char) : Option Nat :=
  if isDigit c then some (c.toNat - '0'.toNat)
  else if 'a' ≤ c ∧ c ≤ 'f' then some (c.toNat - 'a'.toNat + 10)
  else if 'A' ≤ c ∧ c ≤ 'F' then some (c.toNat - 'A'.toNat + 10)
  else none

/-- The number written by decimal digits, the highest first. -/
def natural (digits : List Char) : Nat :=
  digits.foldl (fun value c => value * 10 + (c.toNat - '0'.toNat)) 0

/-- The double nearest to `mantissa` times a power of ten.  Powers beyond the range of doubles are
settled without computing them. -/
def scaled (mantissa : Nat) (exponent : Int) : Float :=
  if mantissa = 0 ∨ exponent < -400 - (mantissa.log2 : Int) then 0.0
  else if 400 < exponent then 1.0 / 0.0
  else Float.ofScientific mantissa (exponent < 0) exponent.natAbs

/-- The digits of an exponent after its mark, with their sign. -/
def exponent? (chars : List Char) : Option Int :=
  let (negative, digits) := match chars with
    | '-' :: digits => (true, digits)
    | '+' :: digits => (false, digits)
    | digits => (false, digits)
  if digits.isEmpty || !digits.all isDigit then none
  else some (if negative then -(natural digits : Int) else natural digits)

/-- The value of a literal without sign. -/
def unsigned? (chars : List Char) : Option Float := do
  let whole := chars.takeWhile isDigit
  let (fraction, rest) := match chars.dropWhile isDigit with
    | '.' :: rest => (rest.takeWhile isDigit, rest.dropWhile isDigit)
    | rest => ([], rest)
  if whole.isEmpty && fraction.isEmpty then none
  else
    let exponent ← match rest with
      | [] => some 0
      | 'e' :: rest => exponent? rest
      | 'E' :: rest => exponent? rest
      | _ => none
    some (scaled (natural (whole ++ fraction)) (exponent - fraction.length))

/-- The value of a literal. -/
def literal? (chars : List Char) : Option Float :=
  match chars with
  | '-' :: rest => (unsigned? rest).map fun value => -value
  | '+' :: rest => unsigned? rest
  | rest => unsigned? rest

end FrameForest.Decimal
