import FrameForest.Decimal.Literal
import FrameForest.Document.Basic

/-!
# Documents from JSON

A number without point and exponent is an integer as long as 64 bits hold it,
and every other number is a double.  The reader takes characters from the front
and is given as many steps as it can need.
-/

namespace FrameForest.Document

namespace Json

def skipBlanks (chars : List Char) : List Char :=
  chars.dropWhile fun c => c = ' ' || c = '\t' || c = '\n' || c = '\r'

/-- The number written by four hexadecimal digits. -/
def codeUnit? (chars : List Char) : Option (Nat × List Char) :=
  match chars with
  | a :: b :: c :: d :: rest => do
    let value ← [a, b, c, d].foldlM
      (fun value digit => (Decimal.digitValue? digit).map (value * 16 + ·)) 0
    some (value, rest)
  | _ => none

/-- The character of an escape in code units, of which a pair may be needed. -/
def escapedCode? (chars : List Char) : Option (Char × List Char) := do
  let (unit, rest) ← codeUnit? chars
  if 0xD800 ≤ unit ∧ unit < 0xDC00 then
    match rest with
    | '\\' :: 'u' :: rest =>
      let (low, rest) ← codeUnit? rest
      if 0xDC00 ≤ low ∧ low < 0xE000 then
        some (Char.ofNat (0x10000 + (unit - 0xD800) * 0x400 + (low - 0xDC00)), rest)
      else none
    | _ => none
  else if unit.isValidChar then some (Char.ofNat unit, rest)
  else none

def simpleEscapes : List (Char × Char) :=
  [('"', '"'), ('\\', '\\'), ('/', '/'), ('n', '\n'), ('r', '\r'), ('t', '\t'),
    ('b', '\x08'), ('f', '\x0c')]

/-- Reads a text behind its opening quote. -/
def readText (steps : Nat) (content : List Char) (chars : List Char) :
    Option (String × List Char) :=
  match steps, chars with
  | _, '"' :: rest => some (String.ofList content.reverse, rest)
  | steps + 1, '\\' :: 'u' :: rest => do
    let (c, rest) ← escapedCode? rest
    readText steps (c :: content) rest
  | steps + 1, '\\' :: letter :: rest => do
    let c ← simpleEscapes.lookup letter
    readText steps (c :: content) rest
  | steps + 1, c :: rest => readText steps (c :: content) rest
  | _, _ => none

/-- The number that a literal stands for. -/
def number? (literal : List Char) : Option Document := do
  let value ← Decimal.literal? literal
  let (negative, digits) := match literal with
    | '-' :: digits => (true, digits)
    | digits => (false, digits)
  let count := Decimal.natural digits
  if !digits.all Decimal.isDigit then some (.real value)
  else if negative then
    some (if 0 < count ∧ count ≤ UInt64.size / 2 then .integer (-count) else .real value)
  else
    some (if count < UInt64.size then .integer count else .real value)

def isNumberPart (c : Char) : Bool :=
  Decimal.isDigit c || c = '-' || c = '+' || c = '.' || c = 'e' || c = 'E'

mutual

def readValue (steps : Nat) (chars : List Char) : Option (Document × List Char) :=
  match steps with
  | 0 => none
  | steps + 1 =>
    match skipBlanks chars with
    | 'n' :: 'u' :: 'l' :: 'l' :: rest => some (.null, rest)
    | 't' :: 'r' :: 'u' :: 'e' :: rest => some (.boolean true, rest)
    | 'f' :: 'a' :: 'l' :: 's' :: 'e' :: rest => some (.boolean false, rest)
    | '"' :: rest => do
      let (content, rest) ← readText rest.length [] rest
      some (.text content, rest)
    | '[' :: rest =>
      match skipBlanks rest with
      | ']' :: rest => some (.list [], rest)
      | rest => do
        let (items, rest) ← readItems steps rest
        some (.list items, rest)
    | '\x7b' :: rest =>
      match skipBlanks rest with
      | '\x7d' :: rest => some (.record [], rest)
      | rest => do
        let (fields, rest) ← readFields steps rest
        some (.record fields, rest)
    | chars => do
      let value ← number? (chars.takeWhile isNumberPart)
      some (value, chars.dropWhile isNumberPart)

/-- Reads items up to the closing bracket. -/
def readItems (steps : Nat) (chars : List Char) : Option (List Document × List Char) :=
  match steps with
  | 0 => none
  | steps + 1 => do
    let (item, rest) ← readValue steps chars
    match skipBlanks rest with
    | ',' :: rest =>
      let (items, rest) ← readItems steps rest
      some (item :: items, rest)
    | ']' :: rest => some ([item], rest)
    | _ => none

/-- Reads fields up to the closing brace. -/
def readFields (steps : Nat) (chars : List Char) : Option (List (String × Document) × List Char) :=
  match steps with
  | 0 => none
  | steps + 1 => do
    match skipBlanks chars with
    | '"' :: rest =>
      let (name, rest) ← readText rest.length [] rest
      match skipBlanks rest with
      | ':' :: rest =>
        let (value, rest) ← readValue steps rest
        match skipBlanks rest with
        | ',' :: rest =>
          let (fields, rest) ← readFields steps rest
          some ((name, value) :: fields, rest)
        | '\x7d' :: rest => some ([(name, value)], rest)
        | _ => none
      | _ => none
    | _ => none

end

end Json

/-- Reads a whole text. -/
def ofJson? (text : String) : Option Document := do
  let chars := text.toList
  let (document, rest) ← Json.readValue (2 * chars.length + 2) chars
  if (Json.skipBlanks rest).isEmpty then some document else none

end FrameForest.Document
