/-!
# Documents

Documents are the values in which data is exchanged with other programs: they
tell by themselves what is a number, a text, a list or a record.  A type that
can be exchanged says how it is read and written.
-/

namespace FrameForest

inductive Document where
  | null
  | boolean (value : Bool)
  | integer (value : Int)
  | real (value : Float)
  | text (value : String)
  | list (items : List Document)
  | record (fields : List (String × Document))
  deriving Inhabited

namespace Document

/-- The value of a field of a record. -/
def find? (document : Document) (name : String) : Option Document :=
  match document with
  | record fields => fields.lookup name
  | _ => none

/-- A part of a structured value: a field of a record, or an item of a list in the order of the
fields. -/
def part? (document : Document) (name : String) (position : Nat) : Option Document :=
  match document with
  | record fields => fields.lookup name
  | list items => items[position]?
  | _ => none

/-- A record, or a list with one item for each of `count` fields. -/
def isStructure (count : Nat) : Document → Bool
  | record _ => true
  | list items => items.length == count
  | _ => false

/-- A record, or a list with items for the first of `count` fields. -/
def isPartialStructure (count : Nat) : Document → Bool
  | record _ => true
  | list items => decide (items.length ≤ count)
  | _ => false

def text? : Document → Option String
  | text value => some value
  | _ => none

def items? : Document → Option (List Document)
  | list items => some items
  | _ => none

/-- An integer of 64 bits without sign. -/
def word? : Document → Option UInt64
  | integer (.ofNat value) => if value < UInt64.size then some (UInt64.ofNat value) else none
  | _ => none

def double? : Document → Option Float
  | integer value => some (Float.ofInt value)
  | real value => some value
  | _ => none

/-- A choice without data: its name, or a record that gives the name nothing. -/
def choice? : Document → Option String
  | text name => some name
  | record [(name, null)] => some name
  | _ => none

end Document

class Exchanged (β : Type) where
  read? : Document → Option β
  write : β → Document

namespace Exchanged

variable {β : Type}

/-- The exchange of a type whose values have names. -/
@[reducible] def byName [DecidableEq β] (names : List (β × String)) : Exchanged β where
  read? document := do
    let name ← document.choice?
    (names.find? fun entry => entry.2 = name).map Prod.fst
  write value := .text ((names.lookup value).getD "")

/-- Reads a part that has to be there. -/
def required? [Exchanged β] (document : Document) (name : String) (position : Nat) : Option β :=
  (document.part? name position).bind read?

/-- Reads a part that has a standard value. -/
def optional? [Exchanged β] (document : Document) (name : String) (position : Nat)
    (standard : β) : Option β :=
  match document.part? name position with
  | none => some standard
  | some part => read? part

instance : Exchanged String := ⟨Document.text?, .text⟩

instance : Exchanged Float := ⟨Document.double?, .real⟩

instance : Exchanged UInt64 := ⟨Document.word?, fun value => .integer value.toNat⟩

instance [Exchanged β] : Exchanged (List β) where
  read? document := do
    let items ← document.items?
    items.mapM read?
  write items := .list (items.map write)

instance [Exchanged β] : Exchanged (Option β) where
  read?
    | .null => some none
    | document => (read? document).map some
  write
    | none => .null
    | some value => Exchanged.write value

instance [Exchanged β] {count : Nat} : Exchanged (Vector β count) where
  read? document := do
    let items : List β ← read? document
    if size : items.length = count then some ⟨items.toArray, by simpa using size⟩ else none
  write items := write items.toList

end Exchanged

end FrameForest
