import FrameForest.Ron.Number
import FrameForest.Ron.Token

/-!
# Values of RON text

A value is a number, a text, a character, the empty tuple, a name, an optional
value that is present, or a bracketed group of entries.  A number is kept as it
is written, since only its type decides how it is read.  Parentheses hold plain
values or named ones, and a name may stand in front of them as a tag; square
brackets hold plain values, and braces hold pairs.  A comma may follow the last
entry of a group.  A present value stands in parentheses behind `Some`, which
may be left out where the text allows implicit options.

The reader is a pushdown automaton: it takes one token at a time, and its stack
holds the groups that are still open.
-/

namespace FrameForest.Ron

inductive Bracket where
  | round
  | square
  | curly
  deriving DecidableEq, Repr

mutual

inductive Value where
  | number (literal : String)
  | text (content : String)
  | character (value : Char)
  /-- A pair of parentheses with nothing in between. -/
  | unit
  | name (name : Name)
  | optional (content : Value)
  | group (tag : Option Name) (bracket : Bracket) (entries : List Entry)

inductive Entry where
  | plain (value : Value)
  | keyed (key value : Value)

end

mutual

/-- Whether no part of a value stands on a level beyond the limit: the content of an option is one
level below it, an entry is one below its group, and a value is one below its entry. -/
def Value.nestsWithin : Nat → Value → Bool
  | 0, .optional _ | 0, .group _ _ _ => false
  | limit + 1, .optional content => content.nestsWithin limit
  | limit + 1, .group _ _ entries => Entry.allNestWithin limit entries
  | _, _ => true

def Entry.nestsWithin : Nat → Entry → Bool
  | 0, _ => false
  | limit + 1, .plain value => value.nestsWithin limit
  | limit + 1, .keyed key value => key.nestsWithin limit && value.nestsWithin limit

def Entry.allNestWithin (limit : Nat) : List Entry → Bool
  | [] => true
  | entry :: rest => entry.nestsWithin limit && Entry.allNestWithin limit rest

end

/-- How deep the values of a text may nest. -/
def nestingLimit : Nat := 128

namespace Bracket

def opening? (symbol : Char) : Option Bracket :=
  if symbol = '(' then some round
  else if symbol = '[' then some square
  else if symbol = '\x7b' then some curly
  else none

def closing? (symbol : Char) : Option Bracket :=
  if symbol = ')' then some round
  else if symbol = ']' then some square
  else if symbol = '\x7d' then some curly
  else none

end Bracket

namespace Name

/-- The word in front of a value that is present. -/
def present : Name :=
  ⟨"Some", false⟩

/-- Names that stand for a value on their own. -/
def reserved : List String :=
  ["true", "false", "None", "inf", "NaN"]

/-- Whether a name may stand in front of parentheses. -/
def isTag (name : Name) : Bool :=
  name.raw || decide (name.identifier ∉ reserved)

end Name

namespace Entry

def isPlain : Entry → Bool
  | plain _ => true
  | keyed _ _ => false

def isNamed : Entry → Bool
  | keyed (.name _) _ => true
  | _ => false

def isPair : Entry → Bool
  | plain _ => false
  | keyed _ _ => true

end Entry

/-- Whether the entries suit their bracket. -/
def Bracket.admits (bracket : Bracket) (entries : List Entry) : Bool :=
  match bracket with
  | square => entries.all Entry.isPlain
  | curly => entries.all Entry.isPair
  | round => entries.all Entry.isPlain || entries.all Entry.isNamed

/-- The value that a finished group stands for. -/
def Value.ofGroup? (tag : Option Name) (bracket : Bracket) (entries : List Entry) :
    Option Value :=
  if tag = some .present then
    match entries with
    | [.plain content] => some (.optional content)
    | _ => none
  else if bracket.admits entries then some (.group tag bracket entries)
  else none

/-- A group that is still open: the options in front of it, its entries so far, the newest first,
and the key of the next one. -/
structure OpenGroup where
  tag : Option Name
  bracket : Bracket
  options : Nat
  entries : List Entry
  key : Option Value

namespace OpenGroup

def add (group : OpenGroup) (value : Value) : OpenGroup :=
  let entry : Entry :=
    match group.key with
    | none => .plain value
    | some key => .keyed key value
  { group with entries := entry :: group.entries, key := none }

/-- The finished group, if its closing bracket and its entries are right. -/
def close? (group : OpenGroup) (bracket : Bracket) : Option Value :=
  if group.bracket = bracket then Value.ofGroup? group.tag bracket group.entries.reverse else none

/-- Whether the next entry may be a named one. -/
def awaitsName (group : OpenGroup) : Bool :=
  decide (group.bracket = .round) && group.key.isNone

end OpenGroup

/-- What has been read of the innermost entry. -/
inductive Progress where
  /-- Nothing yet, and a closing bracket may follow. -/
  | atEntry
  /-- A key and its colon. -/
  | afterColon
  /-- The word that announces a value. -/
  | afterPresent
  | after (value : Value)

/-- The open groups, the innermost first, the progress in it, and how many options without
parentheses enclose the value that is being read. -/
structure Reader where
  groups : List OpenGroup
  options : Nat
  progress : Progress

namespace Reader

def start : Reader :=
  ⟨[], 0, .afterColon⟩

def openGroup (reader : Reader) (tag : Option Name) (bracket : Bracket) : Reader :=
  ⟨⟨tag, bracket, reader.options, [], none⟩ :: reader.groups, 0, .atEntry⟩

def complete (reader : Reader) (value : Value) : Reader :=
  { reader with progress := .after value }

/-- Takes the first token of a value. -/
def begin? (reader : Reader) (token : Token) : Option Reader :=
  match token with
  | .number literal => if isNumber literal then some (reader.complete (.number literal)) else none
  | .text content => some (reader.complete (.text content))
  | .character c => some (reader.complete (.character c))
  | .unit => some (reader.complete .unit)
  | .name name =>
    if name = .present then some { reader with progress := .afterPresent }
    else some (reader.complete (.name name))
  | .mark symbol => (Bracket.opening? symbol).map (reader.openGroup none)

/-- Takes a closing bracket. -/
def close? (groups : List OpenGroup) (symbol : Char) : Option Reader :=
  match groups with
  | [] => none
  | group :: outer => do
    let bracket ← Bracket.closing? symbol
    let value ← group.close? bracket
    some ⟨outer, group.options, .after value⟩

/-- The value together with the options around it. -/
def enclosed (reader : Reader) (value : Value) : Value :=
  reader.options.repeat .optional value

/-- Takes the mark that ends a value. -/
def separate? (reader : Reader) (value : Value) (symbol : Char) : Option Reader :=
  match reader.groups with
  | [] => none
  | group :: outer =>
    let value := reader.enclosed value
    if symbol = ',' then some ⟨group.add value :: outer, 0, .atEntry⟩
    else if symbol = ':' then
      if group.key.isNone then some ⟨{ group with key := some value } :: outer, 0, .afterColon⟩
      else none
    else close? (group.add value :: outer) symbol

/-- Takes a token behind a complete value. -/
def follow? (reader : Reader) (value : Value) (token : Token) : Option Reader :=
  match value, token with
  | .name name, .unit =>
    if name.isTag then some (reader.complete (.group (some name) .round [])) else none
  | .name name, .mark '(' =>
    if name.isTag then some (reader.openGroup (some name) .round) else none
  | value, .mark symbol => reader.separate? value symbol
  | _, _ => none

/-- Takes a token behind the word that announces a value.  In front of a colon the word is the name
of an entry. -/
def followPresent? (implicitSome : Bool) (reader : Reader) (token : Token) : Option Reader :=
  match token with
  | .unit => none
  | .mark '(' => some (reader.openGroup (some .present) .round)
  | .mark ':' =>
    if reader.options = 0 ∧ reader.groups.head?.any OpenGroup.awaitsName then
      reader.separate? (.name .present) ':'
    else none
  | token => if implicitSome then begin? { reader with options := reader.options + 1 } token else none

def step? (implicitSome : Bool) (reader : Reader) (token : Token) : Option Reader :=
  match reader.progress, token with
  | .after value, token => reader.follow? value token
  | .afterPresent, token => reader.followPresent? implicitSome token
  | .atEntry, .mark symbol => (reader.begin? token).or (close? reader.groups symbol)
  | _, token => reader.begin? token

def finish? (reader : Reader) : Option Value :=
  match reader with
  | ⟨[], _, .after value⟩ => some (reader.enclosed value)
  | _ => none

end Reader

/-- Reads all tokens as one value. -/
def Value.ofTokens? (implicitSome : Bool) (tokens : List Token) : Option Value := do
  let reader ← tokens.foldlM (Reader.step? implicitSome) Reader.start
  let value ← reader.finish?
  if value.nestsWithin nestingLimit then some value else none

/-- Lets `Some` stand in front of a value without parentheses. -/
def implicitSomeExtension : String :=
  "implicit_some"

/-- The extensions that a text may ask for.  The others have no effect on the values read here. -/
def extensions : List String :=
  [implicitSomeExtension, "unwrap_newtypes", "unwrap_variant_newtypes"]

/-- The extensions that lines at the beginning enable, on top of those enabled before, and what
follows these lines; `inside` one of them, the names are still to come. -/
def takeExtensions? (inside : Bool) (enabled : List String) (tokens : List Token) :
    Option (List String × List Token) :=
  match inside, tokens with
  | false, .mark '#' :: .mark '!' :: .mark '[' :: .name word :: .mark '(' :: rest =>
    if word = ⟨"enable", false⟩ then takeExtensions? true enabled rest else none
  | false, .mark '#' :: _ => none
  | false, tokens => some (enabled, tokens)
  | true, .name ⟨extension, _⟩ :: .mark ',' :: .mark ')' :: .mark ']' :: rest =>
    if extension ∈ extensions then takeExtensions? false (extension :: enabled) rest else none
  | true, .name ⟨extension, _⟩ :: .mark ')' :: .mark ']' :: rest =>
    if extension ∈ extensions then takeExtensions? false (extension :: enabled) rest else none
  | true, .name ⟨extension, _⟩ :: .mark ',' :: rest =>
    if extension ∈ extensions then takeExtensions? true (extension :: enabled) rest else none
  | true, _ => none

/-- Reads a whole text, with the given extensions enabled from the start. -/
def Value.ofText? (enabled : List String) (text : String) : Option Value := do
  let tokens ← scan text
  let (enabled, tokens) ← takeExtensions? false enabled tokens
  Value.ofTokens? (decide (implicitSomeExtension ∈ enabled)) tokens

/-- The named values of a group in parentheses, with or without the tag `name` in front. -/
def Value.fields? (name : String) (value : Value) : Option (List (String × Value)) :=
  match value with
  | .unit => some []
  | .group tag .round entries =>
    if tag.all (·.identifier = name) then
      entries.mapM fun entry => match entry with
        | .keyed (.name key) value => some (key.identifier, value)
        | _ => none
    else
      none
  | _ => none

/-- The value of a field that occurs at most once; `default` when it is missing. -/
def field? {β : Type} (fields : List (String × Value)) (key : String) (read : Value → Option β)
    (default : β) : Option β :=
  match fields.filter fun field => field.1 = key with
  | [] => some default
  | [(_, value)] => read value
  | _ => none

end FrameForest.Ron
