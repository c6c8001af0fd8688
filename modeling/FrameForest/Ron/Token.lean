import FrameForest.Decimal.Literal

/-!
# Tokens of RON text

The scanner is a transducer: it reads one character at a time, and every state
says which tokens that character completes and which state comes next.  Blanks,
line comments and nested block comments separate tokens and are dropped.
-/

namespace FrameForest.Ron

/-- A raw name has `r#` in front and is never a reserved word. -/
structure Name where
  identifier : String
  raw : Bool
  deriving DecidableEq, Repr

inductive Token where
  /-- One of the characters `( ) [ ] { } , : # !`. -/
  | mark (symbol : Char)
  /-- A pair of parentheses with nothing in between, not even a blank. -/
  | unit
  | name (name : Name)
  /-- A number as it is written; whether it is one is for the reader to say. -/
  | number (literal : String)
  | text (content : String)
  | character (value : Char)
  deriving DecidableEq, Repr

def isBlank (c : Char) : Bool :=
  c = ' ' || c = '\t' || c = '\n' || c = '\r'

def isMark (c : Char) : Bool :=
  "()[]\x7b\x7d,:#!".toList.contains c

def isNameStart (c : Char) : Bool :=
  (decide ('a' ≤ c) && decide (c ≤ 'z')) || (decide ('A' ≤ c) && decide (c ≤ 'Z')) || c = '_'

def isNamePart (c : Char) : Bool :=
  isNameStart c || Decimal.isDigit c

/-- What may stand in a number after its first character, and in a raw name. -/
def isLoosePart (c : Char) : Bool :=
  isNamePart c || c = '.' || c = '+' || c = '-'

def isNumberStart (c : Char) : Bool :=
  Decimal.isDigit c || c = '.' || c = '+' || c = '-'

/-- What an escape sequence is part of; the characters read before it stand in reverse. -/
inductive Literal where
  | text (content : List Char)
  | character
  deriving DecidableEq, Repr

/-- Where the scanner stands.  The characters of an unfinished token stand in reverse. -/
inductive State where
  | idle
  /-- After an opening parenthesis. -/
  | opened
  | slash
  | lineComment
  /-- Inside of `depth + 1` comments, after a character that may be half of a delimiter. -/
  | blockComment (depth : Nat) (last : Char)
  | name (identifier : List Char)
  | rawName (identifier : List Char)
  | number (literal : List Char)
  | text (content : List Char)
  /-- After `r` and some `#`. -/
  | rawStart (hashes : Nat)
  | rawText (hashes : Nat) (content : List Char)
  | characterStart
  | characterEnd (value : Char)
  | escape (literal : Literal)
  | escapeHex (literal : Literal) (missing value : Nat)
  | escapeCodeStart (literal : Literal)
  | escapeCode (literal : Literal) (count value : Nat)
  deriving DecidableEq, Repr

/-- Goes on with a literal after one of its characters. -/
def Literal.resume (literal : Literal) (c : Char) : State :=
  match literal with
  | text content => .text (c :: content)
  | character => .characterEnd c

/-- The characters that a letter after a backslash stands for. -/
def simpleEscapes : List (Char × Char) :=
  [('\'', '\''), ('"', '"'), ('\\', '\\'), ('n', '\n'), ('r', '\r'), ('t', '\t'),
    ('0', '\x00')]

/-- The text of a token from its characters in reverse. -/
def spelled (reversed : List Char) : String :=
  String.ofList reversed.reverse

namespace State

/-- Starts a token. -/
def start (c : Char) : Option (List Token × State) :=
  if isBlank c then some ([], idle)
  else if c = '/' then some ([], slash)
  else if c = '(' then some ([], opened)
  else if isMark c then some ([.mark c], idle)
  else if isNameStart c then some ([], name [c])
  else if isNumberStart c then some ([], number [c])
  else if c = '"' then some ([], text [])
  else if c = '\'' then some ([], characterStart)
  else none

/-- Ends a token in front of a character that starts the next one. -/
def endToken (token : Token) (c : Char) : Option (List Token × State) :=
  (start c).map fun (tokens, next) => (token :: tokens, next)

def stepBlockComment (depth : Nat) (last c : Char) : State :=
  if last = '/' ∧ c = '*' then blockComment (depth + 1) ' '
  else if last = '*' ∧ c = '/' then
    match depth with
    | 0 => idle
    | depth + 1 => blockComment depth ' '
  else blockComment depth c

/-- A raw text ends with a quote and as many `#` as stand in front of it. -/
def stepRawText (hashes : Nat) (content : List Char) (c : Char) : List Token × State :=
  let read := c :: content
  let ending := List.replicate hashes '#' ++ ['"']
  if ending.isPrefixOf read then ([.text (spelled (read.drop ending.length))], idle)
  else ([], rawText hashes read)

def step (state : State) (c : Char) : Option (List Token × State) :=
  match state with
  | idle => start c
  | opened => if c = ')' then some ([.unit], idle) else endToken (.mark '(') c
  | slash =>
    if c = '/' then some ([], lineComment)
    else if c = '*' then some ([], blockComment 0 ' ')
    else none
  | lineComment => some ([], if c = '\n' then idle else lineComment)
  | blockComment depth last => some ([], stepBlockComment depth last c)
  | name identifier =>
    if isNamePart c then some ([], name (c :: identifier))
    else if identifier = ['r'] ∧ c = '"' then some ([], rawText 0 [])
    else if identifier = ['r'] ∧ c = '#' then some ([], rawStart 1)
    else endToken (.name ⟨spelled identifier, false⟩) c
  | rawName identifier =>
    if isLoosePart c then some ([], rawName (c :: identifier))
    else endToken (.name ⟨spelled identifier, true⟩) c
  | number literal =>
    if isLoosePart c then some ([], number (c :: literal))
    else endToken (.number (spelled literal)) c
  | text content =>
    if c = '"' then some ([.text (spelled content)], idle)
    else if c = '\\' then some ([], escape (.text content))
    else some ([], text (c :: content))
  | rawStart hashes =>
    if c = '#' then some ([], rawStart (hashes + 1))
    else if c = '"' then some ([], rawText hashes [])
    else if hashes = 1 ∧ isLoosePart c then some ([], rawName [c])
    else none
  | rawText hashes content => some (stepRawText hashes content c)
  | characterStart =>
    if c = '\\' then some ([], escape .character)
    else if c = '\'' then none
    else some ([], characterEnd c)
  | characterEnd value => if c = '\'' then some ([.character value], idle) else none
  | escape literal =>
    if c = 'x' then some ([], escapeHex literal 1 0)
    else if c = 'u' then some ([], escapeCodeStart literal)
    else (simpleEscapes.lookup c).map fun meant => ([], literal.resume meant)
  | escapeHex literal missing value => do
    let digit ← Decimal.digitValue? c
    let value := value * 16 + digit
    match missing with
    | 0 => some ([], literal.resume (Char.ofNat value))
    | missing + 1 => some ([], escapeHex literal missing value)
  | escapeCodeStart literal => if c = '\x7b' then some ([], escapeCode literal 0 0) else none
  | escapeCode literal count value =>
    if c = '\x7d' then
      if 0 < count ∧ value.isValidChar then some ([], literal.resume (Char.ofNat value)) else none
    else if count < 6 then do
      let digit ← Decimal.digitValue? c
      some ([], escapeCode literal (count + 1) (value * 16 + digit))
    else none

/-- The token that the end of the text completes. -/
def finish : State → Option (List Token)
  | idle | lineComment => some []
  | opened => some [.mark '(']
  | name identifier => some [.name ⟨spelled identifier, false⟩]
  | rawName identifier => some [.name ⟨spelled identifier, true⟩]
  | number literal => some [.number (spelled literal)]
  | _ => none

end State

/-- A state with the tokens completed before it, the newest first. -/
structure Scanner where
  tokens : List Token
  state : State
  deriving DecidableEq, Repr

namespace Scanner

def step? (scanner : Scanner) (c : Char) : Option Scanner := do
  let (completed, state) ← scanner.state.step c
  some ⟨completed.reverse ++ scanner.tokens, state⟩

def finish? (scanner : Scanner) : Option (List Token) :=
  scanner.state.finish.map (scanner.tokens.reverse ++ ·)

end Scanner

/-- The tokens of a text. -/
def scan (text : String) : Option (List Token) := do
  let scanner ← text.toList.foldlM Scanner.step? ⟨[], .idle⟩
  scanner.finish?

end FrameForest.Ron
