import Mathlib.Data.List.Induction
import FrameForest.Proofs.Ron.Scanning

/-!
# How tokens are written

Between the tokens of a text there may be blanks and comments, and a token is
written in one of several ways.  Every text put together like this is scanned as
the tokens that it writes, provided no token is followed by a character that would
still belong to it.
-/

namespace FrameForest.Ron

/-! ## Comments -/

/-- The two characters open or close a block comment. -/
def Delimits (first second : Char) : Prop :=
  first = '/' ∧ second = '*' ∨ first = '*' ∧ second = '/'

instance (first second : Char) : Decidable (Delimits first second) :=
  inferInstanceAs (Decidable (_ ∨ _))

/-- What follows the opening of a block comment up to its end. -/
inductive Comment : List Char → Prop where
  | close : Comment ['*', '/']
  | char {c : Char} {rest : List Char} (after : Comment rest)
      (apart : ∀ next ∈ rest.head?, ¬Delimits c next) : Comment (c :: rest)
  | nested {inner rest : List Char} (inside : Comment inner) (after : Comment rest) :
      Comment ('/' :: '*' :: (inner ++ rest))

namespace State

theorem stepBlockComment_of_apart {depth : Nat} {last c : Char}
    (apart : ¬Delimits last c) :
    stepBlockComment depth last c = .blockComment depth c := by
  unfold stepBlockComment
  rw [if_neg (not_or.1 apart).1, if_neg (not_or.1 apart).2]

/-- Where the scanner goes on behind a block comment with some others around it. -/
def outside : Nat → State
  | 0 => .idle
  | depth + 1 => .blockComment depth ' '

end State

theorem Comment.reads {chars : List Char} (comment : Comment chars) {depth : Nat} {last : Char}
    (apart : ∀ next ∈ chars.head?, ¬Delimits last next) :
    State.Reads (.blockComment depth last) chars [] (.outside depth) := by
  induction comment generalizing depth last with
  | close =>
      have star : State.step (.blockComment depth last) '*' =
          some ([], .blockComment depth '*') := by
        rw [State.step, State.stepBlockComment_of_apart (apart '*' rfl)]
      have slash : State.step (.blockComment depth '*') '/' = some ([], .outside depth) := by
        cases depth <;> rfl
      exact .step star (.step slash .done)
  | @char c rest _ next ih =>
      have now : State.step (.blockComment depth last) c = some ([], .blockComment depth c) := by
        rw [State.step, State.stepBlockComment_of_apart (apart c rfl)]
      exact .step now (ih next)
  | nested _ _ ihInside ihAfter =>
      have slash : State.step (.blockComment depth last) '/' =
          some ([], .blockComment depth '/') := by
        rw [State.step, State.stepBlockComment_of_apart (apart '/' rfl)]
      have star : State.step (.blockComment depth '/') '*' =
          some ([], .blockComment (depth + 1) ' ') := rfl
      have free : ∀ next : Char, ¬Delimits ' ' next := by simp [Delimits]
      exact .step slash (.step star
        ((ihInside fun next _ => free next).append (ihAfter fun next _ => free next)))

/-! ## Escape sequences -/

/-- The value of hexadecimal digits. -/
inductive Codes : List Char → Nat → Prop where
  | nil : Codes [] 0
  | digit {digits : List Char} {value digit : Nat} {c : Char} (before : Codes digits value)
      (valued : Decimal.digitValue? c = some digit) :
      Codes (digits ++ [c]) (value * 16 + digit)

/-- What follows a backslash, and the character that it means. -/
inductive Escape : List Char → Char → Prop where
  | simple {letter meant : Char} (known : simpleEscapes.lookup letter = some meant) :
      Escape [letter] meant
  | byte {high low : Char} {first second : Nat} (highest : Decimal.digitValue? high = some first)
      (lowest : Decimal.digitValue? low = some second) :
      Escape ['x', high, low] (Char.ofNat (first * 16 + second))
  | code {digits : List Char} {value : Nat} (some_digit : digits ≠ []) (few : digits.length ≤ 6)
      (codes : Codes digits value) (valid : value.isValidChar) :
      Escape ('u' :: '\x7b' :: (digits ++ ['\x7d'])) (Char.ofNat value)

theorem Codes.reads {digits : List Char} {value : Nat} (codes : Codes digits value)
    (few : digits.length ≤ 6) (literal : Literal) :
    State.Reads (.escapeCode literal 0 0) digits [] (.escapeCode literal digits.length value) := by
  induction codes with
  | nil => exact .done
  | @digit digits value digit c before valued ih =>
      rw [List.length_append, List.length_singleton] at few ⊢
      have other : c ≠ '\x7d' := by
        rintro rfl
        cases valued
      have now : State.step (.escapeCode literal digits.length value) c =
          some ([], .escapeCode literal (digits.length + 1) (value * 16 + digit)) := by
        rw [State.step, if_neg other, if_pos (by omega), valued]
        rfl
      exact (ih (by omega)).concat now

theorem Escape.reads {letters : List Char} {c : Char} (escape : Escape letters c)
    (literal : Literal) : State.Reads (.escape literal) letters [] (literal.resume c) := by
  cases escape with
  | @simple letter meant known =>
      have notByte : letter ≠ 'x' := by
        rintro rfl
        cases known
      have notCode : letter ≠ 'u' := by
        rintro rfl
        cases known
      have now : State.step (.escape literal) letter = some ([], literal.resume c) := by
        rw [State.step, if_neg notByte, if_neg notCode, known]
        rfl
      exact .step now .done
  | @byte high low first second highest lowest =>
      have letter : State.step (.escape literal) 'x' = some ([], .escapeHex literal 1 0) := rfl
      have half : State.step (.escapeHex literal 1 0) high =
          some ([], .escapeHex literal 0 first) := by
        rw [State.step, highest, Option.bind_eq_bind, Option.bind_some, Nat.zero_mul, Nat.zero_add]
      have whole : State.step (.escapeHex literal 0 first) low =
          some ([], literal.resume (Char.ofNat (first * 16 + second))) := by
        rw [State.step, lowest]
        rfl
      exact .step letter (.step half (.step whole .done))
  | @code digits value some_digit few codes valid =>
      have letter : State.step (.escape literal) 'u' = some ([], .escapeCodeStart literal) := rfl
      have opening : State.step (.escapeCodeStart literal) '\x7b' =
          some ([], .escapeCode literal 0 0) := rfl
      have closing : State.step (.escapeCode literal digits.length value) '\x7d' =
          some ([], literal.resume (Char.ofNat value)) := by
        have positive : 0 < digits.length := List.length_pos_iff.2 some_digit
        rw [State.step, if_pos rfl, if_pos ⟨positive, valid⟩]
      exact .step letter (.step opening ((codes.reads few literal).concat closing))

/-! ## Texts -/

/-- Characters between quotes, and the text that they mean. -/
inductive Quoted : List Char → List Char → Prop where
  | nil : Quoted [] []
  | char {c : Char} {source content : List Char} (unquoted : c ≠ '"') (plain : c ≠ '\\')
      (rest : Quoted source content) : Quoted (c :: source) (c :: content)
  | escape {letters source content : List Char} {c : Char} (escape : Escape letters c)
      (rest : Quoted source content) : Quoted ('\\' :: (letters ++ source)) (c :: content)

theorem Quoted.reads {source content : List Char} (quoted : Quoted source content)
    (before : List Char) :
    State.Reads (.text before) source [] (.text (content.reverse ++ before)) := by
  induction quoted generalizing before with
  | nil => exact .done
  | @char c source content unquoted plain _ ih =>
      have now : State.step (.text before) c = some ([], .text (c :: before)) := by
        rw [State.step, if_neg unquoted, if_neg plain]
      rw [List.reverse_cons, List.append_assoc]
      exact .step now (ih _)
  | @escape letters source content c escape _ ih =>
      have now : State.step (.text before) '\\' = some ([], .escape (.text before)) := rfl
      rw [List.reverse_cons, List.append_assoc]
      exact .step now ((escape.reads (.text before)).append (ih _))

/-- The end of a raw text. -/
def rawClosing (hashes : Nat) : List Char :=
  '"' :: List.replicate hashes '#'

/-- The first end is the one behind all of the content. -/
def ClosesLast (hashes : Nat) (content : List Char) : Prop :=
  ∀ front back, content ++ rawClosing hashes = front ++ back → rawClosing hashes <:+ front →
    back = []

section RawTexts

variable {hashes : Nat} {content : List Char}

theorem reverse_rawClosing : (rawClosing hashes).reverse = List.replicate hashes '#' ++ ['"'] := by
  rw [rawClosing, List.reverse_cons, List.reverse_replicate]

/-- In front of the end nothing is completed. -/
theorem ClosesLast.reads (closes : ClosesLast hashes content) {front back : List Char}
    (split : content ++ rawClosing hashes = front ++ back) (unfinished : back ≠ []) :
    State.Reads (.rawText hashes []) front [] (.rawText hashes front.reverse) := by
  induction front using List.reverseRecOn generalizing back with
  | nil => exact .done
  | append_singleton front c ih =>
      have unended : ¬((List.replicate hashes '#' ++ ['"']).isPrefixOf (c :: front.reverse) =
          true) := by
        rw [List.isPrefixOf_iff_prefix, ← reverse_rawClosing]
        intro ended
        apply unfinished
        apply closes _ _ split
        rw [← List.reverse_prefix, List.reverse_append]
        exact ended
      have now : State.step (.rawText hashes front.reverse) c =
          some ([], .rawText hashes (c :: front.reverse)) := by
        rw [State.step, State.stepRawText]
        exact congrArg some (if_neg unended)
      rw [List.append_assoc] at split
      rw [List.reverse_append]
      exact (ih split (by simp)).concat now

theorem ClosesLast.reads_all (closes : ClosesLast hashes content) :
    State.Reads (.rawText hashes []) (content ++ rawClosing hashes)
      [.text (String.ofList content)] .idle := by
  obtain ⟨front, c, whole⟩ : ∃ front c, content ++ rawClosing hashes = front ++ [c] := by
    rcases List.eq_nil_or_concat (content ++ rawClosing hashes) with empty | ⟨front, c, whole⟩
    · cases (List.append_eq_nil_iff.1 empty).2
    · exact ⟨front, c, whole.trans List.concat_eq_append⟩
  have reversed : c :: front.reverse =
      (List.replicate hashes '#' ++ ['"']) ++ content.reverse := by
    rw [← reverse_rawClosing, ← List.reverse_append, whole, List.reverse_append]
    rfl
  have ended : State.step (.rawText hashes front.reverse) c =
      some ([.text (String.ofList content)], .idle) := by
    rw [State.step, State.stepRawText, reversed,
      if_pos (List.isPrefixOf_iff_prefix.2 (List.prefix_append _ _)), List.drop_left, spelled,
      List.reverse_reverse]
  rw [whole]
  exact (closes.reads whole (by simp)).concat ended

end RawTexts

/-! ## Tokens -/

/-- The ways to write a token. -/
inductive Lexeme : List Char → Token → Prop where
  | mark {c : Char} (mark : isMark c = true) : Lexeme [c] (.mark c)
  | unit : Lexeme ['(', ')'] .unit
  | name {c : Char} {rest : List Char} (first : isNameStart c = true)
      (parts : rest.all isNamePart = true) :
      Lexeme (c :: rest) (.name ⟨String.ofList (c :: rest), false⟩)
  | rawName {c : Char} {rest : List Char} (parts : (c :: rest).all isLoosePart = true) :
      Lexeme ('r' :: '#' :: c :: rest) (.name ⟨String.ofList (c :: rest), true⟩)
  | number {c : Char} {rest : List Char} (first : isNumberStart c = true)
      (parts : rest.all isLoosePart = true) :
      Lexeme (c :: rest) (.number (String.ofList (c :: rest)))
  | text {source content : List Char} (quoted : Quoted source content) :
      Lexeme ('"' :: (source ++ ['"'])) (.text (String.ofList content))
  | rawText {hashes : Nat} {content : List Char} (closes : ClosesLast hashes content) :
      Lexeme ('r' :: (List.replicate hashes '#' ++ '"' :: (content ++ rawClosing hashes)))
        (.text (String.ofList content))
  | character {c : Char} (unquoted : c ≠ '\'') (plain : c ≠ '\\') :
      Lexeme ['\'', c, '\''] (.character c)
  | escaped {letters : List Char} {c : Char} (escape : Escape letters c) :
      Lexeme ('\'' :: '\\' :: (letters ++ ['\''])) (.character c)

/-- Whether a character behind a token is read as a part of it. -/
def Token.takes : Token → Char → Bool
  | .mark symbol, c => decide (symbol = '(') && decide (c = ')')
  | .name ⟨identifier, false⟩, c =>
    isNamePart c || (decide (identifier = "r") && (decide (c = '"') || decide (c = '#')))
  | .name ⟨_, true⟩, c | .number _, c => isLoosePart c
  | .unit, _ | .text _, _ | .character _, _ => false

/-- A text written as tokens, with blanks and comments around them. -/
inductive Lexes : List Char → List Token → Prop where
  | done : Lexes [] []
  | lastLine {content : List Char} (line : '\n' ∉ content) : Lexes ('/' :: '/' :: content) []
  | blank {c : Char} {rest : List Char} {tokens : List Token} (blank : isBlank c = true)
      (after : Lexes rest tokens) : Lexes (c :: rest) tokens
  | line {content rest : List Char} {tokens : List Token} (line : '\n' ∉ content)
      (after : Lexes rest tokens) : Lexes ('/' :: '/' :: (content ++ '\n' :: rest)) tokens
  | comment {chars rest : List Char} {tokens : List Token} (comment : Comment chars)
      (after : Lexes rest tokens) : Lexes ('/' :: '*' :: (chars ++ rest)) tokens
  | token {chars rest : List Char} {token : Token} {tokens : List Token}
      (lexeme : Lexeme chars token) (apart : rest.head?.any token.takes = false)
      (after : Lexes rest tokens) : Lexes (chars ++ rest) (token :: tokens)

theorem Lexes.mark {c : Char} {rest : List Char} {tokens : List Token} (mark : isMark c = true)
    (other : c ≠ '(') (after : Lexes rest tokens) : Lexes (c :: rest) (.mark c :: tokens) := by
  refine .token (.mark mark) ?_ after
  cases rest <;> simp [Token.takes, other]

theorem Lexes.marks {c : Char} {rest : List Char} {tokens : List Token} (mark : isMark c = true)
    (other : c ≠ '(') (count : Nat) (after : Lexes rest tokens) :
    Lexes (List.replicate count c ++ rest) (List.replicate count (.mark c) ++ tokens) := by
  induction count with
  | zero => exact after
  | succ count ih => exact ih.mark mark other

/-! ## Scanning -/

/-- From a state on, some characters up to the end of the text are scanned as some tokens. -/
def State.Scans (state : State) (chars : List Char) (tokens : List Token) : Prop :=
  ∃ completed last more, State.Reads state chars completed last ∧ last.finish = some more ∧
    completed ++ more = tokens

/-- A token has been read but for its end, which a character that it does not take brings. -/
structure State.Owes (state : State) (token : Token) : Prop where
  finish : state.finish = some [token]
  step : ∀ c, token.takes c = false → state.step c = State.endToken token c

namespace State

variable {state middle : State} {left right : List Char} {token : Token}
  {tokens completed : List Token}

theorem Reads.scans (reads : Reads state left completed middle)
    (scans : middle.Scans right tokens) : state.Scans (left ++ right) (completed ++ tokens) := by
  obtain ⟨later, last, more, further, finished, rfl⟩ := scans
  exact ⟨completed ++ later, last, more, reads.append further, finished, List.append_assoc _ _ _⟩

theorem Owes.scans (owes : state.Owes token) (apart : right.head?.any token.takes = false)
    (scans : State.idle.Scans right tokens) : state.Scans right (token :: tokens) := by
  obtain ⟨completed, last, more, reads, finished, rfl⟩ := scans
  cases reads with
  | done =>
      cases finished
      exact ⟨[], state, [token], .done, owes.finish, rfl⟩
  | @step _ next _ c rest first second now later =>
      have ended : state.step c = some (token :: first, next) := by
        rw [owes.step c apart, endToken, show start c = _ from now]
        rfl
      exact ⟨_, last, more, .step ended later, finished, rfl⟩

theorem Scans.scan {text : String} (scans : State.idle.Scans text.toList tokens) :
    scan text = some tokens := by
  obtain ⟨completed, last, more, reads, finished, rfl⟩ := scans
  exact reads.scan finished

theorem Reads.lineComment {chars : List Char} (line : '\n' ∉ chars) :
    Reads .lineComment chars [] .lineComment := by
  induction chars with
  | nil => exact .done
  | cons c rest ih =>
      rw [List.mem_cons, not_or] at line
      have now : State.lineComment.step c = some ([], .lineComment) := by
        rw [State.step, if_neg (Ne.symm line.1)]
      exact .step now (ih line.2)

/-! ### Tokens that need no end -/

theorem start_of_isMark {c : Char} (mark : isMark c = true) (other : c ≠ '(') :
    start c = some ([.mark c], .idle) := by
  have listed : c ∈ "()[]\x7b\x7d,:#!".toList := List.contains_iff_mem.1 mark
  have all : "()[]\x7b\x7d,:#!".toList.all (fun d => !isBlank d && decide (d ≠ '/')) = true := by
    decide
  have apart := List.all_eq_true.1 all c listed
  rw [Bool.and_eq_true, Bool.not_eq_true', decide_eq_true_eq] at apart
  rw [start, apart.1, if_neg (by decide), if_neg apart.2, if_neg other, if_pos mark]

theorem reads_text {source content : List Char} (quoted : Quoted source content) :
    Reads .idle ('"' :: (source ++ ['"'])) [.text (String.ofList content)] .idle := by
  have opening : State.idle.step '"' = some ([], .text []) := rfl
  have closing : (State.text (content.reverse ++ [])).step '"' =
      some ([.text (String.ofList content)], .idle) := by
    rw [State.step, if_pos rfl, spelled, List.append_nil, List.reverse_reverse]
  exact .step opening ((quoted.reads []).concat closing)

theorem reads_rawStart (hashes more : Nat) :
    Reads (.rawStart (hashes + 1)) (List.replicate more '#') []
      (.rawStart (hashes + more + 1)) := by
  induction more generalizing hashes with
  | zero => exact .done
  | succ more ih =>
      have now : (State.rawStart (hashes + 1)).step '#' = some ([], .rawStart (hashes + 2)) := rfl
      have later := ih (hashes + 1)
      rw [Nat.add_right_comm hashes 1 more] at later
      exact .step now later

theorem reads_rawText {hashes : Nat} {content : List Char} (closes : ClosesLast hashes content) :
    Reads .idle ('r' :: (List.replicate hashes '#' ++ '"' :: (content ++ rawClosing hashes)))
      [.text (String.ofList content)] .idle := by
  have letter : State.idle.step 'r' = some ([], .name ['r']) := rfl
  cases hashes with
  | zero =>
      have quote : (State.name ['r']).step '"' = some ([], .rawText 0 []) := rfl
      exact .step letter (.step quote closes.reads_all)
  | succ more =>
      have first : (State.name ['r']).step '#' = some ([], .rawStart 1) := rfl
      have others := reads_rawStart 0 more
      have quote : (State.rawStart (0 + more + 1)).step '"' =
          some ([], .rawText (more + 1) []) := by
        rw [Nat.zero_add]
        rfl
      exact .step letter (.step first (others.append (.step quote closes.reads_all)))

theorem reads_character {c : Char} (unquoted : c ≠ '\'') (plain : c ≠ '\\') :
    Reads .idle ['\'', c, '\''] [.character c] .idle := by
  have opening : State.idle.step '\'' = some ([], .characterStart) := rfl
  have held : State.characterStart.step c = some ([], .characterEnd c) := by
    rw [State.step, if_neg plain, if_neg unquoted]
  have closing : (State.characterEnd c).step '\'' = some ([.character c], .idle) := rfl
  exact .step opening (.step held (.step closing .done))

theorem reads_escaped {letters : List Char} {c : Char} (escape : Escape letters c) :
    Reads .idle ('\'' :: '\\' :: (letters ++ ['\''])) [.character c] .idle := by
  have opening : State.idle.step '\'' = some ([], .characterStart) := rfl
  have backslash : State.characterStart.step '\\' = some ([], .escape .character) := rfl
  have closing : (State.characterEnd c).step '\'' = some ([.character c], .idle) := rfl
  exact .step opening (.step backslash ((escape.reads .character).concat closing))

/-! ### Tokens that end in front of the next one -/

theorem owes_opened : State.opened.Owes (.mark '(') where
  finish := rfl
  step c apart := by
    have other : c ≠ ')' := by simpa [Token.takes] using apart
    rw [State.step, if_neg other]

theorem owes_name (identifier : List Char) :
    (State.name identifier).Owes (.name ⟨spelled identifier, false⟩) where
  finish := rfl
  step c apart := by
    rw [Token.takes, Bool.or_eq_false_iff] at apart
    have notRaw (d : Char) (marked : d = '"' ∨ d = '#') : ¬(identifier = ['r'] ∧ c = d) := by
      rintro ⟨rfl, rfl⟩
      have spelledSo : spelled ['r'] = "r" := rfl
      rcases marked with rfl | rfl <;> simp [spelledSo] at apart
    rw [State.step, apart.1, if_neg (by decide), if_neg (notRaw '"' (.inl rfl)),
      if_neg (notRaw '#' (.inr rfl))]

theorem owes_rawName (identifier : List Char) :
    (State.rawName identifier).Owes (.name ⟨spelled identifier, true⟩) where
  finish := rfl
  step c apart := by
    rw [Token.takes] at apart
    rw [State.step, apart, if_neg (by decide)]

theorem owes_number (literal : List Char) :
    (State.number literal).Owes (.number (spelled literal)) where
  finish := rfl
  step c apart := by
    rw [Token.takes] at apart
    rw [State.step, apart, if_neg (by decide)]

end State

section Scanning

variable {chars rest : List Char} {token : Token} {tokens : List Token}

theorem Lexeme.scans (lexeme : Lexeme chars token)
    (apart : rest.head?.any token.takes = false) (scans : State.idle.Scans rest tokens) :
    State.idle.Scans (chars ++ rest) (token :: tokens) := by
  have spelled_eq (c : Char) (more : List Char) :
      spelled (more.reverse ++ [c]) = String.ofList (c :: more) := by
    rw [spelled, List.reverse_append, List.reverse_reverse]
    rfl
  cases lexeme with
  | @mark c mark =>
      by_cases opens : c = '('
      · subst opens
        have now : State.idle.step '(' = some ([], .opened) := rfl
        exact (State.Reads.step now .done).scans (State.owes_opened.scans apart scans)
      · have now : State.idle.step c = some ([.mark c], .idle) := State.start_of_isMark mark opens
        exact (State.Reads.step now .done).scans scans
  | unit =>
      have opening : State.idle.step '(' = some ([], .opened) := rfl
      have closing : State.opened.step ')' = some ([.unit], .idle) := rfl
      exact (State.Reads.step opening (.step closing .done)).scans scans
  | @name c more first parts =>
      have begun : State.idle.step c = some ([], .name [c]) := State.start_of_isNameStart first
      have others : State.Reads (.name [c]) more [] (.name (more.reverse ++ [c])) :=
        .gather [c] fun d member _ => if_pos (List.all_eq_true.1 parts d member)
      have owes := State.owes_name (more.reverse ++ [c])
      rw [spelled_eq] at owes
      exact (State.Reads.step begun others).scans (owes.scans apart scans)
  | @rawName c more parts =>
      have letter : State.idle.step 'r' = some ([], .name ['r']) := rfl
      have hash : (State.name ['r']).step '#' = some ([], .rawStart 1) := rfl
      rw [List.all_cons, Bool.and_eq_true] at parts
      obtain ⟨loose, parts⟩ := parts
      have first : (State.rawStart 1).step c = some ([], .rawName [c]) := by
        rw [State.step, if_neg (State.ne_of_isLoosePart loose (by decide)),
          if_neg (State.ne_of_isLoosePart loose (by decide)), if_pos ⟨rfl, loose⟩]
      have others : State.Reads (.rawName [c]) more [] (.rawName (more.reverse ++ [c])) :=
        .gather [c] fun d member _ => if_pos (List.all_eq_true.1 parts d member)
      have owes := State.owes_rawName (more.reverse ++ [c])
      rw [spelled_eq] at owes
      have read := State.Reads.step letter (.step hash (.step first others))
      exact read.scans (owes.scans apart scans)
  | @number c more first parts =>
      have begun : State.idle.step c = some ([], .number [c]) := State.start_of_isNumberStart first
      have others : State.Reads (.number [c]) more [] (.number (more.reverse ++ [c])) :=
        .gather [c] fun d member _ => if_pos (List.all_eq_true.1 parts d member)
      have owes := State.owes_number (more.reverse ++ [c])
      rw [spelled_eq] at owes
      exact (State.Reads.step begun others).scans (owes.scans apart scans)
  | text quoted => exact (State.reads_text quoted).scans scans
  | rawText closes => exact (State.reads_rawText closes).scans scans
  | character unquoted plain => exact (State.reads_character unquoted plain).scans scans
  | escaped escape => exact (State.reads_escaped escape).scans scans

theorem Lexes.scans (lexes : Lexes chars tokens) : State.idle.Scans chars tokens := by
  have slash : State.idle.step '/' = some ([], .slash) := rfl
  have second : State.slash.step '/' = some ([], .lineComment) := rfl
  have star : State.slash.step '*' = some ([], .blockComment 0 ' ') := rfl
  induction lexes with
  | done => exact ⟨[], .idle, [], .done, rfl, rfl⟩
  | lastLine line =>
      have read := State.Reads.step slash (.step second (.lineComment line))
      exact ⟨[], .lineComment, [], read, rfl, rfl⟩
  | @blank c rest tokens blank _ ih =>
      have now : State.idle.step c = some ([], .idle) := if_pos blank
      exact (State.Reads.step now .done).scans ih
  | @line content rest tokens line _ ih =>
      have ended : State.lineComment.step '\n' = some ([], .idle) := rfl
      have inside := State.Reads.lineComment line
      have whole := (State.Reads.step slash (.step second (inside.concat ended))).scans ih
      rwa [List.cons_append, List.cons_append, List.append_assoc] at whole
  | @comment chars rest tokens comment _ ih =>
      have free : ∀ next ∈ chars.head?, ¬Delimits ' ' next := by simp [Delimits]
      exact (State.Reads.step slash (.step star (comment.reads free))).scans ih
  | token lexeme apart _ ih => exact lexeme.scans apart ih

/-- A text is scanned as the tokens that it is written as. -/
theorem Lexes.scan {text : String} (lexes : Lexes text.toList tokens) : scan text = some tokens :=
  lexes.scans.scan

end Scanning

end FrameForest.Ron
