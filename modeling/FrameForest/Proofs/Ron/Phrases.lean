import FrameForest.Proofs.Ron.Lexemes
import FrameForest.Ron.Value

/-!
# How values are written

A value is written as a phrase of tokens.  The words `Some` in front of values
without parentheses are the ones that implicit options allow.  From the beginning
of a phrase the reader comes to its end with just this value, whatever groups are
open around it, so a phrase is read as its value unless it nests too deep.
-/

namespace FrameForest.Ron

namespace Bracket

def opening : Bracket → Char
  | round => '('
  | square => '['
  | curly => '\x7b'

def closing : Bracket → Char
  | round => ')'
  | square => ']'
  | curly => '\x7d'

end Bracket

/-- What a phrase may write: a value, an entry of a group, or all entries of one. -/
inductive Piece where
  | value (value : Value)
  | entry (bracket : Bracket) (entry : Entry)
  | entries (bracket : Bracket) (entries : List Entry)

/-- The tokens that write a piece. -/
inductive Phrase : Piece → List Token → Prop where
  | number {literal : String} (numeric : isNumber literal = true) :
      Phrase (.value (.number literal)) [.number literal]
  | text {content : String} : Phrase (.value (.text content)) [.text content]
  | character {c : Char} : Phrase (.value (.character c)) [.character c]
  | unit : Phrase (.value .unit) [.unit]
  | name {name : Name} (other : name ≠ .present) : Phrase (.value (.name name)) [.name name]
  | group {bracket : Bracket} {entries : List Entry} {tokens : List Token}
      (inside : Phrase (.entries bracket entries) tokens)
      (admitted : bracket.admits entries = true) :
      Phrase (.value (.group none bracket entries))
        (.mark bracket.opening :: (tokens ++ [.mark bracket.closing]))
  | tagged {tag : Name} {entries : List Entry} {tokens : List Token} (other : tag ≠ .present)
      (proper : tag.isTag = true) (inside : Phrase (.entries .round entries) tokens)
      (admitted : Bracket.round.admits entries = true) :
      Phrase (.value (.group (some tag) .round entries))
        (.name tag :: .mark '(' :: (tokens ++ [.mark ')']))
  | taggedUnit {tag : Name} (other : tag ≠ .present) (proper : tag.isTag = true) :
      Phrase (.value (.group (some tag) .round [])) [.name tag, .unit]
  | optional {content : Value} {tokens : List Token}
      (inside : Phrase (.entries .round [.plain content]) tokens) :
      Phrase (.value (.optional content)) (.name .present :: .mark '(' :: (tokens ++ [.mark ')']))
  /-- Without parentheses, which is possible as far as these could not be meant. -/
  | implicit {content : Value} {token : Token} {tokens : List Token} (notUnit : token ≠ .unit)
      (notOpening : token ≠ .mark '(') (inside : Phrase (.value content) (token :: tokens)) :
      Phrase (.value (.optional content)) (.name .present :: token :: tokens)
  | plain {bracket : Bracket} {value : Value} {tokens : List Token}
      (written : Phrase (.value value) tokens) : Phrase (.entry bracket (.plain value)) tokens
  | keyed {bracket : Bracket} {key value : Value} {before after : List Token}
      (keyWritten : Phrase (.value key) before) (written : Phrase (.value value) after) :
      Phrase (.entry bracket (.keyed key value)) (before ++ .mark ':' :: after)
  /-- A field may have the name `Some`. -/
  | keyedPresent {value : Value} {tokens : List Token} (written : Phrase (.value value) tokens) :
      Phrase (.entry .round (.keyed (.name .present) value)) (.name .present :: .mark ':' :: tokens)
  | nil {bracket : Bracket} : Phrase (.entries bracket []) []
  | last {bracket : Bracket} {entry : Entry} {tokens : List Token}
      (written : Phrase (.entry bracket entry) tokens) : Phrase (.entries bracket [entry]) tokens
  | more {bracket : Bracket} {entry : Entry} {entries : List Entry} {tokens others : List Token}
      (written : Phrase (.entry bracket entry) tokens)
      (rest : Phrase (.entries bracket entries) others) :
      Phrase (.entries bracket (entry :: entries)) (tokens ++ .mark ',' :: others)

theorem Value.ofGroup?_of_admits (tag : Option Name) {bracket : Bracket} {entries : List Entry}
    (other : tag ≠ some .present) (admitted : bracket.admits entries = true) :
    ofGroup? tag bracket entries = some (.group tag bracket entries) := by
  unfold ofGroup?
  rw [if_neg other, if_pos admitted]

namespace Reader

/-- The reader with some groups open, behind a value, the options around which it has counted. -/
def Rests (groups : List OpenGroup) (whole : Value) (reader : Reader) : Prop :=
  ∃ options value, reader = ⟨groups, options, .after value⟩ ∧
    options.repeat .optional value = whole

/-- With implicit options, the reader comes from one state to another over some tokens. -/
def Takes (reader : Reader) (tokens : List Token) (next : Reader) : Prop :=
  tokens.foldlM (step? true) reader = some next

namespace Takes

variable {reader middle next : Reader} {token : Token} {left right : List Token}

theorem nil : reader.Takes [] reader := rfl

theorem cons (first : reader.step? true token = some middle) (rest : middle.Takes right next) :
    reader.Takes (token :: right) next := by
  rw [Takes, List.foldlM_cons, first]
  exact rest

theorem append (first : reader.Takes left middle) (rest : middle.Takes right next) :
    reader.Takes (left ++ right) next := by
  rw [Takes, List.foldlM_append, show left.foldlM _ _ = _ from first]
  exact rest

theorem exists_cons (takes : reader.Takes (token :: right) next) :
    ∃ middle, reader.step? true token = some middle ∧ middle.Takes right next := by
  rw [Takes, List.foldlM_cons] at takes
  exact Option.bind_eq_some_iff.1 takes

end Takes

/-! ## Behind a value -/

section Rests

variable {reader : Reader} {group : OpenGroup} {outer : List OpenGroup} {whole : Value}

theorem Rests.comma (rests : reader.Rests (group :: outer) whole) :
    reader.step? true (.mark ',') = some ⟨group.add whole :: outer, 0, .atEntry⟩ := by
  obtain ⟨options, value, rfl, rfl⟩ := rests
  cases value <;> rfl

theorem Rests.colon (rests : reader.Rests (group :: outer) whole) (keyless : group.key = none) :
    reader.step? true (.mark ':') =
      some ⟨{ group with key := some whole } :: outer, 0, .afterColon⟩ := by
  obtain ⟨options, value, rfl, rfl⟩ := rests
  have separated : follow? ⟨group :: outer, options, .after value⟩ value (.mark ':') =
      separate? ⟨group :: outer, options, .after value⟩ value ':' := by
    cases value <;> rfl
  refine separated.trans ?_
  simp [separate?, keyless, enclosed]

theorem Rests.closing (rests : reader.Rests (group :: outer) whole) (bracket : Bracket) :
    reader.step? true (.mark bracket.closing) =
      close? (group.add whole :: outer) bracket.closing := by
  obtain ⟨options, value, rfl, rfl⟩ := rests
  cases bracket <;> cases value <;> rfl

end Rests

/-! ## In front of a value -/

theorem begin?_of_progress (groups : List OpenGroup) (options : Nat) (progress other : Progress)
    (token : Token) :
    begin? ⟨groups, options, progress⟩ token = begin? ⟨groups, options, other⟩ token := by
  cases token <;> rfl

/-- The reader with some groups open, in front of a value with some options around it. -/
def Fresh (groups : List OpenGroup) (options : Nat) (reader : Reader) : Prop :=
  reader = ⟨groups, options, .atEntry⟩ ∨ reader = ⟨groups, options, .afterColon⟩

variable {reader next : Reader} {groups outer : List OpenGroup} {options : Nat} {token : Token}
  {tokens : List Token}

theorem Fresh.step? (fresh : reader.Fresh groups options) (token : Token)
    (begun : begin? ⟨groups, options, .afterColon⟩ token = some next) :
    reader.step? true token = some next := by
  rcases fresh with rfl | rfl
  · rw [begin?_of_progress groups options _ .atEntry] at begun
    cases token with
    | mark symbol => exact (congrArg (Option.or · _) begun).trans rfl
    | _ => exact begun
  · exact begun

/-- Behind the word for a present value another value may begin. -/
theorem step?_afterPresent (notUnit : token ≠ .unit) (notOpening : token ≠ .mark '(')
    (begun : begin? ⟨groups, options + 1, .afterColon⟩ token = some next) :
    Reader.step? true ⟨groups, options, .afterPresent⟩ token = some next := by
  rw [begin?_of_progress _ _ _ .afterPresent] at begun
  change followPresent? true ⟨groups, options, .afterPresent⟩ token = some next
  unfold followPresent?
  split
  · exact absurd rfl notUnit
  · exact absurd rfl notOpening
  · cases begun
  · exact begun

theorem repeat_optional_succ (options : Nat) (value : Value) :
    (options + 1).repeat .optional value = options.repeat .optional (.optional value) := by
  induction options with
  | zero => rfl
  | succ options ih => exact congrArg Value.optional ih

theorem close?_of_ofGroup? {tag : Option Name} {bracket : Bracket} {entries : List Entry}
    {value : Value} (options : Nat) (outer : List OpenGroup)
    (formed : Value.ofGroup? tag bracket entries = some value) :
    close? (⟨tag, bracket, options, entries.reverse ++ [], none⟩ :: outer) bracket.closing =
      some ⟨outer, options, .after value⟩ := by
  have closed : Bracket.closing? bracket.closing = some bracket := by cases bracket <;> rfl
  rw [close?, closed, Option.bind_eq_bind, Option.bind_some, OpenGroup.close?, if_pos rfl,
    List.append_nil, List.reverse_reverse, formed]
  rfl

end Reader

/-! ## Reading phrases -/

namespace Piece

open Reader

/-- What some tokens do to the reader in front of a piece that they write.  Entries are followed by
the closing bracket of their group. -/
def TakenAs : Piece → List Token → Prop
  | .value whole, tokens =>
    ∀ {reader : Reader} {groups : List OpenGroup} {options : Nat}, reader.Fresh groups options →
      ∃ next, reader.Takes tokens next ∧ next.Rests groups (options.repeat .optional whole)
  | .entry bracket added, tokens =>
    ∀ (tag : Option Name) (options : Nat) (done : List Entry) (outer : List OpenGroup),
      ∃ next group whole,
        Takes ⟨⟨tag, bracket, options, done, none⟩ :: outer, 0, .atEntry⟩ tokens next ∧
          next.Rests (group :: outer) whole ∧
          group.add whole = ⟨tag, bracket, options, added :: done, none⟩
  | .entries bracket all, tokens =>
    ∀ {tag : Option Name} {options : Nat} {done : List Entry} {outer : List OpenGroup}
      {next : Reader},
      close? (⟨tag, bracket, options, all.reverse ++ done, none⟩ :: outer) bracket.closing =
          some next →
        Takes ⟨⟨tag, bracket, options, done, none⟩ :: outer, 0, .atEntry⟩
          (tokens ++ [.mark bracket.closing]) next

end Piece

open Reader in
theorem Phrase.takenAs {piece : Piece} {tokens : List Token} (phrase : Phrase piece tokens) :
    piece.TakenAs tokens := by
  induction phrase with
  | number numeric =>
      intro reader groups options fresh
      exact ⟨_, .cons (fresh.step? _ (if_pos numeric)) .nil, _, _, rfl, rfl⟩
  | text | character | unit =>
      intro reader groups options fresh
      exact ⟨_, .cons (fresh.step? _ rfl) .nil, _, _, rfl, rfl⟩
  | name other =>
      intro reader groups options fresh
      exact ⟨_, .cons (fresh.step? _ (if_neg other)) .nil, _, _, rfl, rfl⟩
  | @group bracket entries tokens _ admitted ih =>
      intro reader groups options fresh
      have opened : begin? ⟨groups, options, .afterColon⟩ (.mark bracket.opening) =
          some ⟨⟨none, bracket, options, [], none⟩ :: groups, 0, .atEntry⟩ := by
        cases bracket <;> rfl
      have formed := Value.ofGroup?_of_admits none (by simp) admitted
      have taken := ih (close?_of_ofGroup? options groups formed)
      exact ⟨_, .cons (fresh.step? _ opened) taken, _, _, rfl, rfl⟩
  | @tagged tag entries tokens other proper _ admitted ih =>
      intro reader groups options fresh
      have named := fresh.step? (.name tag) (if_neg other)
      have opened : Reader.step? true ⟨groups, options, .after (.name tag)⟩ (.mark '(') =
          some ⟨⟨some tag, .round, options, [], none⟩ :: groups, 0, .atEntry⟩ := if_pos proper
      have formed := Value.ofGroup?_of_admits (some tag) (by simp [other]) admitted
      have taken := ih (close?_of_ofGroup? options groups formed)
      exact ⟨_, .cons named (.cons opened taken), _, _, rfl, rfl⟩
  | @taggedUnit tag other proper =>
      intro reader groups options fresh
      have named := fresh.step? (.name tag) (if_neg other)
      have closed : Reader.step? true ⟨groups, options, .after (.name tag)⟩ .unit =
          some ⟨groups, options, .after (.group (some tag) .round [])⟩ := if_pos proper
      exact ⟨_, .cons named (.cons closed .nil), _, _, rfl, rfl⟩
  | @optional content tokens _ ih =>
      intro reader groups options fresh
      have announced := fresh.step? (.name .present) rfl
      have opened : Reader.step? true ⟨groups, options, .afterPresent⟩ (.mark '(') =
          some ⟨⟨some .present, .round, options, [], none⟩ :: groups, 0, .atEntry⟩ := rfl
      have formed : Value.ofGroup? (some .present) .round [.plain content] =
          some (.optional content) := rfl
      have taken := ih (close?_of_ofGroup? options groups formed)
      exact ⟨_, .cons announced (.cons opened taken), _, _, rfl, rfl⟩
  | @implicit content token tokens notUnit notOpening _ ih =>
      intro reader groups options fresh
      have announced := fresh.step? (.name .present) rfl
      have inner : Reader.Fresh groups (options + 1) ⟨groups, options + 1, .afterColon⟩ := .inr rfl
      obtain ⟨next, taken, rests⟩ := ih inner
      obtain ⟨middle, first, later⟩ := taken.exists_cons
      rw [repeat_optional_succ] at rests
      have follows := step?_afterPresent notUnit notOpening first
      exact ⟨next, .cons announced (.cons follows later), rests⟩
  | plain _ ih =>
      intro tag options done outer
      obtain ⟨next, taken, rests⟩ := ih (.inl rfl)
      exact ⟨next, _, _, taken, rests, rfl⟩
  | keyed _ _ ihKey ih =>
      intro tag options done outer
      obtain ⟨behindKey, keyTaken, keyRests⟩ := ihKey (.inl rfl)
      obtain ⟨next, taken, rests⟩ := ih (.inr rfl)
      exact ⟨next, _, _, keyTaken.append (.cons (keyRests.colon rfl) taken), rests, rfl⟩
  | @keyedPresent value tokens _ ih =>
      intro tag options done outer
      have colon : Reader.step? true ⟨⟨tag, .round, options, done, none⟩ :: outer, 0, .afterPresent⟩
          (.mark ':') = some ⟨⟨tag, .round, options, done, some (.name .present)⟩ :: outer, 0,
            .afterColon⟩ := rfl
      obtain ⟨next, taken, rests⟩ := ih (.inr rfl)
      exact ⟨next, _, _, .cons rfl (.cons colon taken), rests, rfl⟩
  | @nil bracket =>
      intro tag options done outer next closes
      refine .cons ?_ .nil
      cases bracket <;> exact closes
  | last _ ih =>
      intro tag options done outer next closes
      obtain ⟨behind, group, whole, taken, rests, added⟩ := ih tag options done outer
      refine taken.append (.cons ?_ .nil)
      rw [rests.closing, added]
      exact closes
  | @more bracket entry entries tokens others _ _ ih ihRest =>
      intro tag options done outer next closes
      obtain ⟨behind, group, whole, taken, rests, added⟩ := ih tag options done outer
      have comma := rests.comma
      rw [added] at comma
      rw [List.reverse_cons, List.append_assoc] at closes
      rw [List.append_assoc]
      exact taken.append (.cons comma (ihRest closes))

/-- A phrase is read as its value, unless it nests too deep. -/
theorem Phrase.ofTokens? {value : Value} {tokens : List Token}
    (phrase : Phrase (.value value) tokens) :
    Value.ofTokens? true tokens = if value.nestsWithin nestingLimit then some value else none := by
  have fresh : Reader.Fresh [] 0 .start := .inr rfl
  obtain ⟨next, taken, options, inner, rfl, whole⟩ := phrase.takenAs fresh
  have read : tokens.foldlM (Reader.step? true) .start = some ⟨[], options, .after inner⟩ := taken
  have finished : Reader.finish? ⟨[], options, .after inner⟩ = some value := congrArg some whole
  rw [Value.ofTokens?, read, Option.bind_eq_bind, Option.bind_some, finished, Option.bind_eq_bind,
    Option.bind_some]

/-- No value begins like a line that asks for extensions. -/
theorem Phrase.takeExtensions? {value : Value} {tokens : List Token}
    (phrase : Phrase (.value value) tokens) (enabled : List String) :
    takeExtensions? false enabled tokens = some (enabled, tokens) := by
  cases phrase with
  | @group bracket => cases bracket <;> rfl
  | _ => rfl

/-- A whole text, read with implicit options. -/
theorem Phrase.ofText? {value : Value} {text : String} {tokens : List Token}
    (phrase : Phrase (.value value) tokens) (lexes : Lexes text.toList tokens) :
    Value.ofText? [implicitSomeExtension] text =
      if value.nestsWithin nestingLimit then some value else none := by
  have enabled : decide (implicitSomeExtension ∈ [implicitSomeExtension]) = true := by decide
  rw [Value.ofText?, lexes.scan, Option.bind_eq_bind, Option.bind_some, phrase.takeExtensions?,
    Option.bind_eq_bind, Option.bind_some]
  dsimp only
  rw [enabled, phrase.ofTokens?]

end FrameForest.Ron
