import FrameForest.Ron.Token

/-!
# What the scanner reads

The scanner goes from state to state, so what it makes of a text is put together
from what it makes of the parts.  The characters of names and numbers are not those
of blanks, marks and quotes, so each of them begins or continues such a token.
-/

namespace FrameForest.Ron

namespace State

/-- From one state to another over some characters, with the tokens completed on the way. -/
inductive Reads : State → List Char → List Token → State → Prop where
  | done {state : State} : Reads state [] [] state
  | step {state next last : State} {c : Char} {rest : List Char} {completed tokens : List Token}
      (now : state.step c = some (completed, next)) (later : Reads next rest tokens last) :
      Reads state (c :: rest) (completed ++ tokens) last

namespace Reads

variable {state middle last : State} {chars left right : List Char} {tokens more : List Token}

theorem append (first : Reads state left tokens middle) (second : Reads middle right more last) :
    Reads state (left ++ right) (tokens ++ more) last := by
  induction first with
  | done => exact second
  | step now _ ih =>
      rw [List.append_assoc]
      exact .step now (ih second)

theorem concat {c : Char} (first : Reads state chars tokens middle)
    (now : middle.step c = some (more, last)) :
    Reads state (chars ++ [c]) (tokens ++ more) last := by
  have second : Reads middle [c] (more ++ []) last := .step now .done
  rw [List.append_nil] at second
  exact first.append second

theorem foldlM_step? (reads : Reads state chars tokens last) (held : List Token) :
    chars.foldlM Scanner.step? ⟨held, state⟩ = some ⟨tokens.reverse ++ held, last⟩ := by
  induction reads generalizing held with
  | done => rfl
  | @step state next last c rest completed tokens now later ih =>
      have first : Scanner.step? ⟨held, state⟩ c = some ⟨completed.reverse ++ held, next⟩ := by
        rw [Scanner.step?, now]
        rfl
      rw [List.foldlM_cons, first, List.reverse_append, List.append_assoc]
      exact ih _

theorem scan {text : String} (reads : Reads .idle text.toList tokens last)
    (finished : last.finish = some more) : scan text = some (tokens ++ more) := by
  rw [Ron.scan, reads.foldlM_step? [], List.append_nil]
  change Scanner.finish? _ = _
  rw [Scanner.finish?, finished, Option.map_some, List.reverse_reverse]

/-- A state that holds the characters of an unfinished token holds those that it goes on with. -/
theorem gather {holding : List Char → State} (held : List Char)
    (goesOn : ∀ c ∈ chars, ∀ held, (holding held).step c = some ([], holding (c :: held))) :
    Reads (holding held) chars [] (holding (chars.reverse ++ held)) := by
  induction chars generalizing held with
  | nil => exact .done
  | cons c rest ih =>
      have now := goesOn c List.mem_cons_self held
      rw [List.reverse_cons, List.append_assoc]
      exact .step now (ih _ fun d member => goesOn d (List.mem_cons_of_mem _ member))

end Reads

section Start

variable {c : Char}

theorem not_isBlank_of_isLoosePart (loose : isLoosePart c = true) : isBlank c = false := by
  apply Bool.eq_false_iff.2
  intro blank
  simp only [isBlank, Bool.or_eq_true, decide_eq_true_eq] at blank
  rcases blank with ((rfl | rfl) | rfl) | rfl <;> revert loose <;> decide

theorem not_isMark_of_isLoosePart (loose : isLoosePart c = true) : isMark c = false := by
  apply Bool.eq_false_iff.2
  intro mark
  have listed : c ∈ "()[]\x7b\x7d,:#!".toList := List.contains_iff_mem.1 mark
  have all : "()[]\x7b\x7d,:#!".toList.all (fun d => !isLoosePart d) = true := by decide
  have outside := List.all_eq_true.1 all c listed
  rw [loose] at outside
  cases outside

theorem ne_of_isLoosePart {d : Char} (loose : isLoosePart c = true)
    (other : isLoosePart d = false) : c ≠ d := by
  rintro rfl
  rw [other] at loose
  cases loose

theorem isLoosePart_of_isNamePart (part : isNamePart c = true) : isLoosePart c = true := by
  simp [isLoosePart, part]

theorem isNamePart_of_isNameStart (first : isNameStart c = true) : isNamePart c = true := by
  simp [isNamePart, first]

theorem isLoosePart_of_isDigit (digit : Decimal.isDigit c = true) : isLoosePart c = true := by
  simp [isLoosePart, isNamePart, digit]

theorem start_of_isNameStart (first : isNameStart c = true) :
    start c = some ([], .name [c]) := by
  have loose := isLoosePart_of_isNamePart (isNamePart_of_isNameStart first)
  rw [start, not_isBlank_of_isLoosePart loose, not_isMark_of_isLoosePart loose,
    if_neg (by decide), if_neg (ne_of_isLoosePart loose (by decide)),
    if_neg (ne_of_isLoosePart loose (by decide)), if_neg (by decide), if_pos first]

theorem not_isNameStart_of_isDigit (digit : Decimal.isDigit c = true) :
    isNameStart c = false := by
  apply Bool.eq_false_iff.2
  intro first
  simp only [Decimal.isDigit, isNameStart, Bool.and_eq_true, Bool.or_eq_true, decide_eq_true_eq,
    Char.le_def, UInt32.le_iff_toNat_le] at digit first
  have upper : c.val.toNat ≤ 57 := digit.2
  rcases first with (⟨lower, _⟩ | ⟨lower, _⟩) | rfl
  · exact absurd (Nat.le_trans lower upper) (by decide)
  · exact absurd (Nat.le_trans lower upper) (by decide)
  · exact absurd upper (by decide)

theorem isLoosePart_of_isNumberStart (first : isNumberStart c = true) : isLoosePart c = true := by
  simp only [isNumberStart, isLoosePart, isNamePart, Bool.or_eq_true] at first ⊢
  rcases first with ((digit | point) | plus) | minus <;> simp [*]

theorem not_isNameStart_of_isNumberStart (first : isNumberStart c = true) :
    isNameStart c = false := by
  simp only [isNumberStart, Bool.or_eq_true, decide_eq_true_eq] at first
  rcases first with ((digit | rfl) | rfl) | rfl
  · exact not_isNameStart_of_isDigit digit
  · decide
  · decide
  · decide

theorem start_of_isNumberStart (first : isNumberStart c = true) :
    start c = some ([], .number [c]) := by
  have loose := isLoosePart_of_isNumberStart first
  rw [start, not_isBlank_of_isLoosePart loose, not_isMark_of_isLoosePart loose,
    if_neg (by decide), if_neg (ne_of_isLoosePart loose (by decide)),
    if_neg (ne_of_isLoosePart loose (by decide)), if_neg (by decide),
    not_isNameStart_of_isNumberStart first, if_neg (by decide), if_pos first]

end Start

end State

/-- The characters of a token that only ends in front of what cannot belong to it. -/
inductive Spells : List Char → Token → Prop where
  | name {c : Char} {rest : List Char} (first : isNameStart c = true)
      (parts : ∀ d ∈ rest, isNamePart d = true) (plain : c :: rest ≠ ['r']) :
      Spells (c :: rest) (.name ⟨String.ofList (c :: rest), false⟩)
  | number {c : Char} {rest : List Char} (first : Decimal.isDigit c = true)
      (parts : ∀ d ∈ rest, isLoosePart d = true) :
      Spells (c :: rest) (.number (String.ofList (c :: rest)))

/-- Whether a text is a name of its own, as the scanner reads it. -/
def isPlainName (identifier : String) : Bool :=
  match identifier.toList with
  | [] => false
  | c :: rest => isNameStart c && rest.all isNamePart && decide (c :: rest ≠ ['r'])

theorem spells_of_isPlainName {identifier : String} (plain : isPlainName identifier = true) :
    Spells identifier.toList (.name ⟨identifier, false⟩) := by
  unfold isPlainName at plain
  cases shape : identifier.toList with
  | nil =>
      rw [shape] at plain
      cases plain
  | cons c rest =>
      rw [shape] at plain
      simp only [Bool.and_eq_true, List.all_eq_true, decide_eq_true_eq] at plain
      have text : identifier = String.ofList (c :: rest) := by
        rw [← shape, String.ofList_toList]
      rw [text]
      exact .name plain.1.1 plain.1.2 plain.2

end FrameForest.Ron
