import Mathlib.Data.List.Induction
import FrameForest.Proofs.Ron.Scanning
import FrameForest.Ron.Number

/-!
# Numerals

The digits of a number are read back as that number in every base and however
they are separated.  They are scanned as a token of their own, and a word of 64 bits
survives being written and read.
-/

namespace FrameForest.Ron

/-! ## Digits of any base -/

/-- Digits of a base with their value.  Behind each of them `_` may stand. -/
inductive Numeral (base : Nat) : List Char → Nat → Prop where
  | first {c : Char} {digit : Nat} (valued : Decimal.digitValue? c = some digit)
      (small : digit < base) : Numeral base [c] digit
  | digit {digits : List Char} {value digit : Nat} {c : Char} (before : Numeral base digits value)
      (valued : Decimal.digitValue? c = some digit) (small : digit < base) :
      Numeral base (digits ++ [c]) (value * base + digit)
  | underscore {digits : List Char} {value : Nat} (before : Numeral base digits value) :
      Numeral base (digits ++ ['_']) value

/-- A number without sign in one of the four bases. -/
inductive Natural : List Char → Nat → Prop where
  | decimal {digits : List Char} {value : Nat} (numeral : Numeral 10 digits value) :
      Natural digits value
  | hexadecimal {digits : List Char} {value : Nat} (numeral : Numeral 16 digits value) :
      Natural ('0' :: 'x' :: digits) value
  | binary {digits : List Char} {value : Nat} (numeral : Numeral 2 digits value) :
      Natural ('0' :: 'b' :: digits) value
  | octal {digits : List Char} {value : Nat} (numeral : Numeral 8 digits value) :
      Natural ('0' :: 'o' :: digits) value

namespace Numeral

variable {base value : Nat} {digits : List Char}

section Digit

variable {c : Char} {digit : Nat} (valued : Decimal.digitValue? c = some digit)

include valued

theorem ne_underscore : c ≠ '_' := by
  rintro rfl
  cases valued

theorem isDigit_of_lt_ten (small : digit < 10) : Decimal.isDigit c = true := by
  unfold Decimal.digitValue? at valued
  split at valued
  case isTrue decimal => exact decimal
  case isFalse =>
    split at valued
    · cases valued
      omega
    · split at valued <;> cases valued
      omega

theorem isLoosePart_of_valued : isLoosePart c = true := by
  unfold Decimal.digitValue? at valued
  split at valued
  case isTrue decimal => exact State.isLoosePart_of_isDigit decimal
  case isFalse =>
    apply State.isLoosePart_of_isNamePart
    apply State.isNamePart_of_isNameStart
    split at valued
    case isTrue lower =>
      have upper : c ≤ 'z' := Char.le_trans lower.2 (by decide)
      simp [isNameStart, lower.1, upper]
    case isFalse =>
      split at valued
      case isTrue lower =>
        have upper : c ≤ 'Z' := Char.le_trans lower.2 (by decide)
        simp [isNameStart, lower.1, upper]
      case isFalse => cases valued

end Digit

theorem exists_cons (numeral : Numeral base digits value) :
    ∃ c rest, digits = c :: rest ∧ ∃ digit < base, Decimal.digitValue? c = some digit := by
  induction numeral with
  | first valued small => exact ⟨_, [], rfl, _, small, valued⟩
  | digit _ _ _ ih | underscore _ ih =>
      obtain ⟨c, rest, rfl, first⟩ := ih
      exact ⟨c, _, rfl, first⟩

/-- Every character is a digit of the base or separates two of them. -/
theorem valued_of_mem (numeral : Numeral base digits value) {c : Char} (member : c ∈ digits) :
    c = '_' ∨ ∃ digit < base, Decimal.digitValue? c = some digit := by
  induction numeral with
  | first valued small =>
      rw [List.mem_singleton] at member
      exact .inr ⟨_, small, member ▸ valued⟩
  | digit _ valued small ih =>
      rw [List.mem_append, List.mem_singleton] at member
      rcases member with earlier | rfl
      · exact ih earlier
      · exact .inr ⟨_, small, valued⟩
  | underscore _ ih =>
      rw [List.mem_append, List.mem_singleton] at member
      exact member.elim ih .inl

theorem isLoosePart_of_mem (numeral : Numeral base digits value) :
    ∀ c ∈ digits, isLoosePart c = true := by
  intro c member
  rcases numeral.valued_of_mem member with rfl | ⟨digit, _, valued⟩
  · decide
  · exact isLoosePart_of_valued valued

theorem foldlM_filter (numeral : Numeral base digits value) :
    (digits.filter (· ≠ '_')).foldlM (fun value c => do
        let digit ← Decimal.digitValue? c
        if digit < base then some (value * base + digit) else none) 0 = some value := by
  induction numeral with
  | first valued small => simp [ne_underscore valued, valued, small]
  | digit _ valued small ih =>
      rw [List.filter_append, List.foldlM_append, ih]
      simp [ne_underscore valued, valued, small]
  | underscore _ ih => simpa [List.filter_append] using ih

theorem digits?_eq (numeral : Numeral base digits value) : digits? base digits = some value := by
  obtain ⟨c, rest, rfl, digit, _, valued⟩ := numeral.exists_cons
  have proper : ¬((c :: rest).isEmpty = true ∨ (c :: rest).head? = some '_') := by
    simp [ne_underscore valued]
  rw [digits?, if_neg proper]
  exact numeral.foldlM_filter

end Numeral

namespace Natural

variable {chars : List Char} {literal : String}

theorem natural?_eq {value : Nat} (natural : Natural chars value) :
    natural? chars = some value := by
  cases natural with
  | decimal numeral =>
      have outside (c : Char) (other : c = 'x' ∨ c = 'b' ∨ c = 'o') : c ∉ chars := by
        intro member
        rcases numeral.valued_of_mem member with rfl | ⟨digit, small, valued⟩
        · revert other
          decide
        · rcases other with rfl | rfl | rfl <;> cases valued
          exact absurd small (by decide)
      rw [← numeral.digits?_eq]
      unfold natural?
      split
      · exact absurd (by simp) (outside 'x' (by simp))
      · exact absurd (by simp) (outside 'b' (by simp))
      · exact absurd (by simp) (outside 'o' (by simp))
      · rfl
  | hexadecimal numeral => exact numeral.digits?_eq
  | binary numeral => exact numeral.digits?_eq
  | octal numeral => exact numeral.digits?_eq

theorem word?_eq {value : UInt64} (natural : Natural literal.toList value.toNat) :
    word? literal = some value := by
  have small : value.toNat < UInt64.size := value.toNat_lt
  rw [word?, natural.natural?_eq, Option.bind_eq_bind, Option.bind_some, if_pos small,
    UInt64.ofNat_toNat]

theorem spells {value : Nat} (natural : Natural chars value) :
    Spells chars (.number (String.ofList chars)) := by
  have marked {base : Nat} {digits : List Char} (numeral : Numeral base digits value) {letter : Char}
      (loose : isLoosePart letter = true) :
      Spells ('0' :: letter :: digits) (.number (String.ofList ('0' :: letter :: digits))) := by
    apply Spells.number (by decide)
    rw [List.forall_mem_cons]
    exact ⟨loose, numeral.isLoosePart_of_mem⟩
  cases natural with
  | decimal numeral =>
      obtain ⟨c, rest, rfl, digit, small, valued⟩ := numeral.exists_cons
      apply Spells.number (Numeral.isDigit_of_lt_ten valued small)
      exact fun d member => numeral.isLoosePart_of_mem d (List.mem_cons_of_mem _ member)
  | hexadecimal numeral => exact marked numeral (by decide)
  | binary numeral => exact marked numeral (by decide)
  | octal numeral => exact marked numeral (by decide)

theorem isNumber {value : Nat} (natural : Natural literal.toList value)
    (small : value < UInt64.size) : isNumber literal = true := by
  have integer : isInteger literal.toList = true := by
    have spells := natural.spells
    have read := natural.natural?_eq
    generalize literal.toList = chars at spells read ⊢
    cases spells with
    | @number c rest first =>
        unfold isInteger
        split
        case h_1 shape =>
          cases shape
          cases first
        case h_2 shape =>
          cases shape
          cases first
        case h_3 =>
          rw [read, Option.any_some]
          exact decide_eq_true small
  rw [Ron.isNumber, integer, Bool.true_or]

end Natural

/-! ## Decimal digits -/

section Digits

variable {digits : List Char} (decimal : ∀ c ∈ digits, Decimal.isDigit c = true)

include decimal

theorem numeral_of_decimal (some_digit : digits ≠ []) :
    Numeral 10 digits (Nat.ofDigitChars 10 digits 0) := by
  have valued (c : Char) (member : c ∈ digits) :
      Decimal.digitValue? c = some (c.toNat - '0'.toNat) ∧ c.toNat - '0'.toNat < 10 := by
    have digit := decimal c member
    refine ⟨if_pos digit, ?_⟩
    have upper : c.toNat ≤ 57 := by
      simp only [Decimal.isDigit, Bool.and_eq_true, decide_eq_true_eq] at digit
      exact digit.2
    change c.toNat - 48 < 10
    omega
  clear decimal
  induction digits using List.reverseRecOn with
  | nil => exact absurd rfl some_digit
  | append_singleton before c ih =>
      have last := valued c (by simp)
      by_cases alone : before = []
      · subst alone
        have read := Numeral.first last.1 last.2
        simpa [Nat.ofDigitChars_cons] using read
      · have read := (ih alone fun d member => valued d (by simp [member])).digit last.1 last.2
        rw [Nat.ofDigitChars_append, Nat.ofDigitChars_cons, Nat.ofDigitChars_nil, Nat.mul_comm]
        exact read

end Digits

section Words

variable (value : UInt64)

theorem toList_toString : (toString value).toList = Nat.toDigits 10 value.toNat :=
  Nat.toList_repr

theorem isDigit_of_mem_toString {c : Char} (member : c ∈ (toString value).toList) :
    Decimal.isDigit c = true := by
  rw [toList_toString] at member
  have digit := Nat.isDigit_of_mem_toDigits (by decide) (by decide) member
  simpa [Char.isDigit, Decimal.isDigit, Char.le_def] using digit

theorem toString_ne_nil : (toString value).toList ≠ [] := by
  rw [toList_toString]
  exact Nat.toDigits_ne_nil

theorem natural_toString : Natural (toString value).toList value.toNat := by
  have numeral := numeral_of_decimal (fun _ => isDigit_of_mem_toString value)
    (toString_ne_nil value)
  rw [toList_toString, Nat.ofDigitChars_ten_toDigits] at numeral
  rw [toList_toString]
  exact .decimal numeral

theorem word?_toString : word? (toString value) = some value :=
  (natural_toString value).word?_eq

theorem isNumber_toString : isNumber (toString value) = true :=
  (natural_toString value).isNumber value.toNat_lt

theorem spells_toString : Spells (toString value).toList (.number (toString value)) := by
  have spells := (natural_toString value).spells
  rw [String.ofList_toList] at spells
  exact spells

end Words

end FrameForest.Ron
