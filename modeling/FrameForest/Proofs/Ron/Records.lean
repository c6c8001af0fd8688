import FrameForest.Proofs.Ron.Phrases

/-!
# Records with a line for every field

A record is written as parentheses with one indented line for every field.  Each
line is written as the field's entry with a comma behind it, so whatever the fields
are, the record is read back as the group of its named values.
-/

namespace FrameForest.Ron

/-- A value that is a token on its own. -/
inductive Alone : Token → Value → Prop where
  | number {literal : String} (numeric : isNumber literal = true) :
      Alone (.number literal) (.number literal)
  | name {name : Name} (other : name ≠ .present) : Alone (.name name) (.name name)

namespace Alone

variable {token : Token} {value : Value}

theorem phrase (alone : Alone token value) : Phrase (.value value) [token] := by
  cases alone with
  | number numeric => exact .number numeric
  | name other => exact .name other

theorem nestsWithin (alone : Alone token value) (limit : Nat) :
    value.nestsWithin limit = true := by
  cases alone <;> cases limit <;> rfl

end Alone

/-- A field of a record: how its value is written, and what is read. -/
structure Field where
  key : String
  written : String
  token : Token
  value : Value
  plain : isPlainName key = true
  ordinary : key ≠ "Some"
  spells : Spells written.toList token
  alone : Alone token value

namespace Field

def line (field : Field) : String :=
  "    " ++ field.key ++ ": " ++ field.written ++ ","

def tokens (field : Field) : List Token :=
  [.name ⟨field.key, false⟩, .mark ':', field.token, .mark ',']

def entry (field : Field) : Entry :=
  .keyed (.name ⟨field.key, false⟩) field.value

end Field

/-- The text of a record. -/
def recordText (fields : List Field) : String :=
  "\n".intercalate ("(" :: fields.map Field.line ++ [")"])

/-! ## Scanning -/

namespace Spells

variable {chars : List Char} {token : Token}

theorem lexeme (spells : Spells chars token) : Lexeme chars token := by
  cases spells with
  | name first parts _ => exact .name first (List.all_eq_true.2 parts)
  | number first parts =>
      exact .number (by simp [isNumberStart, first]) (List.all_eq_true.2 parts)

theorem takes_separator (spells : Spells chars token) {c : Char} (separator : c = ':' ∨ c = ',') :
    token.takes c = false := by
  cases spells <;> rcases separator with rfl | rfl <;> simp [Token.takes] <;> decide

end Spells

theorem Field.lexes (field : Field) {rest : List Char} {tokens : List Token}
    (after : Lexes rest tokens) :
    Lexes (field.line.toList ++ '\n' :: rest) (field.tokens ++ tokens) := by
  have value : Lexes (field.written.toList ++ ',' :: '\n' :: rest)
      (field.token :: .mark ',' :: tokens) :=
    .token field.spells.lexeme (field.spells.takes_separator (.inr rfl))
      (.mark rfl (by decide) (.blank rfl after))
  have key : Spells field.key.toList (.name ⟨field.key, false⟩) := spells_of_isPlainName field.plain
  have whole : Lexes
      (field.key.toList ++ ':' :: ' ' :: (field.written.toList ++ ',' :: '\n' :: rest))
      (field.tokens ++ tokens) :=
    .token key.lexeme (key.takes_separator (.inl rfl)) (.mark rfl (by decide) (.blank rfl value))
  have characters : field.line.toList ++ '\n' :: rest = ' ' :: ' ' :: ' ' :: ' ' ::
      (field.key.toList ++ ':' :: ' ' :: (field.written.toList ++ ',' :: '\n' :: rest)) := by
    simp [Field.line]
  rw [characters]
  exact .blank rfl (.blank rfl (.blank rfl (.blank rfl whole)))

theorem lexes_lines (fields : List Field) :
    Lexes ((fields.flatMap fun field => field.line.toList ++ ['\n']) ++ [')'])
      (fields.flatMap Field.tokens ++ [.mark ')']) := by
  induction fields with
  | nil => exact .mark rfl (by decide) .done
  | cons field rest ih =>
      rw [List.flatMap_cons, List.flatMap_cons, List.append_assoc, List.append_assoc,
        List.append_assoc]
      exact field.lexes ih

theorem toList_recordText (fields : List Field) :
    (recordText fields).toList =
      '(' :: '\n' :: ((fields.flatMap fun field => field.line.toList ++ ['\n']) ++ [')']) := by
  have lines : ("\n".intercalate (fields.map Field.line ++ [")"])).toList =
      (fields.flatMap fun field => field.line.toList ++ ['\n']) ++ [')'] := by
    induction fields with
    | nil => simp
    | cons field rest ih =>
        rw [List.map_cons, List.cons_append, String.intercalate_cons_of_ne_nil (by simp),
          String.toList_append, String.toList_append, ih, List.flatMap_cons, List.append_assoc,
          List.append_assoc, List.append_assoc]
        rfl
  rw [recordText, List.cons_append, String.intercalate_cons_of_ne_nil (by simp),
    String.toList_append, String.toList_append, lines]
  rfl

theorem lexes_recordText (fields : List Field) :
    Lexes (recordText fields).toList
      (.mark '(' :: (fields.flatMap Field.tokens ++ [.mark ')'])) := by
  rw [toList_recordText]
  exact .token (.mark rfl) rfl (.blank rfl (lexes_lines fields))

/-! ## Reading -/

theorem Field.phrase (field : Field) :
    Phrase (.entry .round field.entry) [.name ⟨field.key, false⟩, .mark ':', field.token] := by
  have ordinary : (⟨field.key, false⟩ : Name) ≠ .present :=
    fun equal => field.ordinary (congrArg Name.identifier equal)
  exact .keyed (.name ordinary) field.alone.phrase

theorem phrase_fields (fields : List Field) :
    Phrase (.entries .round (fields.map Field.entry)) (fields.flatMap Field.tokens) := by
  induction fields with
  | nil => exact .nil
  | cons field rest ih => exact .more field.phrase ih

theorem phrase_record (fields : List Field) :
    Phrase (.value (.group none .round (fields.map Field.entry)))
      (.mark '(' :: (fields.flatMap Field.tokens ++ [.mark ')'])) := by
  have named : (fields.map Field.entry).all Entry.isNamed = true := by
    rw [List.all_map]
    exact List.all_eq_true.2 fun _ _ => rfl
  have admitted : Bracket.round.admits (fields.map Field.entry) = true := by
    rw [Bracket.admits, named, Bool.or_true]
  exact .group (phrase_fields fields) admitted

theorem nestsWithin_fields (fields : List Field) (limit : Nat) :
    Entry.allNestWithin (limit + 1) (fields.map Field.entry) = true := by
  induction fields with
  | nil => rfl
  | cons field rest ih =>
      have named : Value.nestsWithin limit (.name ⟨field.key, false⟩) = true := by
        cases limit <;> rfl
      rw [List.map_cons, Entry.allNestWithin, ih, Field.entry, Entry.nestsWithin, named,
        field.alone.nestsWithin limit]
      rfl

/-- The text of a record is read as its fields. -/
theorem ofText?_recordText (fields : List Field) :
    Value.ofText? [implicitSomeExtension] (recordText fields) =
      some (.group none .round (fields.map Field.entry)) := by
  have shallow : Value.nestsWithin nestingLimit (.group none .round (fields.map Field.entry)) =
      true := nestsWithin_fields fields 126
  rw [(phrase_record fields).ofText? (lexes_recordText fields), if_pos shallow]

theorem fields?_group (name : String) (fields : List Field) :
    Value.fields? name (.group none .round (fields.map Field.entry)) =
      some (fields.map fun field => (field.key, field.value)) := by
  have untagged : (none : Option Name).all (fun tag => decide (tag.identifier = name)) = true := rfl
  unfold Value.fields?
  dsimp only
  rw [if_pos untagged]
  induction fields with
  | nil => rfl
  | cons field rest ih =>
      rw [List.map_cons, List.mapM_cons, ih]
      rfl

end FrameForest.Ron
