import Mathlib.Data.List.Nodup
import FrameForest.Proofs.Ron.Numerals
import FrameForest.Proofs.Ron.Phrases
import FrameForest.Settings.Text

/-!
# Texts override standard settings

A text of settings is a list of assignments: to fields of settings, in any order,
and to fields that settings do not have.  However it is laid out, it is read as the
standard settings with the fields replaced that it assigns.  It is refused if it
assigns one of them twice, or if a value that is passed over nests deeper than the
reader goes.
-/

namespace FrameForest

/-- The fields of settings that hold words of 64 bits. -/
inductive WordField where
  | samplesPerEdge
  | storageTime
  | tolerance
  | memoCapacity
  deriving DecidableEq

namespace WordField

def key : WordField → String
  | samplesPerEdge => "max_samples_per_edge"
  | storageTime => "max_storage_time"
  | tolerance => "tolerance"
  | memoCapacity => "cache_size"

def held (field : WordField) (settings : Settings) : UInt64 :=
  match field with
  | samplesPerEdge => settings.samplesPerEdge
  | storageTime => settings.storageTime.nanos
  | tolerance => settings.tolerance.nanos
  | memoCapacity => settings.memoCapacity

def replace (field : WordField) (settings : Settings) (value : UInt64) : Settings :=
  match field with
  | samplesPerEdge => { settings with samplesPerEdge := value }
  | storageTime => { settings with storageTime := ⟨value⟩ }
  | tolerance => { settings with tolerance := ⟨value⟩ }
  | memoCapacity => { settings with memoCapacity := value }

end WordField

/-- What a field of a text assigns. -/
inductive Assignment where
  | word (field : WordField) (value : UInt64)
  | reparenting (policy : ReparentPolicy)
  /-- To a field that settings do not have. -/
  | foreign (key : String) (value : Ron.Value)

namespace Assignment

def policyKey : String :=
  "reparent_policy"

def knownKeys : List String :=
  ["max_samples_per_edge", "max_storage_time", "tolerance", "reparent_policy", "cache_size"]

/-- The key of the field of settings that is assigned. -/
def key? : Assignment → Option String
  | word field _ => some field.key
  | reparenting _ => some policyKey
  | foreign _ _ => none

def apply (settings : Settings) : Assignment → Settings
  | word field value => field.replace settings value
  | reparenting policy => { settings with reparenting := policy }
  | foreign _ _ => settings

/-- A value that is passed over nests no deeper than the reader goes from there.  It stands two
levels below the whole text. -/
def isShallow : Assignment → Bool
  | foreign _ value => value.nestsWithin (Ron.nestingLimit - 2)
  | _ => true

/-- The key and the value that write an assignment. -/
inductive Writes : Assignment → String → Ron.Value → Prop where
  | word {field : WordField} {value : UInt64} {literal : String}
      (natural : Ron.Natural literal.toList value.toNat) :
      Writes (.word field value) field.key (.number literal)
  | reparenting {policy : ReparentPolicy} {raw : Bool} :
      Writes (.reparenting policy) policyKey (.name ⟨policy.name, raw⟩)
  | foreign {key : String} {value : Ron.Value} (unknown : key ∉ knownKeys) :
      Writes (.foreign key value) key value

/-- The entry assigns it, with a plain or a raw name as its key. -/
def EnteredAs (assignment : Assignment) (entry : Ron.Entry) : Prop :=
  ∃ key raw value, entry = .keyed (.name ⟨key, raw⟩) value ∧ assignment.Writes key value

/-- The value of a whole text, with or without the name of the record in front. -/
inductive Compose : List Assignment → Ron.Value → Prop where
  | nothing : Compose [] .unit
  | fields {tag : Option Ron.Name} {assignments : List Assignment} {entries : List Ron.Entry}
      (proper : ∀ name ∈ tag, name.identifier = "TransformTreeConfig")
      (entered : List.Forall₂ EnteredAs assignments entries) :
      Compose assignments (.group tag .round entries)

end Assignment

namespace Settings

/-- The text assigns to fields in this order. -/
def Assigns (text : String) (assignments : List Assignment) : Prop :=
  ∃ value tokens, Assignment.Compose assignments value ∧ Ron.Phrase (.value value) tokens ∧
    Ron.Lexes text.toList tokens

end Settings

/-! ## Reading one field -/

/-- A field of settings: how it is read, what settings hold there, and what an assignment says
about it. -/
structure Slot (β : Type) where
  key : String
  known : key ∈ Assignment.knownKeys
  read : Ron.Value → Option β
  held : Settings → β
  told? : Assignment → Option β
  held_apply : ∀ settings assignment,
    held (Assignment.apply settings assignment) = (told? assignment).getD (held settings)
  isSome_told? : ∀ assignment, (told? assignment).isSome = decide (assignment.key? = some key)
  read_of_writes : ∀ {assignment key value told}, assignment.Writes key value →
    told? assignment = some told → read value = some told

namespace Assignment

theorem Writes.key?_eq {assignment : Assignment} {key : String} {value : Ron.Value}
    (writes : assignment.Writes key value) :
    assignment.key? = if key ∈ knownKeys then some key else none := by
  cases writes with
  | @word field => cases field <;> rfl
  | reparenting => rfl
  | foreign unknown => exact (if_neg unknown).symm

end Assignment

namespace Slot

def word (field : WordField) : Slot UInt64 where
  key := field.key
  known := by cases field <;> decide
  read := Settings.word?
  held settings := field.held settings
  told?
    | .word other value => if other = field then some value else none
    | _ => none
  held_apply settings assignment := by
    cases assignment with
    | word other value => cases field <;> cases other <;> rfl
    | reparenting policy => cases field <;> rfl
    | foreign key value => rfl
  isSome_told? assignment := by
    cases assignment with
    | word other value => cases field <;> cases other <;> rfl
    | reparenting policy => cases field <;> rfl
    | foreign key value => rfl
  read_of_writes writes told := by
    cases writes with
    | word natural =>
        dsimp only at told
        split at told <;> cases told
        exact natural.word?_eq
    | reparenting => cases told
    | foreign => cases told

def policy : Slot ReparentPolicy where
  key := Assignment.policyKey
  known := by decide
  read := Settings.policy?
  held := Settings.reparenting
  told?
    | .reparenting policy => some policy
    | _ => none
  held_apply settings assignment := by
    cases assignment with
    | word field value => cases field <;> rfl
    | _ => rfl
  isSome_told? assignment := by
    cases assignment with
    | word field value => cases field <;> rfl
    | _ => rfl
  read_of_writes writes told := by
    cases writes with
    | @reparenting assigned raw =>
        rw [← told]
        cases assigned <;> rfl
    | _ => cases told

variable {β : Type} (slot : Slot β)

theorem key?_of_told? {assignment : Assignment} {told : β}
    (tells : slot.told? assignment = some told) : assignment.key? = some slot.key := by
  have answers := slot.isSome_told? assignment
  rw [tells] at answers
  exact of_decide_eq_true answers.symm

theorem key?_of_told?_eq_none {assignment : Assignment} (silent : slot.told? assignment = none) :
    assignment.key? ≠ some slot.key := by
  have answers := slot.isSome_told? assignment
  rw [silent] at answers
  exact of_decide_eq_false answers.symm

/-- As often as the key occurs, something is told about the field. -/
theorem length_filterMap_told? (assignments : List Assignment) :
    (assignments.filterMap slot.told?).length =
      (assignments.filterMap Assignment.key?).count slot.key := by
  induction assignments with
  | nil => rfl
  | cons assignment rest ih =>
      cases tells : slot.told? assignment with
      | none =>
          have other := slot.key?_of_told?_eq_none tells
          rw [List.filterMap_cons_none tells, ih]
          cases keyed : assignment.key? with
          | none => rw [List.filterMap_cons_none keyed]
          | some key =>
              rw [List.filterMap_cons_some keyed, List.count_cons_of_ne]
              rintro rfl
              exact other keyed
      | some told =>
          rw [List.filterMap_cons_some tells, List.filterMap_cons_some (slot.key?_of_told? tells),
            List.count_cons_self, List.length_cons, ih]

/-- After assignments a field holds what was told about it last. -/
theorem held_foldl (assignments : List Assignment) (settings : Settings) :
    slot.held (assignments.foldl Assignment.apply settings) =
      (assignments.filterMap slot.told?).getLast?.getD (slot.held settings) := by
  induction assignments generalizing settings with
  | nil => rfl
  | cons assignment rest ih =>
      rw [List.foldl_cons, ih, slot.held_apply]
      cases tells : slot.told? assignment with
      | none => rw [List.filterMap_cons_none tells, Option.getD_none]
      | some told => rw [List.filterMap_cons_some tells, List.getLast?_cons]; rfl

/-- What the reader finds under the key of the field is what the assignments tell about it. -/
theorem readings {assignments : List Assignment} {fields : List (String × Ron.Value)}
    (written : List.Forall₂ (fun assignment field => assignment.Writes field.1 field.2)
      assignments fields) :
    (fields.filter fun field => field.1 = slot.key).map (fun field => slot.read field.2) =
      (assignments.filterMap slot.told?).map some := by
  induction written with
  | nil => rfl
  | @cons assignment field assignments fields writes _ ih =>
      have keyed := writes.key?_eq
      cases tells : slot.told? assignment with
      | none =>
          have other : ¬field.1 = slot.key := by
            intro same
            rw [same, if_pos slot.known] at keyed
            exact slot.key?_of_told?_eq_none tells keyed
          rw [List.filterMap_cons_none tells, List.filter_cons_of_neg (by simpa using other), ih]
      | some told =>
          have same : field.1 = slot.key := by
            rw [slot.key?_of_told? tells] at keyed
            split at keyed
            · exact (Option.some.inj keyed).symm
            · cases keyed
          rw [List.filterMap_cons_some tells, List.filter_cons_of_pos (by simpa using same),
            List.map_cons, List.map_cons, ih, slot.read_of_writes writes tells]

theorem field?_eq {assignments : List Assignment} {fields : List (String × Ron.Value)}
    (written : List.Forall₂ (fun assignment field => assignment.Writes field.1 field.2)
      assignments fields) (settings : Settings) :
    Ron.field? fields slot.key slot.read (slot.held settings) =
      if (assignments.filterMap Assignment.key?).count slot.key ≤ 1 then
        some (slot.held (assignments.foldl Assignment.apply settings))
      else none := by
  have readings := slot.readings written
  rw [← slot.length_filterMap_told?, slot.held_foldl]
  unfold Ron.field?
  generalize fields.filter (fun field => field.1 = slot.key) = found at readings ⊢
  generalize assignments.filterMap slot.told? = told at readings ⊢
  match found, told with
  | [], [] => rfl
  | [_], [_] => exact (List.cons.inj readings).1
  | _ :: _ :: _, _ :: _ :: _ => rfl
  | [], _ :: _ | _ :: _, [] => cases readings
  | [_], _ :: _ :: _ | _ :: _ :: _, [_] => cases (List.cons.inj readings).2

end Slot

theorem Ron.field?_map {β γ : Type} (fields : List (String × Value)) (key : String)
    (read : Value → Option β) (f : β → γ) (default : β) :
    field? fields key (fun value => (read value).map f) (f default) =
      (field? fields key read default).map f := by
  unfold field?
  split <;> rfl

namespace Settings

section Fields

variable {assignments : List Assignment} {fields : List (String × Ron.Value)}
  (written : List.Forall₂ (fun assignment field => assignment.Writes field.1 field.2)
    assignments fields)

include written

theorem word?_field (field : WordField) : Ron.field? fields field.key word? (field.held standard) =
    if (assignments.filterMap Assignment.key?).count field.key ≤ 1 then
      some (field.held (assignments.foldl Assignment.apply standard))
    else none :=
  (Slot.word field).field?_eq written standard

theorem duration?_field (field : WordField) :
    Ron.field? fields field.key (fun value => (word? value).map Duration.mk)
        ⟨field.held standard⟩ =
      if (assignments.filterMap Assignment.key?).count field.key ≤ 1 then
        some ⟨field.held (assignments.foldl Assignment.apply standard)⟩
      else none := by
  rw [Ron.field?_map, word?_field written]
  split <;> rfl

omit written in
theorem known_of_twice {key : String}
    (twice : ¬(assignments.filterMap Assignment.key?).count key ≤ 1) :
    key ∈ Assignment.knownKeys := by
  have occurs : key ∈ assignments.filterMap Assignment.key? := List.count_pos_iff.1 (by omega)
  obtain ⟨assignment, _, keyed⟩ := List.mem_filterMap.1 occurs
  cases assignment with
  | word field value =>
      cases keyed
      cases field <;> decide
  | reparenting policy =>
      cases keyed
      decide
  | foreign => cases keyed

/-- The standard settings with the assigned fields replaced, unless one of them occurs twice. -/
theorem ofFields?_eq : ofFields? fields =
    if (assignments.filterMap Assignment.key?).Nodup then
      some (assignments.foldl Assignment.apply standard)
    else none := by
  have samples := word?_field written .samplesPerEdge
  have storage := duration?_field written .storageTime
  have tolerance := duration?_field written .tolerance
  have policy := Slot.policy.field?_eq written standard
  have memo := word?_field written .memoCapacity
  unfold ofFields?
  dsimp only [Slot.policy, WordField.key, WordField.held, Assignment.policyKey] at *
  rw [samples, storage, tolerance, policy, memo]
  by_cases once : (assignments.filterMap Assignment.key?).Nodup
  · have rare := List.nodup_iff_count_le_one.1 once
    simp only [once, rare, if_true, Option.bind_eq_bind, Option.bind_some]
  · obtain ⟨key, twice⟩ := not_forall.1 (mt List.nodup_iff_count_le_one.2 once)
    have known := known_of_twice twice
    simp only [Assignment.knownKeys, List.mem_cons, List.not_mem_nil, or_false] at known
    rw [if_neg once]
    rcases known with rfl | rfl | rfl | rfl | rfl <;> simp [twice]

end Fields

end Settings

/-! ## Reading all fields -/

namespace Assignment

variable {assignments : List Assignment}

theorem Writes.nestsWithin {assignment : Assignment} {key : String} {value : Ron.Value}
    (writes : assignment.Writes key value) :
    value.nestsWithin (Ron.nestingLimit - 2) = assignment.isShallow := by
  cases writes <;> rfl

theorem nestsWithin_entries {entries : List Ron.Entry}
    (entered : List.Forall₂ EnteredAs assignments entries) :
    Ron.Entry.allNestWithin (Ron.nestingLimit - 1) entries = assignments.all isShallow := by
  induction entered with
  | nil => rfl
  | cons first _ ih =>
      obtain ⟨key, raw, value, rfl, writes⟩ := first
      have level : Ron.Entry.nestsWithin (Ron.nestingLimit - 1) (.keyed (.name ⟨key, raw⟩) value) =
          value.nestsWithin (Ron.nestingLimit - 2) := rfl
      rw [Ron.Entry.allNestWithin, ih, level, writes.nestsWithin, List.all_cons]

theorem mapM_entries {entries : List Ron.Entry}
    (entered : List.Forall₂ EnteredAs assignments entries) :
    ∃ fields, (entries.mapM fun entry => match entry with
        | .keyed (.name key) value => some (key.identifier, value)
        | _ => none) = some fields ∧
      List.Forall₂ (fun assignment field => assignment.Writes field.1 field.2)
        assignments fields := by
  induction entered with
  | nil => exact ⟨[], rfl, .nil⟩
  | cons first _ ih =>
      obtain ⟨key, raw, value, rfl, writes⟩ := first
      obtain ⟨fields, read, written⟩ := ih
      exact ⟨(key, value) :: fields, by rw [List.mapM_cons, read]; rfl, .cons writes written⟩

namespace Compose

variable {value : Ron.Value}

theorem nestsWithin (compose : Compose assignments value) :
    value.nestsWithin Ron.nestingLimit = assignments.all isShallow := by
  cases compose with
  | nothing => rfl
  | fields _ entered => exact nestsWithin_entries entered

theorem exists_fields (compose : Compose assignments value) :
    ∃ fields, value.fields? "TransformTreeConfig" = some fields ∧
      List.Forall₂ (fun assignment field => assignment.Writes field.1 field.2)
        assignments fields := by
  cases compose with
  | nothing => exact ⟨[], rfl, .nil⟩
  | @fields tag _ entries proper entered =>
      obtain ⟨fields, read, written⟩ := mapM_entries entered
      refine ⟨fields, ?_, written⟩
      have named :
          tag.all (fun name => decide (name.identifier = "TransformTreeConfig")) = true := by
        cases tag with
        | none => rfl
        | some name => exact decide_eq_true (proper name rfl)
      unfold Ron.Value.fields?
      dsimp only
      rw [if_pos named]
      exact read

end Compose

end Assignment

namespace Settings

variable {text : String} {assignments : List Assignment}

theorem ofText?_of_assigns (assigns : Assigns text assignments) : ofText? text =
    if (assignments.filterMap Assignment.key?).Nodup ∧ assignments.all Assignment.isShallow then
      some (assignments.foldl Assignment.apply standard)
    else none := by
  obtain ⟨value, tokens, compose, phrase, lexes⟩ := assigns
  obtain ⟨fields, read, written⟩ := compose.exists_fields
  rw [ofText?, phrase.ofText? lexes, compose.nestsWithin]
  by_cases shallow : assignments.all Assignment.isShallow = true
  · rw [if_pos shallow, Option.bind_eq_bind, Option.bind_some, read, Option.bind_eq_bind,
      Option.bind_some, ofFields?_eq written]
    simp only [shallow, and_true]
  · rw [if_neg shallow, if_neg fun both => shallow both.2]
    rfl

theorem load_of_not_shallow (assigns : Assigns text assignments)
    (deep : assignments.all Assignment.isShallow = false) :
    load text = .error (.configuration "Syntax error in config") := by
  unfold load
  rw [ofText?_of_assigns assigns, deep, if_neg (by simp)]

/-- However a text is laid out, it overrides the standard settings. -/
theorem load_of_assigns (assigns : Assigns text assignments) : load text =
    if (assignments.filterMap Assignment.key?).Nodup ∧ assignments.all Assignment.isShallow then
      (assignments.foldl Assignment.apply standard).checked
    else .error (.configuration "Syntax error in config") := by
  unfold load
  rw [ofText?_of_assigns assigns]
  by_cases accepted :
      (assignments.filterMap Assignment.key?).Nodup ∧ assignments.all Assignment.isShallow = true
  · rw [if_pos accepted, if_pos accepted]
  · rw [if_neg accepted, if_neg accepted]

/-! ## Two texts -/

open Ron

/-- A text with a comment, a number in another base and a field that settings do not have. -/
def partialText : String :=
  "TransformTreeConfig(tolerance: 0x1_F, // ns\n u: [/**/ 'x', Some(-1)], reparent_policy: Reject,)"

def partialTokens : List Token :=
  [.name ⟨"TransformTreeConfig", false⟩, .mark '(', .name ⟨"tolerance", false⟩, .mark ':',
    .number "0x1_F", .mark ',', .name ⟨"u", false⟩, .mark ':', .mark '[', .character 'x', .mark ',',
    .name .present, .mark '(', .number "-1", .mark ')', .mark ']', .mark ',',
    .name ⟨"reparent_policy", false⟩, .mark ':', .name ⟨"Reject", false⟩, .mark ',', .mark ')']

def passedOver : Value :=
  .group none .square [.plain (.character 'x'), .plain (.optional (.number "-1"))]

theorem lexes_partialText : Lexes partialText.toList partialTokens := by
  refine .token (.name rfl rfl : Lexeme "TransformTreeConfig".toList _) rfl ?_
  refine .token (.mark rfl) rfl ?_
  refine .token (.name rfl rfl : Lexeme "tolerance".toList _) rfl ?_
  refine .mark rfl (by decide) (.blank rfl ?_)
  refine .token (.number rfl rfl : Lexeme "0x1_F".toList _) rfl ?_
  refine .mark rfl (by decide) (.blank rfl ?_)
  refine .line (by decide : '\n' ∉ " ns".toList) (.blank rfl ?_)
  refine .token (.name rfl rfl : Lexeme ['u'] _) rfl ?_
  refine .mark rfl (by decide) (.blank rfl ?_)
  refine .mark rfl (by decide) (.comment .close (.blank rfl ?_))
  refine .token (.character (by decide) (by decide)) rfl ?_
  refine .mark rfl (by decide) (.blank rfl ?_)
  refine .token (.name rfl rfl : Lexeme "Some".toList _) rfl ?_
  refine .token (.mark rfl) rfl ?_
  refine .token (.number rfl rfl : Lexeme "-1".toList _) rfl ?_
  refine .mark rfl (by decide) (.mark rfl (by decide) (.mark rfl (by decide) (.blank rfl ?_)))
  refine .token (.name rfl rfl : Lexeme "reparent_policy".toList _) rfl ?_
  refine .mark rfl (by decide) (.blank rfl ?_)
  refine .token (.name rfl rfl : Lexeme "Reject".toList _) rfl ?_
  exact .mark rfl (by decide) (.mark rfl (by decide) .done)

theorem phrase_passedOver : Phrase (.value passedOver)
    [.mark '[', .character 'x', .mark ',', .name .present, .mark '(', .number "-1", .mark ')',
      .mark ']'] := by
  have present : Phrase (.value (.optional (.number "-1")))
      [.name .present, .mark '(', .number "-1", .mark ')'] :=
    .optional (.last (.plain (.number (by decide))))
  exact .group (.more (.plain .character) (.last (.plain present))) rfl

theorem assigns_partialText : Assigns partialText
    [.word .tolerance 31, .foreign "u" passedOver, .reparenting .reject] := by
  have digit : Numeral 16 ['1'] 1 := .first rfl (by decide)
  have last : Decimal.digitValue? 'F' = some 15 := rfl
  have numeral : Numeral 16 ['1', '_', 'F'] 31 := digit.underscore.digit last (by decide)
  have natural : Natural "0x1_F".toList (31 : UInt64).toNat := .hexadecimal numeral
  have tolerance : Phrase (.entry .round (.keyed (.name ⟨"tolerance", false⟩) (.number "0x1_F")))
      [.name ⟨"tolerance", false⟩, .mark ':', .number "0x1_F"] :=
    .keyed (.name (by decide)) (.number (natural.isNumber (by decide)))
  have foreign : Phrase (.entry .round (.keyed (.name ⟨"u", false⟩) passedOver)) _ :=
    .keyed (.name (by decide)) phrase_passedOver
  have policy : Phrase (.entry .round (.keyed (.name ⟨"reparent_policy", false⟩)
      (.name ⟨"Reject", false⟩)))
      [.name ⟨"reparent_policy", false⟩, .mark ':', .name ⟨"Reject", false⟩] :=
    .keyed (.name (by decide)) (.name (by decide))
  have phrase : Phrase (.value (.group (some ⟨"TransformTreeConfig", false⟩) .round _)) _ :=
    .tagged (by decide) (by decide) (.more tolerance (.more foreign (.more policy .nil))) rfl
  refine ⟨_, partialTokens, .fields ?_ ?_, phrase, lexes_partialText⟩
  · rintro name ⟨⟩
    rfl
  · exact .cons ⟨_, _, _, rfl, .word natural⟩ (.cons ⟨_, _, _, rfl, .foreign (by decide)⟩
      (.cons ⟨_, _, _, rfl, .reparenting⟩ .nil))

theorem load_partialText :
    Assigns partialText [.word .tolerance 31, .foreign "u" passedOver, .reparenting .reject] ∧
      load partialText = .ok { standard with tolerance := ⟨31⟩, reparenting := .reject } := by
  refine ⟨assigns_partialText, (load_of_assigns assigns_partialText).trans ?_⟩
  exact if_pos (by decide)

/-- Square brackets around square brackets. -/
def squares : Nat → Value
  | 0 => .group none .square []
  | depth + 1 => .group none .square [.plain (squares depth)]

theorem phrase_squares (depth : Nat) : Phrase (.value (squares depth))
    (List.replicate (depth + 1) (.mark '[') ++ List.replicate (depth + 1) (.mark ']')) := by
  induction depth with
  | zero => exact .group .nil rfl
  | succ depth ih =>
      have closing : List.replicate (depth + 1) (Token.mark ']') ++ [.mark ']'] =
          List.replicate (depth + 2) (.mark ']') := List.replicate_succ'.symm
      have phrase := Phrase.group (.last (.plain ih)) (rfl : Bracket.square.admits _ = true)
      change Phrase _ (.mark '[' :: (_ ++ _ ++ [.mark ']'])) at phrase
      rw [List.append_assoc, closing] at phrase
      exact phrase

/-- Each pair of brackets takes two levels. -/
theorem nestsWithin_squares (depth limit : Nat) :
    (squares depth).nestsWithin limit = decide (2 * depth < limit) := by
  induction depth generalizing limit with
  | zero => cases limit <;> rfl
  | succ depth ih =>
      match limit with
      | 0 | 1 => simp [squares, Value.nestsWithin, Entry.allNestWithin, Entry.nestsWithin]
      | limit + 2 =>
          simp only [squares, Value.nestsWithin, Entry.allNestWithin, Entry.nestsWithin, ih,
            Bool.and_true, decide_eq_decide]
          omega

/-- A field that settings do not have, with square brackets as its value. -/
def squaresText (depth : Nat) : String :=
  String.ofList ('(' :: 'u' :: ':' :: ' ' ::
    (List.replicate (depth + 1) '[' ++ (List.replicate (depth + 1) ']' ++ [')'])))

theorem assigns_squaresText (depth : Nat) :
    Assigns (squaresText depth) [.foreign "u" (squares depth)] := by
  have phrase : Phrase (.value (.group none .round [.keyed (.name ⟨"u", false⟩) (squares depth)]))
      (.mark '(' :: .name ⟨"u", false⟩ :: .mark ':' :: (List.replicate (depth + 1) (.mark '[') ++
        (List.replicate (depth + 1) (.mark ']') ++ [.mark ')']))) := by
    rw [← List.append_assoc]
    exact .group (.last (.keyed (.name (by decide)) (phrase_squares depth))) rfl
  refine ⟨_, _, .fields (by simp) (.cons ⟨_, _, _, rfl, .foreign (by decide)⟩ .nil), phrase, ?_⟩
  rw [squaresText, String.toList_ofList]
  refine .token (.mark rfl) rfl ?_
  refine .token (.name rfl rfl : Lexeme ['u'] _) rfl ?_
  refine .mark rfl (by decide) (.blank rfl ?_)
  refine .marks rfl (by decide) _ (.marks rfl (by decide) _ ?_)
  exact .mark rfl (by decide) .done

/-- The reader does not go deep enough to pass over 300 levels of brackets. -/
theorem load_squaresText_refused :
    Assigns (squaresText 299) [.foreign "u" (squares 299)] ∧
      ([.foreign "u" (squares 299)].filterMap Assignment.key?).Nodup ∧
      load (squaresText 299) = .error (.configuration "Syntax error in config") ∧
      load (squaresText 299) ≠
        ([.foreign "u" (squares 299)].foldl Assignment.apply standard).checked := by
  have assigns := assigns_squaresText 299
  have deep : [.foreign "u" (squares 299)].all Assignment.isShallow = false := by
    rw [List.all_cons, Assignment.isShallow, nestsWithin_squares]
    rfl
  have refused := load_of_not_shallow assigns deep
  refine ⟨assigns, List.nodup_nil, refused, ?_⟩
  rw [refused]
  rintro ⟨⟩

end Settings

end FrameForest
