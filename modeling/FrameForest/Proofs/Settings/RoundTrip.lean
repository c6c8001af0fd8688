import FrameForest.Proofs.Ron.Numerals
import FrameForest.Proofs.Ron.Records
import FrameForest.Settings.Text

/-!
# Settings survive their text

Settings are written as a record of five fields, each of which is read as the
value that was written.  So the text of settings gives these settings back, and
whatever is accepted has a text that is accepted as well.
-/

namespace FrameForest

namespace Ron.Field

/-- A field that holds a number. -/
def word (key : String) (plain : isPlainName key = true) (ordinary : key ≠ "Some")
    (value : UInt64) : Field where
  key := key
  written := toString value
  token := .number (toString value)
  value := .number (toString value)
  plain := plain
  ordinary := ordinary
  spells := spells_toString value
  alone := .number (isNumber_toString value)

end Ron.Field

namespace ReparentPolicy

theorem isPlainName_name (policy : ReparentPolicy) : Ron.isPlainName policy.name = true := by
  cases policy <;> decide

theorem name_ne_present (policy : ReparentPolicy) :
    (⟨policy.name, false⟩ : Ron.Name) ≠ .present := by
  cases policy <;> decide

theorem ofName?_name (policy : ReparentPolicy) : ofName? policy.name = some policy := by
  cases policy <;> decide

/-- The field that holds a policy. -/
def field (policy : ReparentPolicy) : Ron.Field where
  key := "reparent_policy"
  written := policy.name
  token := .name ⟨policy.name, false⟩
  value := .name ⟨policy.name, false⟩
  plain := by decide
  ordinary := by decide
  spells := Ron.spells_of_isPlainName policy.isPlainName_name
  alone := .name policy.name_ne_present

end ReparentPolicy

namespace Settings

/-- The fields of settings in the order in which they are written. -/
def fields (settings : Settings) : List Ron.Field :=
  [.word "max_samples_per_edge" (by decide) (by decide) settings.samplesPerEdge,
    .word "max_storage_time" (by decide) (by decide) settings.storageTime.nanos,
    .word "tolerance" (by decide) (by decide) settings.tolerance.nanos,
    settings.reparenting.field,
    .word "cache_size" (by decide) (by decide) settings.memoCapacity]

theorem render_eq_recordText (settings : Settings) :
    settings.render = Ron.recordText settings.fields := by
  rfl

/-- Every field is found under its key. -/
theorem ofFields?_fields (settings : Settings) :
    ofFields? (settings.fields.map fun field => (field.key, field.value)) = some settings := by
  have word (value : UInt64) : word? (.number (toString value)) = some value :=
    Ron.word?_toString value
  have policy : policy? (.name ⟨settings.reparenting.name, false⟩) = some settings.reparenting :=
    settings.reparenting.ofName?_name
  simp [ofFields?, fields, Ron.Field.word, ReparentPolicy.field, Ron.field?, word, policy]

theorem ofText?_render (settings : Settings) : ofText? settings.render = some settings := by
  rw [ofText?, render_eq_recordText, Ron.ofText?_recordText, Option.bind_eq_bind,
    Option.bind_some, Ron.fields?_group, Option.bind_eq_bind, Option.bind_some, ofFields?_fields]

theorem load_render (settings : Settings) : load settings.render = settings.checked := by
  rw [load, ofText?_render]

theorem checked_eq (settings : Settings) :
    settings.checked =
      if 1 ≤ settings.samplesPerEdge then .ok settings
      else .error (.configuration "max_samples_per_edge must be at least 1") := by
  have positive : 1 ≤ settings.samplesPerEdge ↔ settings.samplesPerEdge ≠ 0 := by
    rw [UInt64.le_iff_toNat_le, Ne, ← UInt64.toNat_inj]
    exact Nat.pos_iff_ne_zero
  rw [checked]
  by_cases none : settings.samplesPerEdge = 0
  · rw [if_pos none, if_neg (fun some => positive.1 some none)]
  · rw [if_neg none, if_pos (positive.2 none)]

theorem of_load_eq_ok {text : String} {settings : Settings} (accepted : load text = .ok settings) :
    1 ≤ settings.samplesPerEdge := by
  unfold load at accepted
  split at accepted
  · cases accepted
  · rw [checked_eq] at accepted
    split at accepted
    · cases accepted
      assumption
    · cases accepted

/-- The text of settings is accepted with these settings, unless an edge could not keep a sample.
Settings that any text is accepted with are accepted from their own text. -/
theorem load_render_and_of_load :
    (∀ settings : Settings, load settings.render =
      if 1 ≤ settings.samplesPerEdge then .ok settings
      else .error (.configuration "max_samples_per_edge must be at least 1")) ∧
    ∀ (text : String) (settings : Settings), load text = .ok settings →
      1 ≤ settings.samplesPerEdge ∧ load settings.render = .ok settings := by
  constructor
  · intro settings
    rw [load_render, checked_eq]
  · intro text settings accepted
    have positive := of_load_eq_ok accepted
    constructor
    · exact positive
    · rw [load_render, checked_eq, if_pos positive]

/-- The standard settings with two fields of their own. -/
def rejecting : Settings :=
  { standard with tolerance := ⟨5000000⟩, reparenting := .reject }

theorem load_render_rejecting :
    load "( tolerance: 5000000, reparent_policy: Reject )" = .ok rejecting ∧
      1 ≤ rejecting.samplesPerEdge ∧ load rejecting.render = .ok rejecting := by
  have read : ofText? "( tolerance: 5000000, reparent_policy: Reject )" = some rejecting := by
    decide +kernel
  have accepted : load "( tolerance: 5000000, reparent_policy: Reject )" = .ok rejecting := by
    rw [load, read]
    rfl
  exact ⟨accepted, load_render_and_of_load.2 _ _ accepted⟩

end Settings

end FrameForest
