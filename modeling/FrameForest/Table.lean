/-!
# Tables

A finite map kept as a list of bindings with distinct keys, in the order in which
the keys first arrived.  `find?` is the view through which every operation is
described.
-/

namespace FrameForest

structure Table (κ β : Type) where
  bindings : List (κ × β)
  distinct : (bindings.map Prod.fst).Nodup

namespace Table

variable {κ β : Type}

def empty : Table κ β :=
  ⟨[], List.nodup_nil⟩

instance : EmptyCollection (Table κ β) := ⟨empty⟩

def size (table : Table κ β) : Nat :=
  table.bindings.length

def keys (table : Table κ β) : List κ :=
  table.bindings.map Prod.fst

def values (table : Table κ β) : List β :=
  table.bindings.map Prod.snd

/-- Changes every value and no key. -/
def mapValues (f : β → β) (table : Table κ β) : Table κ β :=
  ⟨table.bindings.map fun (key, value) => (key, f value), by
    simpa [Function.comp_def] using table.distinct⟩

/-- The bindings ordered by key. -/
def sorted (le : κ → κ → Bool) (table : Table κ β) : List (κ × β) :=
  table.bindings.mergeSort fun left right => le left.1 right.1

variable [DecidableEq κ]

def find? (table : Table κ β) (key : κ) : Option β :=
  (table.bindings.find? fun binding => binding.1 = key).map Prod.snd

def contains (table : Table κ β) (key : κ) : Bool :=
  (table.find? key).isSome

def erase (table : Table κ β) (key : κ) : Table κ β :=
  ⟨table.bindings.filter fun binding => binding.1 ≠ key,
    table.distinct.sublist (List.filter_sublist.map Prod.fst)⟩

private theorem map_fst_overwrite (bindings : List (κ × β)) (key : κ) (value : β) :
    (bindings.map fun binding => if binding.1 = key then (key, value) else binding).map Prod.fst
      = bindings.map Prod.fst := by
  rw [List.map_map]
  refine List.map_congr_left fun binding _ => ?_
  by_cases same : binding.1 = key <;> simp [same]

private theorem not_mem_keys_of_find?_eq_none {table : Table κ β} {key : κ}
    (absent : table.find? key = none) : key ∉ table.bindings.map Prod.fst := by
  simp only [find?, Option.map_eq_none_iff, List.find?_eq_none, decide_eq_true_eq] at absent
  intro member
  obtain ⟨binding, bound, rfl⟩ := List.mem_map.1 member
  exact absent binding bound rfl

/-- Overwrites the value of a present key in its place and appends a new key at the end. -/
def insert (table : Table κ β) (key : κ) (value : β) : Table κ β :=
  match found : table.find? key with
  | some _ =>
    ⟨table.bindings.map fun binding => if binding.1 = key then (key, value) else binding, by
      rw [map_fst_overwrite]; exact table.distinct⟩
  | none =>
    ⟨table.bindings ++ [(key, value)], by
      rw [List.map_append, List.nodup_append]
      refine ⟨table.distinct, by simp, fun other present last same => ?_⟩
      simp only [List.map_cons, List.map_nil, List.mem_singleton] at same
      intro equal
      subst equal same
      exact not_mem_keys_of_find?_eq_none found present⟩

@[simp] theorem find?_empty (key : κ) : (∅ : Table κ β).find? key = none := rfl

theorem find?_eq_some_iff {table : Table κ β} {key : κ} {value : β} :
    table.find? key = some value ↔ (key, value) ∈ table.bindings := by
  obtain ⟨bindings, distinct⟩ := table
  unfold find?
  induction bindings with
  | nil => simp
  | cons binding rest ih =>
      rw [List.map_cons, List.nodup_cons] at distinct
      by_cases same : binding.1 = key
      · subst same
        have absent : (binding.1, value) ∉ rest := fun member =>
          distinct.1 (List.mem_map.2 ⟨_, member, rfl⟩)
        simp [absent, Prod.ext_iff, eq_comm]
      · have differ : (key, value) ≠ binding := fun equal => same (by rw [← equal])
        simpa [same, differ] using ih distinct.2

theorem find?_eq_none_iff {table : Table κ β} {key : κ} :
    table.find? key = none ↔ key ∉ table.keys := by
  refine ⟨not_mem_keys_of_find?_eq_none, fun absent => ?_⟩
  rw [Option.eq_none_iff_forall_ne_some]
  intro value found
  exact absent (List.mem_map.2 ⟨_, find?_eq_some_iff.1 found, rfl⟩)

theorem mem_insert {table : Table κ β} {key other : κ} {value old : β} :
    (other, old) ∈ (table.insert key value).bindings ↔
      if other = key then old = value else (other, old) ∈ table.bindings := by
  unfold insert
  split
  · rename_i present found
    have bound := find?_eq_some_iff.1 found
    simp only [List.mem_map]
    constructor
    · rintro ⟨binding, member, equal⟩
      by_cases same : binding.1 = key
      · rw [if_pos same, Prod.mk.injEq] at equal
        rw [if_pos equal.1.symm]
        exact equal.2.symm
      · rw [if_neg same] at equal
        subst equal
        rwa [if_neg same]
    · intro expected
      by_cases same : other = key
      · rw [if_pos same] at expected
        exact ⟨_, bound, by simp [same, expected]⟩
      · rw [if_neg same] at expected
        exact ⟨_, expected, by simp [same]⟩
  · rename_i absent
    have unbound := not_mem_keys_of_find?_eq_none absent
    rw [List.mem_append, List.mem_singleton, Prod.mk.injEq]
    by_cases same : other = key
    · subst same
      have missing : (other, old) ∉ table.bindings := fun member =>
        unbound (List.mem_map.2 ⟨_, member, rfl⟩)
      simp [missing]
    · simp [same]

theorem find?_insert (table : Table κ β) (key other : κ) (value : β) :
    (table.insert key value).find? other =
      if other = key then some value else table.find? other := by
  refine Option.ext fun found => ?_
  rw [find?_eq_some_iff, mem_insert]
  split
  · simp [eq_comm]
  · rw [find?_eq_some_iff]

@[simp] theorem find?_insert_self (table : Table κ β) (key : κ) (value : β) :
    (table.insert key value).find? key = some value := by
  rw [find?_insert, if_pos rfl]

theorem find?_erase (table : Table κ β) (key other : κ) :
    (table.erase key).find? other = if other = key then none else table.find? other := by
  refine Option.ext fun found => ?_
  rw [find?_eq_some_iff]
  by_cases same : other = key <;> simp [erase, same, find?_eq_some_iff]

@[simp] theorem find?_erase_self (table : Table κ β) (key : κ) :
    (table.erase key).find? key = none := by
  rw [find?_erase, if_pos rfl]

theorem find?_mapValues (f : β → β) (table : Table κ β) (key : κ) :
    (table.mapValues f).find? key = (table.find? key).map f := by
  simp [find?, mapValues, List.find?_map, Function.comp_def]

end Table

end FrameForest
