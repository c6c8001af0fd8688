import FrameForest.Forest.Memo
import FrameForest.Proofs.Histories
import FrameForest.Proofs.Table.Reordering
import Mathlib.Data.List.Dedup

/-!
# The least recently used lookup makes room

The entries of a memo stand in the order of their last uses, and no two of them
were used at the same tick.  So there is always one entry that was used least
recently, and a memo that makes room loses this one, in whatever order its table
is searched.  What remains are the lookups that were used last, as many as the
memo has room for.
-/

namespace FrameForest

/-! ## The lookups used last -/

/-- The last `capacity` of the lookups that were used, in the order of their last uses. -/
def latest (capacity : Nat) (uses : List Lookup) : List Lookup :=
  uses.dedup.rtake capacity

private theorem dedup_concat (uses : List Lookup) (question : Lookup) :
    (uses ++ [question]).dedup = uses.dedup.erase question ++ [question] := by
  induction uses with
  | nil => rfl
  | cons first rest ih =>
      rw [List.cons_append]
      by_cases again : first ∈ rest
      · have later : first ∈ rest ++ [question] := List.mem_append_left _ again
        rw [List.dedup_cons_of_mem later, List.dedup_cons_of_mem again, ih]
      · rw [List.dedup_cons_of_notMem again]
        by_cases same : first = question
        · subst same
          have none : first ∉ rest.dedup := fun member => again (List.mem_dedup.1 member)
          rw [List.dedup_cons_of_mem (by simp), ih, List.erase_cons_head,
            List.erase_of_not_mem none]
        · have fresh : first ∉ rest ++ [question] := by simp [again, same]
          rw [List.dedup_cons_of_notMem fresh, ih, List.erase_cons_tail (by simpa using same),
            List.cons_append]

private theorem rtake_append_of_length_eq {questions : List Lookup} {count : Nat}
    (exact : questions.length = count) (earlier : List Lookup) :
    (earlier ++ questions).rtake count = questions := by
  rw [List.rtake, List.length_append, exact, Nat.add_sub_cancel, List.drop_left]

theorem length_latest (capacity : Nat) (uses : List Lookup) :
    (latest capacity uses).length = min capacity uses.dedup.length := by
  rw [latest, List.rtake, List.length_drop]
  omega

theorem length_latest_le (capacity : Nat) (uses : List Lookup) :
    (latest capacity uses).length ≤ capacity := by
  rw [length_latest]
  exact Nat.min_le_left _ _

theorem mem_of_mem_latest {capacity : Nat} {uses : List Lookup} {question : Lookup}
    (member : question ∈ latest capacity uses) : question ∈ uses :=
  List.mem_dedup.1 (List.mem_of_mem_drop member)

theorem latest_zero (uses : List Lookup) : latest 0 uses = [] :=
  List.rtake_zero _

/-- What is left of the last lookups to make room for another one. -/
def spared (capacity : Nat) (ranking : List Lookup) (question : Lookup) : List Lookup :=
  if question ∈ ranking then ranking.erase question
  else if capacity ≤ ranking.length then ranking.tail
  else ranking

/-- A lookup comes to the end when it is used, and the first one leaves if there are too many. -/
theorem latest_concat {capacity : Nat} (room : 0 < capacity) (uses : List Lookup)
    (question : Lookup) :
    latest capacity (uses ++ [question]) =
      spared capacity (latest capacity uses) question ++ [question] := by
  obtain ⟨count, rfl⟩ := Nat.exists_eq_add_one_of_ne_zero room.ne'
  have few := length_latest_le (count + 1) uses
  have distinct := uses.nodup_dedup
  -- `earlier` lists what there is no room for; if it lists anything, the room is used up
  obtain ⟨earlier, split, full⟩ : ∃ earlier, uses.dedup = earlier ++ latest (count + 1) uses ∧
      (earlier = [] ∨ (latest (count + 1) uses).length = count + 1) := by
    refine ⟨uses.dedup.take (uses.dedup.length - (count + 1)), ?_, ?_⟩
    · exact (List.take_append_drop _ _).symm
    · rw [latest, List.rtake, List.length_drop, List.take_eq_nil_iff]
      omega
  rw [latest, dedup_concat, List.rtake_concat_succ, List.append_left_inj]
  generalize latest (count + 1) uses = ranking at few full split
  rw [split] at distinct ⊢
  unfold spared
  by_cases present : question ∈ ranking
  · have away : question ∉ earlier := fun member =>
      (List.nodup_append.1 distinct).2.2 question member question present rfl
    have shorter := List.length_erase_of_mem present
    rw [if_pos present, List.erase_append_right _ away]
    rcases full with rfl | full
    · exact rtake_of_length_le (by simp; omega)
    · exact rtake_append_of_length_eq (by omega) earlier
  · have kept : (earlier ++ ranking).erase question = earlier.erase question ++ ranking := by
      by_cases before : question ∈ earlier
      · exact List.erase_append_left _ before
      · rw [List.erase_of_not_mem before]
        exact List.erase_of_not_mem (by simp [before, present])
    rw [if_neg present, kept]
    by_cases crowded : count + 1 ≤ ranking.length
    · rw [if_pos crowded]
      cases ranking with
      | nil => simp at crowded
      | cons first rest =>
          have exact : rest.length = count := by
            simp only [List.length_cons] at crowded few
            omega
          rw [List.tail_cons, List.append_cons]
          exact rtake_append_of_length_eq exact _
    · rw [if_neg crowded]
      obtain rfl : earlier = [] := full.resolve_right (by omega)
      exact rtake_of_length_le (by simp; omega)

namespace Memo

variable {α : Type}

/-! ## The order of last uses -/

/-- The tick at which a lookup was used last. -/
def lastUse (entries : Table Lookup (MemoEntry α)) (question : Lookup) : Nat :=
  ((entries.find? question).map MemoEntry.lastUse).getD 0

section LastUse

variable {entries : Table Lookup (MemoEntry α)} {question other : Lookup}

theorem lastUse_of_find? {entry : MemoEntry α} (found : entries.find? question = some entry) :
    lastUse entries question = entry.lastUse := by
  rw [lastUse, found]
  rfl

theorem lastUse_erase (differ : other ≠ question) :
    lastUse (entries.erase question) other = lastUse entries other := by
  rw [lastUse, Table.find?_erase, if_neg differ, lastUse]

theorem lastUse_insert_self (motion : Motion α) (now : Nat) :
    lastUse (entries.insert question ⟨motion, now⟩) question = now :=
  lastUse_of_find? (Table.find?_insert_self _ _ _)

theorem lastUse_insert (differ : other ≠ question) (entry : MemoEntry α) :
    lastUse (entries.insert question entry) other = lastUse entries other := by
  rw [lastUse, Table.find?_insert, if_neg differ, lastUse]

end LastUse

/-- The remembered lookups in the order of their last uses, no two at the same tick and none later
than `now`. -/
structure Ranks (entries : Table Lookup (MemoEntry α)) (ranking : List Lookup) (now : Nat) :
    Prop where
  member : ∀ question, question ∈ ranking ↔ (entries.find? question).isSome
  ascending : ranking.Pairwise fun earlier later =>
    lastUse entries earlier < lastUse entries later
  past : ∀ question ∈ ranking, lastUse entries question ≤ now

namespace Ranks

variable {entries : Table Lookup (MemoEntry α)} {ranking : List Lookup} {now : Nat}

theorem empty (now : Nat) : Ranks (∅ : Table Lookup (MemoEntry α)) [] now where
  member := by simp
  ascending := .nil
  past := by simp

theorem of_reorders (ranks : Ranks entries ranking now) {other : Table Lookup (MemoEntry α)}
    (same : entries.Reorders other) : Ranks other ranking now := by
  have used : ∀ question, lastUse other question = lastUse entries question := by
    intro question
    rw [lastUse, ← same.find?_eq, lastUse]
  constructor
  case member =>
    intro question
    rw [ranks.member, same.find?_eq]
  case ascending =>
    simp only [used]
    exact ranks.ascending
  case past =>
    simp only [used]
    exact ranks.past

theorem nodup (ranks : Ranks entries ranking now) : ranking.Nodup := by
  apply ranks.ascending.imp
  intro earlier later before same
  exact Nat.lt_irrefl _ (same ▸ before)

theorem perm_keys (ranks : Ranks entries ranking now) : ranking.Perm entries.keys := by
  apply (List.perm_ext_iff_of_nodup ranks.nodup entries.distinct).2
  intro question
  rw [ranks.member, Table.isSome_find?_iff]
  rfl

theorem length_eq (ranks : Ranks entries ranking now) : ranking.length = entries.size :=
  ranks.perm_keys.length_eq.trans (List.length_map _)

/-- No two entries were used last at the same tick. -/
theorem nodup_lastUses (ranks : Ranks entries ranking now) :
    (entries.values.map MemoEntry.lastUse).Nodup := by
  have uses : entries.values.map MemoEntry.lastUse = entries.keys.map (lastUse entries) := by
    rw [Table.values, Table.keys, List.map_map, List.map_map]
    apply List.map_congr_left
    intro binding member
    exact (lastUse_of_find? (Table.find?_eq_some_iff.2 member)).symm
  rw [uses, ← (ranks.perm_keys.map (lastUse entries)).nodup_iff]
  exact List.pairwise_map.2 (ranks.ascending.imp fun before => before.ne)

theorem later (ranks : Ranks entries ranking now) {later : Nat} (passed : now ≤ later) :
    Ranks entries ranking later :=
  { ranks with past := fun question member => (ranks.past question member).trans passed }

theorem erase (ranks : Ranks entries ranking now) (question : Lookup) :
    Ranks (entries.erase question) (ranking.erase question) now := by
  have kept : ∀ other ∈ ranking.erase question,
      lastUse (entries.erase question) other = lastUse entries other :=
    fun other member => lastUse_erase (ranks.nodup.mem_erase_iff.1 member).1
  constructor
  case member =>
    intro other
    rw [ranks.nodup.mem_erase_iff, ranks.member, Table.find?_erase]
    by_cases same : other = question <;> simp [same]
  case ascending =>
    apply (ranks.ascending.sublist List.erase_sublist).imp_of_mem
    intro earlier later first second before
    rw [kept earlier first, kept later second]
    exact before
  case past =>
    intro other member
    rw [kept other member]
    exact ranks.past other (List.mem_of_mem_erase member)

/-- What is used now comes last. -/
theorem renew (ranks : Ranks entries ranking now) {later : Nat} (passed : now < later)
    (question : Lookup) (motion : Motion α) :
    Ranks (entries.insert question ⟨motion, later⟩) (ranking.erase question ++ [question])
      later := by
  have mem_erase : ∀ {other}, other ∈ ranking.erase question ↔ other ≠ question ∧ other ∈ ranking :=
    ranks.nodup.mem_erase_iff
  have kept : ∀ other ∈ ranking.erase question,
      lastUse (entries.insert question ⟨motion, later⟩) other = lastUse entries other :=
    fun other member => lastUse_insert (mem_erase.1 member).1 _
  have before : ∀ other ∈ ranking.erase question, lastUse entries other < later :=
    fun other member => (ranks.past other (mem_erase.1 member).2).trans_lt passed
  constructor
  case member =>
    intro other
    rw [List.mem_append, mem_erase, ranks.member, Table.find?_insert]
    by_cases same : other = question <;> simp [same]
  case ascending =>
    apply List.pairwise_append.2
    refine ⟨?_, List.pairwise_singleton _ _, ?_⟩
    · apply (ranks.ascending.sublist List.erase_sublist).imp_of_mem
      intro earlier other first second apart
      rw [kept earlier first, kept other second]
      exact apart
    · intro other member last here
      rw [List.mem_singleton.1 here, lastUse_insert_self, kept other member]
      exact before other member
  case past =>
    intro other member
    rcases List.mem_append.1 member with old | new
    · rw [kept other old]
      exact (before other old).le
    · rw [List.mem_singleton.1 new, lastUse_insert_self]

end Ranks

/-! ## The oldest entry -/

/-- Of two entries the one with the older use, the first of them at the same tick. -/
def older (best : Option (Lookup × MemoEntry α)) (binding : Lookup × MemoEntry α) :
    Option (Lookup × MemoEntry α) :=
  match best with
  | none => some binding
  | some held => if binding.2.lastUse < held.2.lastUse then some binding else some held

theorem oldest?_eq (memo : Memo α) :
    memo.oldest? = (memo.entries.bindings.foldl older none).map Prod.fst := rfl

/-- A search that has met the oldest entry keeps it. -/
theorem foldl_older_eq_self {bindings : List (Lookup × MemoEntry α)}
    {least : Lookup × MemoEntry α}
    (lowest : ∀ binding ∈ bindings, least.2.lastUse ≤ binding.2.lastUse) :
    bindings.foldl older (some least) = some least := by
  induction bindings with
  | nil => rfl
  | cons binding rest ih =>
      have first := lowest binding List.mem_cons_self
      have kept : older (some least) binding = some least := if_neg (Nat.not_lt.2 first)
      rw [List.foldl_cons, kept]
      exact ih fun other member => lowest other (List.mem_cons_of_mem _ member)

/-- The only entry with the oldest use is found wherever it stands. -/
theorem foldl_older_eq {bindings : List (Lookup × MemoEntry α)} {least : Lookup × MemoEntry α}
    (member : least ∈ bindings)
    (lowest : ∀ binding ∈ bindings, binding = least ∨ least.2.lastUse < binding.2.lastUse)
    (best : Option (Lookup × MemoEntry α))
    (above : ∀ held ∈ best, held = least ∨ least.2.lastUse < held.2.lastUse) :
    bindings.foldl older best = some least := by
  induction bindings generalizing best with
  | nil => cases member
  | cons binding rest ih =>
      rw [List.foldl_cons]
      by_cases here : binding = least
      · subst here
        have taken : older best binding = some binding := by
          cases best with
          | none => rfl
          | some held =>
              rcases above held rfl with same | higher
              · rw [same]
                exact if_neg (Nat.lt_irrefl _)
              · exact if_pos higher
        rw [taken]
        apply foldl_older_eq_self
        intro other later
        rcases lowest other (List.mem_cons_of_mem _ later) with rfl | higher
        · exact Nat.le_refl _
        · exact higher.le
      · apply ih ((List.mem_cons.1 member).resolve_left (Ne.symm here))
        · exact fun other later => lowest other (List.mem_cons_of_mem _ later)
        · intro held next
          have higher := (lowest binding List.mem_cons_self).resolve_left here
          cases best with
          | none =>
              cases next
              exact .inr higher
          | some former =>
              rw [older] at next
              split at next
              · cases next
                exact .inr higher
              · cases next
                exact above _ rfl

/-- In whatever order the table is searched, the entry used least recently is found. -/
theorem Ranks.oldest?_eq {memo : Memo α} {ranking : List Lookup} {now : Nat}
    (ranks : Ranks memo.entries ranking now) : memo.oldest? = ranking.head? := by
  rw [Memo.oldest?_eq]
  cases ranking with
  | nil =>
      have none : memo.entries.bindings = [] := List.length_eq_zero_iff.1 ranks.length_eq.symm
      rw [none]
      rfl
  | cons first rest =>
      obtain ⟨entry, found⟩ := Option.isSome_iff_exists.1 ((ranks.member first).1 (by simp))
      have lowest : ∀ binding ∈ memo.entries.bindings,
          binding = (first, entry) ∨ entry.lastUse < binding.2.lastUse := by
        rintro ⟨question, held⟩ member
        have known := Table.find?_eq_some_iff.2 member
        by_cases same : question = first
        · subst same
          rw [found] at known
          cases known
          exact .inl rfl
        · have ranked := (ranks.member question).2 (by rw [known]; rfl)
          have behind : question ∈ rest := (List.mem_cons.1 ranked).resolve_left same
          have before := List.rel_of_pairwise_cons ranks.ascending behind
          rw [lastUse_of_find? found, lastUse_of_find? known] at before
          exact .inr before
      rw [foldl_older_eq (Table.find?_eq_some_iff.1 found) lowest none (by simp)]
      rfl

/-! ## Making room -/

section Room

variable {memo : Memo α} {ranking : List Lookup} {now : Nat}

theorem contains_eq_decide_mem (ranks : Ranks memo.entries ranking now) (question : Lookup) :
    memo.entries.contains question = decide (question ∈ ranking) := by
  rw [Bool.eq_iff_iff, decide_eq_true_iff, ranks.member]
  rfl

/-- The lookup that makes room is the one used least recently. -/
theorem Ranks.makeRoom (ranks : Ranks memo.entries ranking now) {question : Lookup}
    (absent : question ∉ ranking) :
    Ranks (memo.makeRoom question) (spared memo.capacity ranking question) now := by
  unfold Memo.makeRoom spared
  rw [contains_eq_decide_mem ranks, if_neg absent, ← ranks.length_eq, ranks.oldest?_eq]
  by_cases crowded : memo.capacity ≤ ranking.length
  · rw [if_pos ⟨crowded, decide_eq_false absent⟩, if_pos crowded]
    cases ranking with
    | nil => exact ranks
    | cons first rest =>
        have left := ranks.erase first
        rw [List.erase_cons_head] at left
        exact left
  · rw [if_neg fun full => crowded full.1, if_neg crowded]
    exact ranks

theorem Ranks.remember (ranks : Ranks memo.entries ranking now) (ticked : now < memo.clock)
    (room : memo.capacity ≠ 0) {question : Lookup} (absent : question ∉ ranking)
    (motion : Motion α) :
    Ranks (memo.remember question motion).entries
      (spared memo.capacity ranking question ++ [question]) memo.clock := by
  have away : question ∉ spared memo.capacity ranking question := by
    unfold spared
    rw [if_neg absent]
    split
    · exact fun member => absent (List.mem_of_mem_tail member)
    · exact absent
  have renewed := (ranks.makeRoom absent).renew ticked question motion
  rw [List.erase_of_not_mem away] at renewed
  rw [Memo.remember, if_neg room]
  exact renewed

end Room

end Memo

end FrameForest
