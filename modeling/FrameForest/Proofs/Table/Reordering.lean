import FrameForest.Proofs.Edge.EdgeTables
import Mathlib.Data.List.Nodup

/-!
# Tables in another order

A table finds the same values whatever the order of its bindings, and stays the
same up to their order when it is changed.  Changes at different keys may be
made one before the other.
-/

namespace FrameForest

namespace Table

variable {κ β : Type}

/-- The same bindings, perhaps in another order. -/
def Reorders (left right : Table κ β) : Prop :=
  left.bindings.Perm right.bindings

namespace Reorders

variable {left right : Table κ β}

theorem refl (table : Table κ β) : table.Reorders table :=
  List.Perm.refl _

theorem trans {other : Table κ β} (first : left.Reorders right) (second : right.Reorders other) :
    left.Reorders other :=
  List.Perm.trans first second

theorem size_eq (same : left.Reorders right) : left.size = right.size :=
  List.Perm.length_eq same

variable [DecidableEq κ]

theorem find?_eq (same : left.Reorders right) (key : κ) : left.find? key = right.find? key := by
  apply Option.ext
  intro value
  rw [find?_eq_some_iff, find?_eq_some_iff]
  exact List.Perm.mem_iff same

theorem contains_eq (same : left.Reorders right) (key : κ) :
    left.contains key = right.contains key :=
  congrArg Option.isSome (same.find?_eq key)

theorem erase (same : left.Reorders right) (key : κ) :
    (left.erase key).Reorders (right.erase key) :=
  List.Perm.filter _ same

theorem insert (same : left.Reorders right) (key : κ) (value : β) :
    (left.insert key value).Reorders (right.insert key value) := by
  have alike := same.find?_eq key
  unfold Reorders
  cases found : left.find? key with
  | none =>
      rw [found] at alike
      rw [bindings_insert_of_absent found, bindings_insert_of_absent alike.symm]
      exact List.Perm.append_right _ same
  | some old =>
      rw [found] at alike
      rw [bindings_insert_of_find? found, bindings_insert_of_find? alike.symm]
      exact List.Perm.map _ same

end Reorders

variable [DecidableEq κ]

/-- Tables that find the same values hold the same bindings. -/
theorem reorders_of_find?_eq {left right : Table κ β}
    (same : ∀ key, left.find? key = right.find? key) : left.Reorders right := by
  have leftDistinct := List.Nodup.of_map Prod.fst left.distinct
  have rightDistinct := List.Nodup.of_map Prod.fst right.distinct
  apply (List.perm_ext_iff_of_nodup leftDistinct rightDistinct).2
  rintro ⟨key, value⟩
  rw [← find?_eq_some_iff, ← find?_eq_some_iff, same]

theorem isSome_find?_iff {table : Table κ β} {key : κ} :
    (table.find? key).isSome ↔ key ∈ table.keys := by
  rw [← not_iff_not, ← find?_eq_none_iff]
  simp

end Table

end FrameForest
