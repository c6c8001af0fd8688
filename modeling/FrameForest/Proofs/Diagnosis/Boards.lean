import FrameForest.Diagnosis.Sink
import FrameForest.Proofs.Table.Reordering

/-!
# What a call does to a board

A call to a board is about one path.  What the path shows afterwards and whether
the call counts depends on what it showed before, and on no other path.  Calls
about different paths may therefore come in any order.
-/

namespace FrameForest

namespace SettingPath

theorem precedes_trans {first second third : SettingPath} (left : first.precedes second = true)
    (right : second.precedes third = true) : first.precedes third = true :=
  Std.TransCmp.isLE_trans left right

theorem precedes_total (first second : SettingPath) :
    (first.precedes second || second.precedes first) = true := by
  have swap : compare second.segments first.segments =
      (compare first.segments second.segments).swap := Std.OrientedCmp.eq_swap
  unfold precedes
  rw [swap]
  cases compare first.segments second.segments <;> rfl

theorem eq_of_precedes {first second : SettingPath} (left : first.precedes second = true)
    (right : second.precedes first = true) : first = second := by
  have same : first.segments = second.segments :=
    Std.LawfulEqOrd.eq_of_compare (Std.OrientedCmp.isLE_antisymm left right)
  cases first
  cases second
  exact congrArg mk same

end SettingPath

namespace SinkCall

/-- What the path shows after the call. -/
def shown : SinkCall → Option MissingReason
  | report _ reason => some reason
  | clear _ => none

/-- Whether a diagnosis is raised or changed, by what the path showed before. -/
def raises : SinkCall → Option MissingReason → Bool
  | report _ reason, before => before ≠ some reason
  | clear _, _ => false

/-- Whether a diagnosis is removed, by what the path showed before. -/
def removes : SinkCall → Option MissingReason → Bool
  | report _ _, _ => false
  | clear _, before => before.isSome

end SinkCall

namespace Board

variable (board : Board) (call : SinkCall)

theorem find?_send (path : SettingPath) :
    (call.send board).active.find? path =
      if path = call.path then call.shown else board.active.find? path := by
  cases call with
  | report target reason =>
      show (board.report target reason).active.find? path =
        if path = target then some reason else board.active.find? path
      unfold report
      by_cases known : board.active.find? target = some reason
      · rw [if_pos known]
        split
        case isTrue same => rw [same, known]
        case isFalse => rfl
      · rw [if_neg known]
        exact Table.find?_insert _ _ _ _
  | clear target =>
      show (board.clear target).active.find? path =
        if path = target then none else board.active.find? path
      unfold clear
      by_cases shows : board.active.contains target = true
      · rw [if_pos shows]
        exact Table.find?_erase _ _ _
      · have dark : board.active.find? target = none := Option.not_isSome_iff_eq_none.1 shows
        rw [if_neg shows]
        split
        case isTrue same => rw [same, dark]
        case isFalse => rfl

theorem reported_send :
    (call.send board).reported =
      board.reported + if call.raises (board.active.find? call.path) then 1 else 0 := by
  cases call with
  | report target reason =>
      show (board.report target reason).reported = board.reported +
        if decide (board.active.find? target ≠ some reason) then 1 else 0
      unfold report
      by_cases known : board.active.find? target = some reason <;> simp [known]
  | clear target =>
      show (board.clear target).reported = board.reported
      unfold clear
      split <;> rfl

theorem cleared_send :
    (call.send board).cleared =
      board.cleared + if call.removes (board.active.find? call.path) then 1 else 0 := by
  cases call with
  | report target reason =>
      show (board.report target reason).cleared = board.cleared
      unfold report
      split <;> rfl
  | clear target =>
      show (board.clear target).cleared =
        board.cleared + if board.active.contains target then 1 else 0
      unfold clear
      split <;> rfl

/-- Boards that show the same and have counted the same. -/
structure Alike (left right : Board) : Prop where
  active : ∀ path, left.active.find? path = right.active.find? path
  reported : left.reported = right.reported
  cleared : left.cleared = right.cleared

namespace Alike

variable {left right : Board}

theorem refl (board : Board) : board.Alike board :=
  ⟨fun _ => rfl, rfl, rfl⟩

theorem trans {other : Board} (first : left.Alike right) (second : right.Alike other) :
    left.Alike other :=
  ⟨fun path => (first.active path).trans (second.active path),
    first.reported.trans second.reported, first.cleared.trans second.cleared⟩

theorem send (alike : left.Alike right) (call : SinkCall) :
    (call.send left).Alike (call.send right) where
  active := fun path => by rw [find?_send, find?_send, alike.active]
  reported := by rw [reported_send, reported_send, alike.active, alike.reported]
  cleared := by rw [cleared_send, cleared_send, alike.active, alike.cleared]

theorem foldl_send (alike : left.Alike right) (calls : List SinkCall) :
    (calls.foldl SinkCall.send left).Alike (calls.foldl SinkCall.send right) := by
  induction calls generalizing left right with
  | nil => exact alike
  | cons call rest ih => exact ih (alike.send call)

/-- What is listed does not depend on the order in which it came up. -/
theorem listing_eq (alike : left.Alike right) : left.listing = right.listing := by
  have total : ∀ first second : SettingPath × MissingReason,
      (first.1.precedes second.1 || second.1.precedes first.1) = true :=
    fun first second => SettingPath.precedes_total first.1 second.1
  have transitive : ∀ first second third : SettingPath × MissingReason,
      first.1.precedes second.1 = true → second.1.precedes third.1 = true →
        first.1.precedes third.1 = true :=
    fun _ _ _ => SettingPath.precedes_trans
  have permuted : left.active.bindings.Perm right.active.bindings :=
    Table.reorders_of_find?_eq alike.active
  apply List.Perm.eq_of_pairwise ?same (List.pairwise_mergeSort transitive total _)
    (List.pairwise_mergeSort transitive total _)
  case same =>
    rintro ⟨path, reason⟩ ⟨other, held⟩ member further before after
    cases SettingPath.eq_of_precedes before after
    have first := Table.find?_eq_some_iff.2 (List.mem_mergeSort.1 member)
    have second := Table.find?_eq_some_iff.2 (List.mem_mergeSort.1 further)
    rw [alike.active, second] at first
    cases first
    rfl
  exact (List.mergeSort_perm _ _).trans (permuted.trans (List.mergeSort_perm _ _).symm)

end Alike

/-- Calls about different paths may come one before the other. -/
theorem send_comm {first second : SinkCall} (apart : first.path ≠ second.path) :
    (second.send (first.send board)).Alike (first.send (second.send board)) where
  active := by
    intro path
    rw [find?_send, find?_send, find?_send, find?_send]
    by_cases here : path = first.path
    · rw [here, if_neg apart, if_pos rfl, if_pos rfl]
    · rw [if_neg here, if_neg here]
  reported := by
    rw [reported_send, reported_send, reported_send, reported_send, find?_send, find?_send,
      if_neg apart, if_neg (Ne.symm apart)]
    omega
  cleared := by
    rw [cleared_send, cleared_send, cleared_send, cleared_send, find?_send, find?_send,
      if_neg apart, if_neg (Ne.symm apart)]
    omega

theorem foldl_send_of_perm {calls others : List SinkCall}
    (distinct : (calls.map SinkCall.path).Nodup) (perm : calls.Perm others) :
    (calls.foldl SinkCall.send board).Alike (others.foldl SinkCall.send board) := by
  induction perm generalizing board with
  | nil => exact .refl _
  | cons call _ ih => exact ih _ (List.nodup_cons.1 distinct).2
  | swap first second rest =>
      have apart : second.path ≠ first.path := by
        intro same
        exact (List.nodup_cons.1 distinct).1 (same ▸ List.mem_cons_self)
      exact (board.send_comm apart).foldl_send rest
  | trans before _ ihBefore ihAfter =>
      exact (ihBefore _ distinct).trans (ihAfter _ ((before.map _).nodup_iff.1 distinct))

end Board

end FrameForest
