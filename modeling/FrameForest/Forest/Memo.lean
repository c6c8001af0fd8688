import FrameForest.Table
import FrameForest.Geometry.Motion
import FrameForest.Time.Duration

/-!
# Remembered lookups

The memo holds composed lookups until the forest changes.  Every question ticks a
clock, and an entry remembers the tick of its last use; when the memo is full,
the entry with the oldest use makes room.
-/

namespace FrameForest

/-- A question put to the forest: the motion from `source` to `target` at `time`. -/
structure Lookup where
  source : String
  target : String
  time : Stamp
  deriving DecidableEq, Repr

structure MemoEntry (α : Type) where
  motion : Motion α
  lastUse : Nat

structure Memo (α : Type) where
  entries : Table Lookup (MemoEntry α)
  capacity : Nat
  clock : Nat
  hits : Nat
  misses : Nat

namespace Memo

variable {α : Type}

def empty (capacity : Nat) : Memo α :=
  ⟨∅, capacity, 0, 0, 0⟩

/-- The remembered answer, its use renewed; counts a hit or a miss. -/
def consult (memo : Memo α) (lookup : Lookup) : Option (Motion α) × Memo α :=
  let now := memo.clock + 1
  match memo.entries.find? lookup with
  | some entry =>
    (some entry.motion,
      { memo with
        entries := memo.entries.insert lookup { entry with lastUse := now }
        clock := now
        hits := memo.hits + 1 })
  | none => (none, { memo with clock := now, misses := memo.misses + 1 })

/-- The lookup whose last use is oldest. -/
def oldest? (memo : Memo α) : Option Lookup :=
  (memo.entries.bindings.foldl
    (fun (best : Option (Lookup × MemoEntry α)) binding =>
      match best with
      | none => some binding
      | some held => if binding.2.lastUse < held.2.lastUse then some binding else some held)
    none).map Prod.fst

/-- The entries with room for one more. -/
def makeRoom (memo : Memo α) (lookup : Lookup) : Table Lookup (MemoEntry α) :=
  if memo.capacity ≤ memo.entries.size ∧ memo.entries.contains lookup = false then
    match memo.oldest? with
    | some oldest => memo.entries.erase oldest
    | none => memo.entries
  else
    memo.entries

/-- Remembers an answer as used just now.  A memo without capacity remembers nothing. -/
def remember (memo : Memo α) (lookup : Lookup) (motion : Motion α) : Memo α :=
  if memo.capacity = 0 then memo
  else
    { memo with entries := (memo.makeRoom lookup).insert lookup ⟨motion, memo.clock⟩ }

/-- Drops all answers and keeps the counts. -/
def forget (memo : Memo α) : Memo α :=
  { memo with entries := ∅ }

end Memo

end FrameForest
