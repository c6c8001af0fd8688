import FrameForest.Frame.Graph

/-!
# Cursors over frame names

A cursor enumerates the names that were registered when it was made.  It is a
value: later registrations do not reach it, and a copy goes on from the same
position.
-/

namespace FrameForest

structure FrameCursor where
  names : List String
  position : Nat
  inside : position ≤ names.length

namespace FrameCursor

/-- The names still to come. -/
def rest (cursor : FrameCursor) : List String :=
  cursor.names.drop cursor.position

def remaining (cursor : FrameCursor) : Nat :=
  cursor.names.length - cursor.position

def next (cursor : FrameCursor) : Option String × FrameCursor :=
  if more : cursor.position < cursor.names.length then
    (some cursor.names[cursor.position], { cursor with position := cursor.position + 1, inside := more })
  else
    (none, cursor)

def restart (cursor : FrameCursor) : FrameCursor :=
  { cursor with position := 0, inside := Nat.zero_le _ }

/-- The cursor after its last name. -/
def finish (cursor : FrameCursor) : FrameCursor :=
  { cursor with position := cursor.names.length, inside := Nat.le_refl _ }

@[simp] theorem length_rest (cursor : FrameCursor) : cursor.rest.length = cursor.remaining := by
  simp [rest, remaining]

@[simp] theorem rest_restart (cursor : FrameCursor) : cursor.restart.rest = cursor.names := rfl

theorem next_eq (cursor : FrameCursor) :
    (cursor.next).1 = cursor.rest.head? ∧ (cursor.next).2.rest = cursor.rest.tail := by
  unfold next rest
  split
  case isTrue more =>
    rw [List.drop_eq_getElem_cons more]
    exact ⟨rfl, rfl⟩
  case isFalse past => simp [List.drop_eq_nil_of_le (Nat.le_of_not_lt past)]

end FrameCursor

namespace FrameGraph

/-- A cursor at the start of the frames registered now. -/
def cursor (graph : FrameGraph) : FrameCursor :=
  ⟨graph.frames, 0, Nat.zero_le _⟩

end FrameGraph

end FrameForest
