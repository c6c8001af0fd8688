import FrameForest.Journal
import FrameForest.Table

/-!
# Topic advertisements

Several tools may publish on one topic.  The transport is told of the first
advertisement and of the last release; in between, a count of references is
kept.
-/

namespace FrameForest

/-- What the transport is told. -/
inductive Announcement where
  | advertise (topic schema : String)
  | release (topic : String)
  deriving DecidableEq, Repr

namespace Announcement

def topic : Announcement → String
  | advertise topic _ => topic
  | release topic => topic

end Announcement

/-- The references held on each advertised topic. -/
structure Advertisements where
  references : Table String Nat

namespace Advertisements

def empty : Advertisements :=
  ⟨∅⟩

def count (advertisements : Advertisements) (topic : String) : Nat :=
  (advertisements.references.find? topic).getD 0

def isAdvertised (advertisements : Advertisements) (topic : String) : Bool :=
  advertisements.references.contains topic

/-- The outcome of an operation: the references left on its topic, what the transport is told, and
the advertisements afterwards. -/
structure Outcome where
  count : Nat
  announcements : List Announcement
  advertisements : Advertisements

def advertise (advertisements : Advertisements) (topic schema : String) : Journaled Outcome := do
  let held := advertisements.count topic
  let advertised : Advertisements := ⟨advertisements.references.insert topic (held + 1)⟩
  if held = 0 then
    Journaled.write .detail s!"Advertising {topic} as {schema}"
    pure ⟨held + 1, [.advertise topic schema], advertised⟩
  else
    pure ⟨held + 1, [], advertised⟩

def release (advertisements : Advertisements) (topic : String) : Journaled Outcome := do
  match advertisements.references.find? topic with
  | none =>
    Journaled.write .detail s!"Ignoring release of {topic} which is not advertised"
    pure ⟨0, [], advertisements⟩
  | some held =>
    let remaining := held - 1
    if remaining = 0 then
      Journaled.write .detail s!"Unadvertising {topic}"
      pure ⟨0, [.release topic], ⟨advertisements.references.erase topic⟩⟩
    else
      pure ⟨remaining, [], ⟨advertisements.references.insert topic remaining⟩⟩

/-- Releases every topic at once, in the order of their names. -/
def releaseAll (advertisements : Advertisements) : List Announcement × Advertisements :=
  ((advertisements.references.sorted fun left right => decide (left ≤ right)).map
    fun (topic, _) => .release topic, empty)

end Advertisements

end FrameForest
