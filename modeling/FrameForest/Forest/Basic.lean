import FrameForest.Edge.Track
import FrameForest.Forest.Memo
import FrameForest.Frame.Ancestry
import FrameForest.Frame.Cursor
import FrameForest.Frame.Outline
import FrameForest.Journal
import FrameForest.Settings

/-!
# Forests of frames

A forest joins the graph of frames with the tracks of their edges.  Recording a
sample first asks the graph for the edge and then the track for a place; what
either refuses changes nothing.  Whatever a record changes, the remembered
lookups are dropped.
-/

namespace FrameForest

structure Forest (α : Type) where
  settings : Settings
  graph : FrameGraph
  edges : EdgeTable α
  memo : Memo α

/-- What a recorded sample did to the forest. -/
inductive Recording where
  | inserted
  | replaced
  /-- The child moved from another parent, and the history of its old edge is gone. -/
  | reparented (previous : String)
  | dropped
  deriving DecidableEq, Repr

namespace Forest

variable {α : Type}

def empty (settings : Settings) : Forest α :=
  ⟨settings, ∅, ∅, .empty settings.memoCapacity.toNat⟩

/-- Ensures that a frame exists; it is a root until an edge names it as a child. -/
def register (forest : Forest α) (frame : String) : Forest α :=
  { forest with graph := forest.graph.register frame }

/-- Drops the remembered lookups on account of a change. -/
def invalidate (forest : Forest α) : Journaled (Forest α) := do
  let count := forest.memo.entries.size
  if count = 0 then
    pure forest
  else
    Journaled.write .detail s!"Invalidating {count} cached lookups"
    pure { forest with memo := forest.memo.forget }

/-- Stores a sample in the edge from `parent` to `child`, which the graph has accepted. -/
def store (forest : Forest α) (parent child : String) (fresh : Track α) (sample : Sample α) :
    Journaled (Insertion × Forest α) := do
  let (insertion, edge) := (forest.edges.obtain parent child fresh).insert sample
  let stored := { forest with edges := forest.edges.put edge }
  if insertion = .dropped then
    Journaled.write .detail
      (s!"Dropping sample of '{parent}' -> '{child}' at {sample.stamp.text}, " ++
        "older than the retained history")
    pure (insertion, stored)
  else
    pure (insertion, ← stored.invalidate)

/-- Records a sample of the edge from `parent` to `child`, whose track is of the kind of `fresh`. -/
def record (forest : Forest α) (parent child : String) (fresh : Track α) (sample : Sample α) :
    Journaled (Except Failure Recording × Forest α) := do
  match forest.graph.setParent parent child forest.settings.reparenting with
  | .error failure =>
    Journaled.write .warning s!"Dropping transform sample: {failure.message}"
    pure (.error failure, forest)
  | .ok (.reparented previous, graph) =>
    Journaled.write .warning s!"Frame '{child}' reparented from '{previous}' to '{parent}'"
    let moved := { forest with graph, edges := forest.edges.erase child }
    let (_, forest) ← moved.store parent child fresh sample
    pure (.ok (.reparented previous), forest)
  | .ok (_, graph) =>
    let (insertion, forest) ← { forest with graph }.store parent child fresh sample
    pure
      (.ok (match insertion with
        | .inserted => .inserted
        | .replaced => .replaced
        | .dropped => .dropped), forest)

/-- Records a sample in the history of an edge. -/
def recordTimed (forest : Forest α) (parent child : String) (sample : Sample α) :
    Journaled (Except Failure Recording × Forest α) :=
  forest.record parent child
    (.timed (.empty forest.settings.samplesPerEdge.toNat forest.settings.storageTime)) sample

/-- Records the motion of an edge that holds at every time. -/
def recordFixed (forest : Forest α) (parent child : String) (motion : Motion α) :
    Journaled (Except Failure Recording × Forest α) :=
  forest.record parent child (.fixed motion) ⟨0, motion⟩

/-- The number of samples of the edge that ends at `child`. -/
def sampleCount (forest : Forest α) (child : String) : Nat :=
  match forest.edges.find? child with
  | some edge => edge.track.samples.length
  | none => 0

/-- Playback jumped: the remembered lookups and the hints of the histories are dropped. -/
def jump (forest : Forest α) (previous : Stamp) : Journaled (Forest α) := do
  Journaled.write .detail s!"Time discontinuity from {previous.text}, dropping cached lookups"
  let forest ← forest.invalidate
  pure { forest with edges := forest.edges.forgetHints }

/-- Forgets every frame, edge and sample. -/
def reset (forest : Forest α) : Journaled (Forest α) := do
  Journaled.write .detail
    (s!"Resetting transform tree with {forest.graph.frames.length} frames " ++
      s!"and {forest.edges.size} edges")
  { forest with graph := ∅, edges := ∅ }.invalidate

/-- Drops the remembered lookups without a change. -/
def forgetLookups (forest : Forest α) : Forest α :=
  { forest with memo := forest.memo.forget }

end Forest

end FrameForest
