import FrameForest.Frame.Graph

/-!
# Ancestors and routes

The lineage of a frame lists the frame, its parent and so on up to its root.  On
a graph with a cycle the climb is cut off after as many steps as there are
frames.  A route links two frames through the first frame of the one's lineage
that the other's shares.
-/

namespace FrameForest

/-- The chain of edges between two frames, each named by its child. -/
structure Route where
  ancestor : String
  /-- From the source upwards, without the ancestor. -/
  up : List String
  /-- From below the ancestor down to the target. -/
  down : List String
  deriving DecidableEq, Repr

namespace Route

def isTrivial (route : Route) : Bool :=
  route.up.isEmpty && route.down.isEmpty

end Route

namespace FrameGraph

/-- Climbs from a frame, at most `steps` links. -/
def climb (graph : FrameGraph) (steps : Nat) (frame : String) : Except Failure (List String) :=
  match graph.parent? frame, steps with
  | none, _ => .ok [frame]
  | some parent, 0 => .error (.cycle parent frame)
  | some parent, steps + 1 => (graph.climb steps parent).map (frame :: ·)

/-- The frame and all its ancestors, the root last. -/
def lineage (graph : FrameGraph) (frame : String) : Except Failure (List String) :=
  graph.climb graph.frames.length frame

def rootOf (graph : FrameGraph) (frame : String) : Except Failure String := do
  let _ ← graph.index frame
  let chain ← graph.lineage frame
  pure (chain.getLast?.getD frame)

def route (graph : FrameGraph) (source target : String) : Except Failure Route := do
  let _ ← graph.index source
  let _ ← graph.index target
  if source = target then
    pure ⟨source, [], []⟩
  else
    let ascent ← graph.lineage source
    let descent ← graph.lineage target
    match ascent.find? (· ∈ descent) with
    | none => throw (.unconnected source target)
    | some ancestor =>
      pure
        { ancestor
          up := ascent.takeWhile (· ≠ ancestor)
          down := (descent.takeWhile (· ≠ ancestor)).reverse }

end FrameGraph

end FrameForest
