import FrameForest.Frame.Graph

/-!
# Outline of the forest

The outline lists every tree from its root down, siblings and roots by name, as
a frame picker shows it.  The default frame of a scene is a root: one of the
conventional names if it is one, and otherwise the root of the largest tree.
-/

namespace FrameForest

structure OutlineEntry where
  frame : String
  parent : Option String
  /-- Zero for roots. -/
  depth : Nat
  deriving DecidableEq, Repr

namespace FrameGraph

def outline (graph : FrameGraph) : List OutlineEntry :=
  (graph.walk (graph.roots.map (·, 0)) []).map fun (frame, depth) =>
    ⟨frame, graph.parent? frame, depth⟩

/-- How many frames lie below the given one. -/
def descendantCount (graph : FrameGraph) (frame : String) : Nat :=
  (graph.walk ((graph.children frame).map (·, 1)) []).length

/-- Conventional names of the frame that a world hangs from, the preferred one first. -/
def conventionalRoots : List String :=
  ["map", "odom", "world"]

/-- The first item of greatest weight. -/
def heaviest? (weight : String → Nat) (items : List String) : Option String :=
  items.foldl
    (fun best item =>
      match best with
      | none => some item
      | some held => if weight held < weight item then some item else some held)
    none

/-- The frame to draw a scene in when none has been picked. -/
def defaultFrame? (graph : FrameGraph) : Option String :=
  (conventionalRoots.find? (· ∈ graph.roots)).or (heaviest? graph.descendantCount graph.roots)

end FrameGraph

end FrameForest
