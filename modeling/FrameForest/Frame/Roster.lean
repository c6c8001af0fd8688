import FrameForest.Frame.Cursor

/-!
# Rosters

A roster lists the frames of its graph when a cursor is made, and keeps the
listing for the cursors to come.  Every change that adds or drops frames drops
the listing too.
-/

namespace FrameForest

structure Roster where
  graph : FrameGraph
  /-- The frames as they were listed for a cursor, unless one has been added since. -/
  listing : Option (List String)

namespace Roster

def empty : Roster :=
  ⟨∅, none⟩

instance : EmptyCollection Roster := ⟨empty⟩

/-- Adds a frame, unless it is registered already. -/
def register (roster : Roster) (frame : String) : Roster :=
  if roster.graph.contains frame then roster else ⟨roster.graph.register frame, none⟩

/-- Puts `child` under `parent`, registering both if needed.  A refused request changes nothing. -/
def setParent (roster : Roster) (parent child : String) (policy : ReparentPolicy) :
    Except Failure (ParentChange × Roster) :=
  match roster.graph.setParent parent child policy with
  | .error failure => .error failure
  | .ok (.unchanged, _) => .ok (.unchanged, roster)
  | .ok (change, graph) => .ok (change, { (roster.register parent).register child with graph })

/-- A cursor at the start of the frames, which are listed if they are not yet. -/
def cursor (roster : Roster) : FrameCursor × Roster :=
  let names := roster.listing.getD roster.graph.frames
  (⟨names, 0, Nat.zero_le _⟩, { roster with listing := some names })

/-- Drops all frames. -/
def clear (_ : Roster) : Roster :=
  ∅

end Roster

end FrameForest
