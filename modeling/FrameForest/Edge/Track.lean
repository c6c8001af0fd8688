import FrameForest.Edge.History
import FrameForest.Table

/-!
# Tracks and edges

An edge from a parent frame to a child frame carries a track: either one fixed
motion that holds at every time, like a sensor mount, or a history of samples.
A child has a single parent, so edges are kept in a table keyed by child.
-/

namespace FrameForest

inductive Track (α : Type) where
  | fixed (motion : Motion α)
  | timed (history : History α)

namespace Track

variable {α : Type}

def isFixed : Track α → Bool
  | fixed _ => true
  | timed _ => false

/-- The samples in order; a fixed motion counts as one sample at the start of the timeline. -/
def samples : Track α → List (Sample α)
  | fixed motion => [⟨0, motion⟩]
  | timed history => history.samples

def earliest? (track : Track α) : Option (Sample α) :=
  track.samples.head?

def latest? (track : Track α) : Option (Sample α) :=
  track.samples.getLast?

def span? (track : Track α) : Option TimeSpan := do
  let first ← track.earliest?
  let last ← track.latest?
  pure ⟨first.stamp, last.stamp⟩

def forgetHint : Track α → Track α
  | fixed motion => fixed motion
  | timed history => timed history.forgetHint

/-- A fixed motion is overwritten whatever the stamp of the sample. -/
def insert (track : Track α) (sample : Sample α) : Insertion × Track α :=
  match track with
  | fixed _ => (.replaced, fixed sample.motion)
  | timed history => (history.insert sample).map id timed

def query [Scalar α] (track : Track α) (time : Stamp) (tolerance : Duration) :
    Option (Motion α) × Track α :=
  match track with
  | fixed motion => (some motion, fixed motion)
  | timed history => (history.query time tolerance).map id timed

end Track

structure Edge (α : Type) where
  parent : String
  child : String
  track : Track α

namespace Edge

variable {α : Type}

def insert (edge : Edge α) (sample : Sample α) : Insertion × Edge α :=
  (edge.track.insert sample).map id fun track => { edge with track }

def forgetHint (edge : Edge α) : Edge α :=
  { edge with track := edge.track.forgetHint }

/-- The span of a track, the start of the timeline for one without samples. -/
def reportedSpan (edge : Edge α) : TimeSpan :=
  edge.track.span?.getD ⟨0, 0⟩

def query [Scalar α] (edge : Edge α) (time : Stamp) (tolerance : Duration) :
    Except Failure (Motion α) × Edge α :=
  let (found, track) := edge.track.query time tolerance
  match found with
  | some motion => (.ok motion, { edge with track })
  | none =>
    (.error (.outsideHistory edge.parent edge.child time edge.reportedSpan.start
      edge.reportedSpan.stop), { edge with track })

end Edge

/-- Every edge, keyed by its child. -/
abbrev EdgeTable (α : Type) := Table String (Edge α)

namespace EdgeTable

variable {α : Type}

/-- The edge of `child` if it hangs from `parent` and its track is of the kind of `fresh`; otherwise
a new edge with the track `fresh`. -/
def obtain (edges : EdgeTable α) (parent child : String) (fresh : Track α) : Edge α :=
  match edges.find? child with
  | some edge =>
    if edge.parent = parent ∧ edge.track.isFixed = fresh.isFixed then edge
    else ⟨parent, child, fresh⟩
  | none => ⟨parent, child, fresh⟩

/-- Stores an edge in place of any other edge of its child. -/
def put (edges : EdgeTable α) (edge : Edge α) : EdgeTable α :=
  edges.insert edge.child edge

/-- The edges ordered by child. -/
def listing (edges : EdgeTable α) : List (Edge α) :=
  (edges.sorted fun left right => decide (left ≤ right)).map Prod.snd

def forgetHints (edges : EdgeTable α) : EdgeTable α :=
  edges.mapValues Edge.forgetHint

/-- The smallest stamp that a history retains; fixed motions do not count. -/
def earliestTimed? (edges : EdgeTable α) : Option Stamp :=
  let stamps := edges.values.filterMap fun edge =>
    if edge.track.isFixed then none else edge.track.earliest?.map Sample.stamp
  stamps.min?

end EdgeTable

end FrameForest
