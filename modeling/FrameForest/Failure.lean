import FrameForest.Time.Duration

/-!
# Failures

What can go wrong in a forest of frames, each cause with the data that its
message names.  A failed pose resolution adds which of its three frames is at
fault.
-/

namespace FrameForest

inductive Failure where
  | unknownFrame (frame : String)
  /-- The two frames lie in different trees. -/
  | unconnected (source target : String)
  /-- The edge keeps samples from `earliest` to `latest`, too far from the requested time. -/
  | outsideHistory (parent child : String) (time earliest latest : Stamp)
  /-- The child hangs from `current` and may not be moved under `requested`. -/
  | conflictingParent (child current requested : String)
  | cycle (parent child : String)
  | interpolation (detail : String)
  | configuration (detail : String)
  deriving DecidableEq, Repr

namespace Failure

def message : Failure → String
  | unknownFrame frame => s!"Frame '{frame}' does not exist"
  | unconnected source target => s!"No path between frame '{source}' and frame '{target}'"
  | outsideHistory parent child time earliest latest =>
    s!"Transform '{parent}' -> '{child}' not available at {time.text}, " ++
      s!"known samples span [{earliest.text}, {latest.text}]"
  | conflictingParent child current requested =>
    s!"Frame '{child}' already has parent '{current}', refusing reparent to '{requested}'"
  | cycle parent child =>
    s!"Edge '{parent}' -> '{child}' would create a cycle in the transform tree"
  | interpolation detail => s!"Error during transform interpolation: {detail}"
  | configuration detail => s!"Configuration error: {detail}"

end Failure

/-- The part that a frame plays in resolving a pose. -/
inductive Role where
  | source
  | destination
  | fixed
  deriving DecidableEq, Repr

namespace Role

def text : Role → String
  | source => "source"
  | destination => "destination"
  | fixed => "fixed"

end Role

/-- A pose could not be resolved because of `frame`, which plays `role`. -/
structure ResolutionFailure where
  role : Role
  frame : String
  cause : Failure
  deriving DecidableEq, Repr

namespace ResolutionFailure

def message (failure : ResolutionFailure) : String :=
  s!"Cannot resolve {failure.role.text} frame '{failure.frame}': {failure.cause.message}"

end ResolutionFailure

end FrameForest
