import FrameForest.Failure

/-!
# Reasons for missing transforms

An object of the scene is known by its place in the settings tree.  When it
cannot be placed, the reason names the frame at fault and the two frames
between which a transform was asked for.
-/

namespace FrameForest

/-- The names from the root of the settings tree down to a node. -/
structure SettingPath where
  segments : List String
  deriving DecidableEq, Ord, Repr

namespace SettingPath

def child (path : SettingPath) (segment : String) : SettingPath :=
  ⟨path.segments ++ [segment]⟩

def text (path : SettingPath) : String :=
  ".".intercalate path.segments

/-- Paths are ordered as lists of names. -/
def precedes (left right : SettingPath) : Bool :=
  (compare left.segments right.segments).isLE

end SettingPath

inductive MissingCause where
  | unknownFrame
  | unconnected
  | outsideHistory
  deriving DecidableEq, Repr

namespace MissingCause

def ofFailure : Failure → MissingCause
  | .unknownFrame _ => unknownFrame
  | .unconnected _ _ | .cycle _ _ => unconnected
  | _ => outsideHistory

end MissingCause

structure MissingReason where
  role : Role
  /-- The frame that could not be resolved. -/
  frame : String
  cause : MissingCause
  /-- The frame that the object is given in. -/
  source : String
  /-- The frame that the object was wanted in. -/
  target : String
  deriving DecidableEq, Repr

namespace MissingReason

def ofFailure (failure : ResolutionFailure) (source target : String) : MissingReason where
  role := failure.role
  frame := failure.frame
  cause := .ofFailure failure.cause
  source := source
  target := target

def message (reason : MissingReason) : String :=
  match reason.cause with
  | .unknownFrame => s!"Missing frame {reason.frame}"
  | .unconnected | .outsideHistory =>
    s!"Missing transform from frame {reason.source} to frame {reason.target}"

def text (reason : MissingReason) : String :=
  s!"{reason.message} ({reason.role.text} frame)"

end MissingReason

end FrameForest
