import FrameForest.Publishing.Message
import FrameForest.Ron.Value

/-!
# Deviations as text

Deviations are kept as RON text whose fields may be left out.
-/

namespace FrameForest.Deviation

def double? : Ron.Value → Option Float
  | .number literal => Ron.double? literal
  | .name ⟨identifier, false⟩ => Ron.special? identifier
  | _ => none

/-- Reads the deviations of a pose estimate. -/
def ofText? (text : String) : Option (Deviation Float) := do
  let value ← Ron.Value.ofText? [] text
  let fields ← value.fields? "PoseDeviation"
  some
    { x := ← Ron.field? fields "x" double? standard.x
      y := ← Ron.field? fields "y" double? standard.y
      theta := ← Ron.field? fields "theta" double? standard.theta }

end FrameForest.Deviation
