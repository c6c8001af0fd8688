import FrameForest.Ron.Value
import FrameForest.Settings

/-!
# Settings as text

Settings are kept as RON text that allows implicit options.  Every field may be
left out and then has its standard value; fields that are not known are passed
over.
-/

namespace FrameForest

namespace ReparentPolicy

def name : ReparentPolicy → String
  | replace => "Replace"
  | reject => "Reject"

def all : List ReparentPolicy :=
  [replace, reject]

def ofName? (name : String) : Option ReparentPolicy :=
  all.find? fun policy => policy.name = name

end ReparentPolicy

namespace Settings

/-- One line for every field, indented by four spaces. -/
def render (settings : Settings) : String :=
  "\n".intercalate
    ["(",
      s!"    max_samples_per_edge: {settings.samplesPerEdge},",
      s!"    max_storage_time: {settings.storageTime.nanos},",
      s!"    tolerance: {settings.tolerance.nanos},",
      s!"    reparent_policy: {settings.reparenting.name},",
      s!"    cache_size: {settings.memoCapacity},",
      ")"]

def word? : Ron.Value → Option UInt64
  | .number literal => Ron.word? literal
  | _ => none

def policy? : Ron.Value → Option ReparentPolicy
  | .name name => ReparentPolicy.ofName? name.identifier
  | _ => none

/-- The settings with the given fields. -/
def ofFields? (fields : List (String × Ron.Value)) : Option Settings := do
  let duration? (value : Ron.Value) : Option Duration := (word? value).map Duration.mk
  some
    { samplesPerEdge :=
        ← Ron.field? fields "max_samples_per_edge" word? standard.samplesPerEdge
      storageTime := ← Ron.field? fields "max_storage_time" duration? standard.storageTime
      tolerance := ← Ron.field? fields "tolerance" duration? standard.tolerance
      reparenting := ← Ron.field? fields "reparent_policy" policy? standard.reparenting
      memoCapacity := ← Ron.field? fields "cache_size" word? standard.memoCapacity }

def ofText? (text : String) : Option Settings := do
  let value ← Ron.Value.ofText? [Ron.implicitSomeExtension] text
  ofFields? (← value.fields? "TransformTreeConfig")

/-- Reads settings and checks them. -/
def load (text : String) : Except Failure Settings :=
  match ofText? text with
  | none => .error (.configuration "Syntax error in config")
  | some settings => settings.checked

/-- Loads settings from the content of a file, which may be missing or not be text. -/
def loadFile (path : String) (content : Option ByteArray) : Except Failure Settings :=
  match content.bind String.fromUTF8? with
  | none => .error (.configuration s!"Failed to read configuration file {path}")
  | some text => load text

end Settings

end FrameForest
