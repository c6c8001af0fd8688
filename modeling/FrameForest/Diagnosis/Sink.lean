import FrameForest.Diagnosis.Reason
import FrameForest.Table

/-!
# Sinks for diagnoses

A sink is told when an object cannot be placed, and when it can be again.  A
board holds at most one active diagnosis for each path.  A watch stands in front
of another sink and passes on only the calls that change the state of their
path.
-/

namespace FrameForest

class DiagnosisSink (σ : Type) where
  report : σ → SettingPath → MissingReason → σ
  clear : σ → SettingPath → σ

structure Board where
  active : Table SettingPath MissingReason
  /-- How often a diagnosis was raised or changed. -/
  reported : Nat
  /-- How often an active diagnosis was removed. -/
  cleared : Nat

namespace Board

def empty : Board :=
  ⟨∅, 0, 0⟩

def isActive (board : Board) (path : SettingPath) : Bool :=
  board.active.contains path

/-- The active diagnoses ordered by path. -/
def listing (board : Board) : List (SettingPath × MissingReason) :=
  board.active.sorted SettingPath.precedes

/-- Takes every diagnosis off the board and keeps the counts. -/
def wipe (board : Board) : Board :=
  { board with active := ∅ }

def report (board : Board) (path : SettingPath) (reason : MissingReason) : Board :=
  if board.active.find? path = some reason then board
  else
    { board with
      active := board.active.insert path reason
      reported := board.reported + 1 }

def clear (board : Board) (path : SettingPath) : Board :=
  if board.active.contains path then
    { board with
      active := board.active.erase path
      cleared := board.cleared + 1 }
  else
    board

instance : DiagnosisSink Board := ⟨report, clear⟩

end Board

structure Watch (σ : Type) where
  sink : σ
  failing : Table SettingPath MissingReason

namespace Watch

variable {σ : Type}

def around (sink : σ) : Watch σ :=
  ⟨sink, ∅⟩

def isFailing (watch : Watch σ) (path : SettingPath) : Bool :=
  watch.failing.contains path

def failingCount (watch : Watch σ) : Nat :=
  watch.failing.size

/-- Forgets every path without telling the sink. -/
def forget (watch : Watch σ) : Watch σ :=
  { watch with failing := ∅ }

variable [DiagnosisSink σ]

def report (watch : Watch σ) (path : SettingPath) (reason : MissingReason) : Watch σ :=
  if watch.failing.find? path = some reason then watch
  else
    { sink := DiagnosisSink.report watch.sink path reason
      failing := watch.failing.insert path reason }

def clear (watch : Watch σ) (path : SettingPath) : Watch σ :=
  if watch.failing.contains path then
    { sink := DiagnosisSink.clear watch.sink path
      failing := watch.failing.erase path }
  else
    watch

instance : DiagnosisSink (Watch σ) := ⟨report, clear⟩

end Watch

/-- A call that a sink received. -/
inductive SinkCall where
  | report (path : SettingPath) (reason : MissingReason)
  | clear (path : SettingPath)
  deriving DecidableEq, Repr

namespace SinkCall

def path : SinkCall → SettingPath
  | report path _ => path
  | clear path => path

def text : SinkCall → String
  | report path reason => s!"report {path.text}: {reason.text}"
  | clear path => s!"clear {path.text}"

/-- Makes the call on a sink. -/
def send {σ : Type} [DiagnosisSink σ] (sink : σ) : SinkCall → σ
  | report path reason => DiagnosisSink.report sink path reason
  | clear path => DiagnosisSink.clear sink path

end SinkCall

/-- A list of calls is a sink that only takes notes. -/
instance : DiagnosisSink (List SinkCall) where
  report calls path reason := calls ++ [.report path reason]
  clear calls path := calls ++ [.clear path]

end FrameForest
