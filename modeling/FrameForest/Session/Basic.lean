import FrameForest.Publishing.Advertisements
import FrameForest.Session.Placement

/-!
# Sessions

A session holds the forest, the samples received since the last tick and the
playback clock.  Samples wait until the start of a tick, so that all resolutions
of one tick see the same histories.
-/

namespace FrameForest

/-- A sample on its way to an edge. -/
structure StampedMotion (α : Type) where
  parent : String
  child : String
  stamp : Stamp
  motion : Motion α
  deriving Repr

/-- A sample waiting for the next tick. -/
inductive Arrival (α : Type) where
  | timed (stamped : StampedMotion α)
  | fixed (stamped : StampedMotion α)

namespace Arrival

variable {α : Type}

/-- Records the sample directly. -/
def recordIn (arrival : Arrival α) (forest : Forest α) :
    Journaled (Except Failure Recording × Forest α) :=
  match arrival with
  | timed stamped =>
    forest.recordTimed stamped.parent stamped.child ⟨stamped.stamp, stamped.motion⟩
  | fixed stamped => forest.recordFixed stamped.parent stamped.child stamped.motion

end Arrival

structure Session (α : Type) where
  forest : Forest α
  /-- In the order of arrival. -/
  pending : List (Arrival α)
  now : Option Stamp
  advertisements : Advertisements
  /-- The forest was cleared since the last tick. -/
  placementsOutdated : Bool

structure TickReport where
  ingested : Nat
  rejected : Nat
  resolved : Nat
  failed : Nat
  deriving DecidableEq, Repr

namespace Session

variable {α σ : Type}

def empty (settings : Settings) : Session α :=
  ⟨.empty settings, [], none, .empty, false⟩

def enqueue (session : Session α) (arrival : Arrival α) : Session α :=
  { session with pending := session.pending ++ [arrival] }

/-- Records the arrivals in order and counts how many were accepted and how many rejected. -/
def absorb (forest : Forest α) : List (Arrival α) → Journaled ((Nat × Nat) × Forest α)
  | [] => pure ((0, 0), forest)
  | arrival :: rest => do
    let (recorded, forest) ← arrival.recordIn forest
    let ((accepted, rejected), forest) ← absorb forest rest
    match recorded with
    | .ok _ => pure ((accepted + 1, rejected), forest)
    | .error _ => pure ((accepted, rejected + 1), forest)

/-- Moves the pending samples into the forest. -/
def flush (session : Session α) : Journaled ((Nat × Nat) × Session α) := do
  let (counts, forest) ← absorb session.forest session.pending
  pure (counts, { session with forest, pending := [] })

/-- Forgets every frame and sample, the pending ones included. -/
def reset (session : Session α) : Journaled (Session α) := do
  Journaled.write .notice "Resetting transform session"
  let forest ← session.forest.reset
  pure { session with forest, pending := [], placementsOutdated := true }

/-- Moves the clock.  A seek drops the remembered lookups and clears the session when it lands
before every retained sample; the answer tells whether it did. -/
def setTime (session : Session α) (time : Stamp) (isSeek : Bool) :
    Journaled (Bool × Session α) := do
  let moved := { session with now := some time }
  if isSeek then
    let forest ← session.forest.jump (session.now.getD time)
    let jumped := { moved with forest }
    match forest.edges.earliestTimed? with
    | some earliest =>
      if time < earliest then
        Journaled.write .notice
          (s!"Seek to {time.text} is before the earliest retained transform {earliest.text}, " ++
            "resetting")
        pure (true, ← jumped.reset)
      else
        Journaled.write .detail s!"Seek to {time.text}, keeping retained transforms"
        pure (false, jumped)
    | none =>
      Journaled.write .detail s!"Seek to {time.text}, keeping retained transforms"
      pure (false, jumped)
  else
    pure (false, moved)

/-- Updates several placements in turn. -/
def updateAll [Scalar α] [DiagnosisSink σ] (renderFrame fixedFrame : String) (now : Stamp)
    (forest : Forest α) (sink : σ) : List (Placement α) → List (Placement α) × Forest α × σ
  | [] => ([], forest, sink)
  | placement :: rest =>
    let (updated, forest, sink) := placement.update forest renderFrame fixedFrame now sink
    let (others, forest, sink) := updateAll renderFrame fixedFrame now forest sink rest
    (updated :: others, forest, sink)

/-- Absorbs the pending samples and then resolves every placement into `renderFrame`. -/
def tick [Scalar α] [DiagnosisSink σ] (session : Session α) (placements : List (Placement α))
    (renderFrame fixedFrame : String) (sink : σ) :
    Journaled (TickReport × List (Placement α) × Session α × σ) := do
  let ((ingested, rejected), session) ← session.flush
  let current := if session.placementsOutdated then placements.map Placement.reset else placements
  let (updated, forest, sink) :=
    updateAll renderFrame fixedFrame (session.now.getD 0) session.forest sink current
  let resolved := updated.countP fun placement => placement.state = .resolved
  let failed := updated.countP fun placement =>
    placement.state = .unresolved ∨ placement.state = .stale
  pure (⟨ingested, rejected, resolved, failed⟩, updated,
    { session with forest, placementsOutdated := false }, sink)

end Session

end FrameForest
