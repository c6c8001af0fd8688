import FrameForest.Frame.Graph

/-!
# Settings of a forest

Settings may be built freely; `checked` is what a loaded configuration has to
pass before it is used.
-/

namespace FrameForest

structure Settings where
  /-- Upper bound of the samples that an edge retains. -/
  samplesPerEdge : UInt64
  /-- Samples older than the newest one of their edge by more than this are let go. -/
  storageTime : Duration
  /-- How far outside the samples of an edge a query may fall. -/
  tolerance : Duration
  reparenting : ReparentPolicy
  /-- Number of lookups remembered between two changes of the forest. -/
  memoCapacity : UInt64
  deriving DecidableEq, Repr

namespace Settings

def standard : Settings where
  samplesPerEdge := 10000
  storageTime := .ofSeconds 10
  tolerance := 0
  reparenting := .replace
  memoCapacity := 100

instance : Inhabited Settings := ⟨standard⟩

/-- The settings, provided an edge may keep a sample at all. -/
def checked (settings : Settings) : Except Failure Settings :=
  if settings.samplesPerEdge = 0 then
    .error (.configuration "max_samples_per_edge must be at least 1")
  else
    .ok settings

end Settings

end FrameForest
