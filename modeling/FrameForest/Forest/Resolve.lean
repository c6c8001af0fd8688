import FrameForest.Forest.Basic

/-!
# Lookups and pose resolution

A lookup composes the motions of the edges on the route between two frames; it
changes nothing but the hints of the histories and the memo.  `resolve` places a
pose given in one frame at one time into another frame at another time, by way
of a frame that is taken to stand still in between.
-/

namespace FrameForest

namespace EdgeTable

variable {α : Type} [Scalar α]

/-- The motion of the edge of `child` at `time`; without such an edge the child and `parent` are not
connected. -/
def query (edges : EdgeTable α) (parent child : String) (time : Stamp) (tolerance : Duration) :
    Except Failure (Motion α) × EdgeTable α :=
  match edges.find? child with
  | none => (.error (.unconnected child parent), edges)
  | some edge => (edge.query time tolerance).map id edges.put

/-- The motions of the edges of several children in order, up to the first that has none. -/
def queryAll (edges : EdgeTable α) (parentOf : String → String) (time : Stamp)
    (tolerance : Duration) : List String → Except Failure (List (Motion α)) × EdgeTable α
  | [] => (.ok [], edges)
  | child :: rest =>
    match edges.query (parentOf child) child time tolerance with
    | (.error failure, edges) => (.error failure, edges)
    | (.ok motion, edges) =>
      (edges.queryAll parentOf time tolerance rest).map (Except.map (motion :: ·)) id

end EdgeTable

namespace Forest

variable {α : Type} [Scalar α]

/-- From motions up to an ancestor and motions down from it to the motion between the ends. -/
def compose (up down : List (Motion α)) : Motion α :=
  let sourceToAncestor := up.foldl (fun reached motion => motion * reached) 1
  let targetToAncestor := down.foldl (fun reached motion => reached * motion) 1
  (targetToAncestor.inverse * sourceToAncestor).normalized

/-- The motion along a route, computed from the current samples. -/
def traverse (forest : Forest α) (route : Route) (time : Stamp) :
    Except Failure (Motion α) × Forest α :=
  let (motions, edges) := forest.edges.queryAll
    (fun child => (forest.graph.parent? child).getD child) time forest.settings.tolerance
    (route.up ++ route.down)
  (motions.map fun motions =>
    compose (motions.take route.up.length) (motions.drop route.up.length), { forest with edges })

/-- The motion that takes coordinates of `source` to coordinates of `target` at `time`. -/
def lookup (forest : Forest α) (source target : String) (time : Stamp) :
    Except Failure (Motion α) × Forest α :=
  match forest.graph.route source target with
  | .error failure => (.error failure, forest)
  | .ok route =>
    if route.isTrivial then (.ok 1, forest)
    else
      match forest.memo.consult ⟨source, target, time⟩ with
      | (some motion, memo) => (.ok motion, { forest with memo })
      | (none, memo) =>
        match { forest with memo }.traverse route time with
        | (.error failure, forest) => (.error failure, forest)
        | (.ok motion, forest) =>
          (.ok motion, { forest with memo := forest.memo.remember ⟨source, target, time⟩ motion })

/-- Blames a failed lookup on the frame at its own end, unless only the fixed frame is missing. -/
def blame (cause : Failure) (own : String) (role : Role) (fixed : String) : ResolutionFailure :=
  if cause = .unknownFrame fixed ∧ own ≠ fixed then ⟨.fixed, fixed, cause⟩ else ⟨role, own, cause⟩

/-- The three frames and two times of a resolution. -/
structure Resolution where
  destination : String
  source : String
  /-- The frame that stands still between the two times. -/
  fixed : String
  sourceTime : Stamp
  destinationTime : Stamp
  deriving DecidableEq, Repr

/-- Places a pose given in the source frame into the destination frame. -/
def resolve (forest : Forest α) (pose : Pose α) (resolution : Resolution) :
    Except ResolutionFailure (Pose α) × Forest α :=
  if resolution.source = resolution.destination then (.ok pose, forest)
  else
    match forest.lookup resolution.source resolution.fixed resolution.sourceTime with
    | (.error cause, forest) =>
      (.error (blame cause resolution.source .source resolution.fixed), forest)
    | (.ok sourceToFixed, forest) =>
      match forest.lookup resolution.fixed resolution.destination resolution.destinationTime with
      | (.error cause, forest) =>
        (.error (blame cause resolution.destination .destination resolution.fixed), forest)
      | (.ok fixedToDestination, forest) =>
        (.ok (fixedToDestination * sourceToFixed * pose).normalized, forest)

end Forest

end FrameForest
