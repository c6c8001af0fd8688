import FrameForest.Failure

/-!
# The graph of frames

Frames are named, and numbered in the order of their registration.  Links point
from a parent to a child; the graph is an arbitrary finite directed graph, and
`setParent` is the operation that adds links in such a way that the frames stay
a forest.

Walking the graph ends on every graph, cyclic ones included: each step either
passes over a frame that was met before or spends the links that leave a frame
met for the first time.
-/

namespace FrameForest

structure Link where
  parent : String
  child : String
  deriving DecidableEq, Repr

structure FrameGraph where
  /-- In the order of registration. -/
  frames : List String
  /-- The newest first. -/
  links : List Link
  distinct : frames.Nodup
  closed : ∀ link ∈ links, link.parent ∈ frames ∧ link.child ∈ frames

/-- What happens when a child that has a parent is named under another one. -/
inductive ReparentPolicy where
  /-- The child moves. -/
  | replace
  /-- The child stays, and the request fails. -/
  | reject
  deriving DecidableEq, Repr

/-- The effect of an accepted parent on a child. -/
inductive ParentChange where
  | unchanged
  | attached
  | reparented (previous : String)
  deriving DecidableEq, Repr

namespace FrameGraph

def empty : FrameGraph where
  frames := []
  links := []
  distinct := List.nodup_nil
  closed := by simp

instance : EmptyCollection FrameGraph := ⟨empty⟩

def contains (graph : FrameGraph) (frame : String) : Bool :=
  decide (frame ∈ graph.frames)

/-- The number of a frame. -/
def index (graph : FrameGraph) (frame : String) : Except Failure Nat :=
  match graph.frames.idxOf? frame with
  | some index => .ok index
  | none => .error (.unknownFrame frame)

/-- The parent in the newest link to `child`. -/
def parent? (graph : FrameGraph) (child : String) : Option String :=
  (graph.links.find? fun link => link.child = child).map Link.parent

/-- The children of a frame by name. -/
def children (graph : FrameGraph) (frame : String) : List String :=
  ((graph.links.filter fun link => link.parent = frame).map Link.child).mergeSort
    fun left right => decide (left ≤ right)

/-- The frames without parent by name. -/
def roots (graph : FrameGraph) : List String :=
  (graph.frames.filter fun frame => (graph.parent? frame).isNone).mergeSort
    fun left right => decide (left ≤ right)

/-- The links that leave a frame not yet visited. -/
def unspent (graph : FrameGraph) (visited : List String) : List Link :=
  graph.links.filter fun link => link.parent ∉ visited

theorem length_unspent_cons (graph : FrameGraph) {frame : String} {visited : List String}
    (fresh : frame ∉ visited) :
    (graph.unspent (frame :: visited)).length + (graph.children frame).length
      = (graph.unspent visited).length := by
  simp only [unspent, children, List.length_mergeSort, List.length_map]
  induction graph.links with
  | nil => rfl
  | cons link links ih =>
      by_cases leaves : link.parent = frame
      · simp [leaves, fresh] at ih ⊢
        omega
      · by_cases old : link.parent ∈ visited
        · simpa [leaves, old] using ih
        · simp [leaves, old] at ih ⊢
          omega

/-- Walks down from the pending frames, a frame before its children and each frame once, and lists
the frames met with their depths.  Frames in `visited` count as met before. -/
def walk (graph : FrameGraph) (pending : List (String × Nat)) (visited : List String) :
    List (String × Nat) :=
  match pending with
  | [] => []
  | (frame, depth) :: rest =>
    if frame ∈ visited then graph.walk rest visited
    else
      (frame, depth) ::
        graph.walk ((graph.children frame).map (·, depth + 1) ++ rest) (frame :: visited)
termination_by (graph.unspent visited).length + pending.length
decreasing_by
  · simp
  · have spent := graph.length_unspent_cons ‹frame ∉ visited›
    simp only [List.length_append, List.length_map, List.length_cons]
    omega

/-- Some chain of links, possibly empty, leads from `start` down to `goal`. -/
def reaches (graph : FrameGraph) (start goal : String) : Bool :=
  (graph.walk [(start, 0)] []).any fun met => met.1 = goal

/-- Adds a frame, unless it is registered already. -/
def register (graph : FrameGraph) (frame : String) : FrameGraph :=
  if fresh : frame ∈ graph.frames then graph
  else
    { graph with
      frames := graph.frames ++ [frame]
      distinct := by
        rw [List.nodup_append]
        refine ⟨graph.distinct, by simp, fun other present last same => ?_⟩
        rw [List.mem_singleton] at same
        exact fun equal => fresh (same ▸ equal ▸ present)
      closed := fun link member =>
        ⟨List.mem_append_left _ (graph.closed link member).1,
          List.mem_append_left _ (graph.closed link member).2⟩ }

theorem mem_register {graph : FrameGraph} {frame other : String} :
    other ∈ (graph.register frame).frames ↔ other = frame ∨ other ∈ graph.frames := by
  unfold register
  split
  case isTrue present =>
    exact ⟨.inr, fun either => either.elim (fun same => same ▸ present) id⟩
  case isFalse fresh => simp [or_comm]

@[simp] theorem links_register (graph : FrameGraph) (frame : String) :
    (graph.register frame).links = graph.links := by
  unfold register
  split <;> rfl

/-- Registers both frames and puts `child` under `parent`, in place of its link to `previous`. -/
def link (graph : FrameGraph) (parent child : String) (previous : Option String) : FrameGraph :=
  let registered := (graph.register parent).register child
  { frames := registered.frames
    links := ⟨parent, child⟩ ::
      (match previous with
      | none => graph.links
      | some previous => graph.links.erase ⟨previous, child⟩)
    distinct := registered.distinct
    closed := by
      intro link member
      rcases List.mem_cons.1 member with rfl | old
      · simp [registered, mem_register]
      · have kept : link ∈ graph.links := by
          cases previous with
          | none => exact old
          | some previous => exact List.mem_of_mem_erase old
        have ⟨parentKnown, childKnown⟩ := graph.closed link kept
        simp [registered, mem_register, parentKnown, childKnown] }

/-- Puts `child` under `parent`, registering both if needed.  A refused request changes nothing. -/
def setParent (graph : FrameGraph) (parent child : String) (policy : ReparentPolicy) :
    Except Failure (ParentChange × FrameGraph) :=
  if parent = child then .error (.cycle parent child)
  else if graph.parent? child = some parent then .ok (.unchanged, graph)
  else if graph.reaches child parent then .error (.cycle parent child)
  else
    match graph.parent? child, policy with
    | none, _ => .ok (.attached, graph.link parent child none)
    | some previous, .replace => .ok (.reparented previous, graph.link parent child (some previous))
    | some previous, .reject => .error (.conflictingParent child previous parent)

end FrameGraph

end FrameForest
