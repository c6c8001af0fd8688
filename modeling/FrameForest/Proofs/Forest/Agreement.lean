import FrameForest.Proofs.Forest.Calls
import FrameForest.Proofs.Forest.Hops
import FrameForest.Proofs.Frame.Routes

/-!
# Graph and edges tell one forest

The graph and the table of edges are updated one after the other, and a frame may
be attached, moved, switched between fixed and timed, or refused.  Through all of
this they describe the same forest, so that climbing never runs into a cycle and
a route never lacks an edge.
-/

namespace FrameForest

namespace FrameGraph

variable {graph : FrameGraph}

/-- From parent to parent no frame is met again. -/
theorem IsForest.parents_acyclic (forest : graph.IsForest) (frame : String) :
    ¬Relation.TransGen (fun lower upper => graph.parent? lower = some upper) frame frame := by
  intro cycle
  have down : Relation.TransGen (Function.swap graph.Hangs) frame frame :=
    Relation.TransGen.mono (fun lower upper found => hangs_of_parent? found) _ _ cycle
  exact forest.acyclic frame (Relation.TransGen.swap _ _ down)

theorem IsForest.route_ne_cycle (forest : graph.IsForest) (source target parent child : String) :
    graph.route source target ≠ .error (.cycle parent child) := by
  intro failed
  cases forest.unrouted_of_route failed

theorem IsForest.rootOf_ne_cycle (forest : graph.IsForest) (frame parent child : String) :
    graph.rootOf frame ≠ .error (.cycle parent child) := by
  intro failed
  obtain ⟨chain, climbed⟩ := forest.exists_lineage frame
  unfold rootOf at failed
  by_cases known : frame ∈ graph.frames
  · obtain ⟨number, found⟩ := index_of_mem known
    rw [found, climbed] at failed
    cases failed
  · rw [index_of_not_mem known] at failed
    cases failed

end FrameGraph

namespace Forest

variable {α : Type} {forest : Forest α}

theorem Consistent.parent?_eq_some_iff (consistent : forest.Consistent) (child parent : String) :
    forest.graph.parent? child = some parent ↔
      ∃ edge, forest.edges.find? child = some edge ∧ edge.child = child ∧ edge.parent = parent ∧
        edge.track.samples ≠ [] := by
  rw [← consistent.parents child, Option.map_eq_some_iff]
  constructor
  · rintro ⟨edge, found, starts⟩
    exact ⟨edge, found, consistent.keyed child edge found, starts,
      consistent.occupied child edge found⟩
  · rintro ⟨edge, found, _, starts, _⟩
    exact ⟨edge, found, starts⟩

theorem Consistent.isSome_find? (consistent : forest.Consistent) (child : String) :
    (forest.edges.find? child).isSome = (forest.graph.parent? child).isSome := by
  rw [← consistent.parents child, Option.isSome_map]

theorem Consistent.size_eq (consistent : forest.Consistent) :
    forest.edges.size =
      (forest.graph.frames.filter fun frame => (forest.graph.parent? frame).isSome).length := by
  have member : ∀ child, child ∈ forest.edges.keys ↔
      child ∈ forest.graph.frames.filter fun frame => (forest.graph.parent? frame).isSome := by
    intro child
    have keys : child ∈ forest.edges.keys ↔ (forest.graph.parent? child).isSome := by
      rw [← consistent.isSome_find?, ← not_iff_not, ← Table.find?_eq_none_iff]
      simp
    rw [keys, List.mem_filter]
    constructor
    · intro hangs
      obtain ⟨parent, found⟩ := Option.isSome_iff_exists.1 hangs
      exact ⟨(FrameGraph.mem_frames_of_parent? found).2, hangs⟩
    · exact And.right
  have perm := (List.perm_ext_iff_of_nodup forest.edges.distinct
    (forest.graph.distinct.filter _)).2 member
  have length : forest.edges.keys.length = forest.edges.size := by
    simp [Table.keys, Table.size]
  exact length.symm.trans perm.length_eq

/-- No edge of a route is missing. -/
theorem Consistent.exists_edge_of_route (consistent : forest.Consistent) {source target : String}
    {route : Route} (found : forest.graph.route source target = .ok route) :
    ∀ child ∈ route.up ++ route.down, ∃ edge, forest.edges.find? child = some edge := by
  intro child member
  rw [← Option.isSome_iff_exists, consistent.isSome_find?]
  exact consistent.isForest.parent?_isSome_of_route found child member

theorem Consistent.traverse_ne_unconnected [Scalar α] (consistent : forest.Consistent)
    {source target : String} {route : Route} (found : forest.graph.route source target = .ok route)
    (time : Stamp) (first second : String) :
    (forest.traverse route time).1 ≠ .error (.unconnected first second) := by
  intro failed
  rw [fst_traverse consistent.keyed] at failed
  cases asked : (route.up ++ route.down).mapM (forest.motionOf time) with
  | ok motions =>
      rw [asked] at failed
      cases failed
  | error failure =>
      rw [asked] at failed
      cases failed
      obtain ⟨child, member, told⟩ := exists_error_of_mapM asked
      obtain ⟨edge, held⟩ := consistent.exists_edge_of_route found child member
      rw [motionOf_of_find? held, Edge.fst_query] at told
      split at told <;> cases told

/-- Graph and edges describe one forest. -/
structure OneForest [Scalar α] (forest : Forest α) : Prop where
  /-- Each name has one number and each number below the count of frames one name. -/
  numbered : ∀ frame number,
    forest.graph.index frame = .ok number ↔ forest.graph.frames[number]? = some frame
  distinct : forest.graph.frames.Nodup
  single : ∀ child, (forest.graph.links.filter fun link => link.child = child).length ≤ 1
  acyclic : ∀ frame,
    ¬Relation.TransGen (fun lower upper => forest.graph.parent? lower = some upper) frame frame
  /-- A frame hangs from another one exactly when an edge with samples says so. -/
  agreed : ∀ child parent, forest.graph.parent? child = some parent ↔
    ∃ edge, forest.edges.find? child = some edge ∧ edge.child = child ∧ edge.parent = parent ∧
      edge.track.samples ≠ []
  size : forest.edges.size =
    (forest.graph.frames.filter fun frame => (forest.graph.parent? frame).isSome).length
  lineage : ∀ frame, ∃ chain, forest.graph.lineage frame = .ok chain
  rootOf : ∀ frame parent child, forest.graph.rootOf frame ≠ .error (.cycle parent child)
  route : ∀ source target parent child,
    forest.graph.route source target ≠ .error (.cycle parent child)
  /-- No edge of a route is missing. -/
  traverse : ∀ source target route, forest.graph.route source target = .ok route →
    ∀ time first second, (forest.traverse route time).1 ≠ .error (.unconnected first second)

theorem Consistent.oneForest [Scalar α] (consistent : forest.Consistent) : forest.OneForest where
  numbered := fun _ _ => FrameGraph.index_eq_ok_iff
  distinct := forest.graph.distinct
  single := consistent.isForest.length_filter_child_le
  acyclic := consistent.isForest.parents_acyclic
  agreed := consistent.parent?_eq_some_iff
  size := consistent.size_eq
  lineage := consistent.isForest.exists_lineage
  rootOf := consistent.isForest.rootOf_ne_cycle
  route := consistent.isForest.route_ne_cycle
  traverse := fun _ _ _ found => consistent.traverse_ne_unconnected found

/-- Whatever is called, and whether it is accepted or refused. -/
theorem oneForest_after [Scalar α] (settings : Settings) (calls : List (Call α)) :
    (after settings calls).OneForest :=
  (sound_after settings calls).consistent.oneForest

end Forest

end FrameForest
