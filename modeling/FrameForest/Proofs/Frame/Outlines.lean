import FrameForest.Proofs.Frame.CommonAncestors
import FrameForest.Proofs.Frame.Unfolding

/-!
# Outlines are sorted preorders

An outline lists every frame once, right behind the frames above it.  From the
depths alone one can tell where each frame hangs: from the last frame before it
that lies higher.  Siblings, and roots among themselves, stand in ascending order
of their names, so that nothing else shows in an outline.
-/

namespace FrameForest

namespace FrameGraph

variable {graph : FrameGraph}

/-- The depth of a frame is the number of frames above it. -/
def HasDepth (graph : FrameGraph) (frame : String) (depth : Nat) : Prop :=
  ∃ above : List String, above.Nodup ∧
    (∀ other, other ∈ above ↔ Relation.TransGen graph.Hangs other frame) ∧ above.length = depth

/-- The entries are the frames in preorder, siblings and roots by name. -/
structure Outlines (graph : FrameGraph) (entries : List OutlineEntry) : Prop where
  distinct : (entries.map OutlineEntry.frame).Nodup
  complete : ∀ frame, frame ∈ entries.map OutlineEntry.frame ↔ frame ∈ graph.frames
  parent : ∀ entry ∈ entries, entry.parent = graph.parent? entry.frame
  depth : ∀ entry ∈ entries, graph.HasDepth entry.frame entry.depth
  /-- The parent is the last entry before that lies higher. -/
  nested : ∀ before entry after, entries = before ++ entry :: after →
    ∀ parent, entry.parent = some parent →
      ∃ lower holder between, before = lower ++ holder :: between ∧ holder.frame = parent ∧
        holder.depth < entry.depth ∧ ∀ other ∈ between, entry.depth ≤ other.depth
  /-- The frames below a frame stand right behind it. -/
  block : ∀ before entry after, entries = before ++ entry :: after →
    ∃ below rest, after = below ++ rest ∧ ∀ other ∈ entries,
      other ∈ below ↔ Relation.TransGen graph.Hangs entry.frame other.frame
  /-- Roots are the frames without parent. -/
  ascending : ∀ parent : Option String,
    ((entries.filter fun entry => entry.parent = parent).map OutlineEntry.frame).Pairwise (· < ·)

namespace IsForest

variable (forest : graph.IsForest)

include forest

theorem hasDepth_of_lies {frame : String} {depth : Nat} (lies : graph.Lies frame depth) :
    graph.HasDepth frame depth := by
  obtain ⟨chain, climbs, length⟩ := lies
  have distinct := climbs.nodup
  have above := forest.mem_of_climbs_iff climbs
  obtain ⟨rest, rfl⟩ := climbs.exists_cons
  obtain ⟨off, distinct⟩ := List.nodup_cons.1 distinct
  refine ⟨rest, distinct, fun other => ?_, Nat.succ.inj length⟩
  have either := above other
  rw [List.mem_cons, Relation.reflTransGen_iff_eq_or_transGen] at either
  constructor
  · intro higher
    refine (either.1 (.inr higher)).resolve_left ?_
    rintro rfl
    exact off higher
  · intro path
    refine (either.2 (.inr path)).resolve_left ?_
    rintro rfl
    exact forest.acyclic _ path

theorem unfolds_roots : graph.Unfolds 0 graph.roots (graph.walk (graph.roots.map (·, 0)) []) := by
  apply forest.unfolds_walk
  · intro root member
    obtain ⟨known, highest⟩ := mem_roots.1 member
    exact ⟨known, .of_parent?_eq_none highest⟩
  · exact ascending_roots.imp Std.ne_of_lt

/-- An entry behind the parent of its frame, if it has one. -/
private theorem nested_of_walk {before after : List (String × Nat)} {frame parent : String}
    {level : Nat}
    (split : graph.walk (graph.roots.map (·, 0)) [] = before ++ (frame, level) :: after)
    (hangs : graph.parent? frame = some parent) :
    ∃ lower upper between, before = lower ++ (parent, upper) :: between ∧ upper < level ∧
      ∀ met ∈ between, level ≤ met.2 := by
  have unfolds := forest.unfolds_roots
  rcases unfolds.top_or_held split with ⟨rfl, _⟩ | ⟨lower, holder, upper, between, same, held, rest⟩
  · have member : (frame, 0) ∈ graph.walk (graph.roots.map (·, 0)) [] := by simp [split]
    rw [(mem_roots.1 (unfolds.mem_of_top member)).2] at hangs
    cases hangs
  · rw [forest.parent?_eq_some_iff.2 held] at hangs
    cases hangs
    exact ⟨lower, upper, between, same, rest⟩

/-- An entry in front of those of the frames below its frame. -/
private theorem block_of_walk {before after : List (String × Nat)} {frame : String} {level : Nat}
    (split : graph.walk (graph.roots.map (·, 0)) [] = before ++ (frame, level) :: after) :
    ∃ below rest, after = below ++ rest ∧
      ∀ other, other ∈ below.map Prod.fst ↔ Relation.TransGen graph.Hangs frame other := by
  obtain ⟨below, rest, same, inner⟩ := forest.unfolds_roots.exists_block split
  refine ⟨below, rest, same, fun other => ?_⟩
  rw [inner.mem_iff, Relation.TransGen.head'_iff]
  simp only [mem_children]

theorem outlines_outline : graph.Outlines graph.outline := by
  have unfolds := forest.unfolds_roots
  have level : ∀ root ∈ graph.roots, graph.Lies root 0 :=
    fun root member => .of_parent?_eq_none (mem_roots.1 member).2
  have lies := unfolds.lies forest level
  have distinct := unfolds.nodup forest level (ascending_roots.imp Std.ne_of_lt)
  have ordered := unfolds.pairwise_siblings forest level ascending_roots
  have names : graph.outline.map OutlineEntry.frame =
      (graph.walk (graph.roots.map (·, 0)) []).map Prod.fst := by
    simp [outline, Function.comp_def]
  constructor
  case distinct =>
    rw [names]
    exact distinct
  case complete =>
    intro frame
    rw [names, unfolds.mem_iff]
    constructor
    · rintro ⟨root, member, above⟩
      exact (mem_frames_iff_of_path above).1 (mem_roots.1 member).1
    · intro known
      obtain ⟨root, told⟩ := forest.exists_rootOf known
      obtain ⟨_, highest, above⟩ := forest.rootOf_eq_ok_iff.1 told
      have registered : root ∈ graph.frames := (mem_frames_iff_of_path above).2 known
      exact ⟨root, mem_roots.2 ⟨registered, highest⟩, above⟩
  case parent =>
    intro entry member
    obtain ⟨met, _, rfl⟩ := List.mem_map.1 member
    rfl
  case depth =>
    intro entry member
    obtain ⟨met, listed, rfl⟩ := List.mem_map.1 member
    exact forest.hasDepth_of_lies (lies met listed)
  case nested =>
    intro before entry after split parent hangs
    obtain ⟨front, back, whole, rfl, behind⟩ := List.map_eq_append_iff.1 split
    obtain ⟨met, later, rfl, rfl, rfl⟩ := List.map_eq_cons_iff.1 behind
    obtain ⟨lower, upper, between, rfl, higher, deeper⟩ := forest.nested_of_walk whole hangs
    refine ⟨_, _, _, List.map_append, rfl, higher, ?_⟩
    intro other member
    obtain ⟨met, inside, rfl⟩ := List.mem_map.1 member
    exact deeper met inside
  case block =>
    intro before entry after split
    obtain ⟨front, back, whole, rfl, behind⟩ := List.map_eq_append_iff.1 split
    obtain ⟨met, later, rfl, rfl, rfl⟩ := List.map_eq_cons_iff.1 behind
    obtain ⟨below, rest, rfl, inner⟩ := forest.block_of_walk whole
    refine ⟨_, _, List.map_append, fun other member => ?_⟩
    obtain ⟨spot, listed, rfl⟩ := List.mem_map.1 member
    rw [← inner]
    constructor
    · intro inside
      obtain ⟨twin, lower, same⟩ := List.mem_map.1 inside
      exact List.mem_map.2 ⟨twin, lower, congrArg OutlineEntry.frame same⟩
    · intro inside
      obtain ⟨twin, lower, same⟩ := List.mem_map.1 inside
      have present : twin ∈ graph.walk (graph.roots.map (·, 0)) [] := by simp [whole, lower]
      have equal := List.inj_on_of_nodup_map distinct present listed same
      exact List.mem_map.2 ⟨spot, equal ▸ lower, rfl⟩
  case ascending =>
    intro parent
    rw [List.pairwise_map, List.pairwise_filter, outline, List.pairwise_map]
    refine ordered.imp fun smaller first second => smaller ?_
    exact (of_decide_eq_true first).trans (of_decide_eq_true second).symm

end IsForest

end FrameGraph

/-- Whatever was requested before, and the order of the requests does not show. -/
theorem Enumeration.outlines_run (calls : List RosterCall) :
    (empty.run calls).2.roster.graph.Outlines (empty.run calls).2.roster.graph.outline ∧
      ∀ others : List RosterCall,
        (∀ frame, frame ∈ (empty.run calls).2.roster.graph.frames ↔
          frame ∈ (empty.run others).2.roster.graph.frames) →
        (∀ child, (empty.run calls).2.roster.graph.parent? child =
          (empty.run others).2.roster.graph.parent? child) →
        (empty.run calls).2.roster.graph.outline = (empty.run others).2.roster.graph.outline := by
  refine ⟨(isForest_run calls).outlines_outline, fun others frames parents => ?_⟩
  have alike : (empty.run calls).2.roster.graph.Alike (empty.run others).2.roster.graph :=
    ⟨(List.perm_ext_iff_of_nodup (FrameGraph.distinct _) (FrameGraph.distinct _)).2 frames, parents⟩
  exact alike.outline_eq (isForest_run calls) (isForest_run others)

/-- A robot with two sensors, which are mounted one after the other. -/
def RosterCall.assembly (sensors : List String) : List RosterCall :=
  setParent "map" "robot" .replace :: sensors.map fun sensor => setParent "robot" sensor .replace

theorem Enumeration.outlines_run_robot :
    let one := (empty.run (RosterCall.assembly ["lidar", "camera"])).2.roster.graph
    let other := (empty.run (RosterCall.assembly ["camera", "lidar"])).2.roster.graph
    one.outline = [⟨"map", none, 0⟩, ⟨"robot", some "map", 1⟩, ⟨"camera", some "robot", 2⟩,
        ⟨"lidar", some "robot", 2⟩] ∧
      (∀ frame, frame ∈ one.frames ↔ frame ∈ other.frames) ∧
      (∀ child, one.parent? child = other.parent? child) ∧
      one.Outlines one.outline ∧ one.outline = other.outline := by
  intro one other
  have frames : one.frames = ["map", "robot", "lidar", "camera"] ∧
      other.frames = ["map", "robot", "camera", "lidar"] := by decide +kernel
  have links : one.links = [⟨"robot", "camera"⟩, ⟨"robot", "lidar"⟩, ⟨"map", "robot"⟩] ∧
      other.links = [⟨"robot", "lidar"⟩, ⟨"robot", "camera"⟩, ⟨"map", "robot"⟩] := by
    decide +kernel
  have sameFrames : ∀ frame, frame ∈ one.frames ↔ frame ∈ other.frames := by
    intro frame
    simp [frames, or_comm]
  have sameParents : ∀ child, one.parent? child = other.parent? child := by
    intro child
    rw [FrameGraph.parent?, FrameGraph.parent?, links.1, links.2]
    by_cases lidar : "lidar" = child
    · subst lidar
      rfl
    · simp [List.find?_cons, lidar]
  have parents : one.parent? "map" = none ∧ one.parent? "robot" = some "map" ∧
      one.parent? "lidar" = some "robot" ∧ one.parent? "camera" = some "robot" := by
    decide +kernel
  have trees : one.roots = ["map"] ∧ one.children "map" = ["robot"] := by decide +kernel
  have sensors : one.children "robot" = ["camera", "lidar"] := by
    rw [FrameGraph.children, links.1]
    simp [List.mergeSort, List.MergeSort.Internal.splitInTwo]
  have leaves : one.children "lidar" = [] ∧ one.children "camera" = [] := by
    rw [FrameGraph.children, FrameGraph.children, links.1]
    simp
  have shown : one.outline =
      [⟨"map", none, 0⟩, ⟨"robot", some "map", 1⟩, ⟨"camera", some "robot", 2⟩,
        ⟨"lidar", some "robot", 2⟩] := by
    simp [FrameGraph.outline, FrameGraph.walk, trees, sensors, leaves, parents]
  have outlines := outlines_run (RosterCall.assembly ["lidar", "camera"])
  exact ⟨shown, sameFrames, sameParents, outlines.1, outlines.2 _ sameFrames sameParents⟩

end FrameForest
