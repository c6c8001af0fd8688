import FrameForest.Frame.Outline
import FrameForest.Proofs.Frame.Likeness
import FrameForest.Proofs.Frame.Routes

/-!
# Walks unfold trees

In a forest a walk never comes to a frame twice, so what it lists is described by
recursion on the trees alone: `Unfolds` puts every frame in front of the listing of
its children.  Frames of one depth have nothing below them in common, which is why
no frame occurs twice, and the depths tell where in the listing a tree ends.
-/

namespace FrameForest

namespace FrameGraph

variable {graph : FrameGraph}

/-- Some frames of one depth with all frames below them, each in front of its own ones. -/
inductive Unfolds (graph : FrameGraph) : Nat → List String → List (String × Nat) → Prop
  | nil {depth : Nat} : Unfolds graph depth [] []
  | cons {depth : Nat} {frame : String} {siblings : List String}
      {below others : List (String × Nat)}
      (down : Unfolds graph (depth + 1) (graph.children frame) below)
      (across : Unfolds graph depth siblings others) :
      Unfolds graph depth (frame :: siblings) ((frame, depth) :: (below ++ others))

/-- The frame and those above it are one more than `depth`. -/
def Lies (graph : FrameGraph) (frame : String) (depth : Nat) : Prop :=
  ∃ chain, graph.Climbs frame chain ∧ chain.length = depth + 1

namespace Lies

variable {frame lower : String} {depth other : Nat}

theorem of_parent?_eq_none (root : graph.parent? frame = none) : graph.Lies frame 0 :=
  ⟨[frame], .root root, rfl⟩

theorem child (lies : graph.Lies frame depth) (hangs : graph.parent? lower = some frame) :
    graph.Lies lower (depth + 1) := by
  obtain ⟨chain, climbs, length⟩ := lies
  exact ⟨lower :: chain, .step hangs climbs, congrArg (· + 1) length⟩

theorem unique (lies : graph.Lies frame depth) (again : graph.Lies frame other) :
    depth = other := by
  obtain ⟨chain, climbs, length⟩ := lies
  obtain ⟨same, climbsToo, lengthToo⟩ := again
  rw [climbs.unique climbsToo] at length
  omega

/-- Frames with the same parent lie at the same depth. -/
theorem of_sibling (lies : graph.Lies frame depth)
    (siblings : graph.parent? frame = graph.parent? lower) : graph.Lies lower depth := by
  obtain ⟨chain, climbs, length⟩ := lies
  cases climbs with
  | root top => exact ⟨[lower], .root (siblings.symm.trans top), length⟩
  | step hangs above => exact ⟨_, .step (siblings.symm.trans hangs) above, length⟩

theorem depth_lt (lies : graph.Lies frame depth) (known : frame ∈ graph.frames) :
    depth < graph.frames.length := by
  obtain ⟨chain, climbs, length⟩ := lies
  have bound := climbs.length_le known
  omega

end Lies

namespace IsForest

variable (forest : graph.IsForest)

include forest

/-- On the way up from a frame there is one frame of each depth. -/
theorem eq_of_above {first second frame : String} {depth : Nat} (left : graph.Lies first depth)
    (right : graph.Lies second depth) (aboveLeft : Relation.ReflTransGen graph.Hangs first frame)
    (aboveRight : Relation.ReflTransGen graph.Hangs second frame) : first = second := by
  obtain ⟨chain, climbed⟩ := forest.exists_lineage frame
  have climbs := climbs_of_climb climbed
  have listed := (forest.mem_of_climbs_iff climbs _).2 aboveLeft
  obtain ⟨lower, upper, split⟩ := List.append_of_mem listed
  obtain ⟨lower', upper', split'⟩ :=
    List.append_of_mem ((forest.mem_of_climbs_iff climbs _).2 aboveRight)
  obtain ⟨lineage, climbsLeft, length⟩ := left
  obtain ⟨lineage', climbsRight, length'⟩ := right
  have tail := (climbs.split split).2.unique climbsLeft
  have tail' := (climbs.split split').2.unique climbsRight
  have ends : first :: upper = second :: upper' := by
    apply (List.append_inj' (split.symm.trans split') _).2
    rw [tail, tail', length, length']
  exact (List.cons.inj ends).1

/-! ## Names in ascending order -/

omit forest in
theorem ascending_mergeSort {names : List String} (distinct : names.Nodup) :
    (names.mergeSort fun left right => decide (left ≤ right)).Pairwise (· < ·) := by
  have apart : (names.mergeSort fun left right => decide (left ≤ right)).Pairwise (· ≠ ·) :=
    (List.mergeSort_perm _ _).nodup_iff.2 distinct
  refine ((pairwise_mergeSort names).and apart).imp fun both => ?_
  exact Std.lt_of_le_of_ne both.1 both.2

theorem ascending_children (frame : String) : (graph.children frame).Pairwise (· < ·) :=
  ascending_mergeSort (forest.single.sublist (List.filter_sublist.map Link.child))

omit forest in
theorem ascending_roots : graph.roots.Pairwise (· < ·) :=
  ascending_mergeSort (graph.distinct.filter _)

omit forest in
theorem mem_roots {frame : String} :
    frame ∈ graph.roots ↔ frame ∈ graph.frames ∧ graph.parent? frame = none := by
  simp [roots]

theorem lies_children {frame : String} {depth : Nat} (lies : graph.Lies frame depth) :
    ∀ child ∈ graph.children frame, graph.Lies child (depth + 1) := by
  intro child member
  exact lies.child (forest.parent?_eq_some_iff.2 (mem_children.1 member))

end IsForest

namespace Unfolds

variable {depth : Nat} {names : List String} {listing : List (String × Nat)}

/-! ## Walking -/

/-- A walk lists what unfolds from its pending frames before it comes to the rest. -/
theorem walk_eq (unfolds : graph.Unfolds depth names listing) {visited : List String}
    (distinct : (listing.map Prod.fst).Nodup) (fresh : ∀ met ∈ listing, met.1 ∉ visited)
    (rest : List (String × Nat)) :
    graph.walk (names.map (·, depth) ++ rest) visited =
      listing ++ graph.walk rest ((listing.map Prod.fst).reverse ++ visited) := by
  induction unfolds generalizing visited rest with
  | nil => rfl
  | @cons depth frame siblings below others down across ihDown ihAcross =>
      rw [List.map_cons, List.map_append, List.nodup_cons, List.nodup_append] at distinct
      obtain ⟨off, distinctBelow, distinctOthers, apart⟩ := distinct
      rw [List.mem_append, not_or] at off
      have first : frame ∉ visited := fresh _ List.mem_cons_self
      have freshBelow : ∀ met ∈ below, met.1 ∉ frame :: visited := by
        intro met member
        have listed := List.mem_map_of_mem (f := Prod.fst) member
        rw [List.mem_cons, not_or]
        constructor
        · exact fun same => off.1 (same ▸ listed)
        · exact fresh met (List.mem_cons_of_mem _ (List.mem_append_left _ member))
      have freshOthers : ∀ met ∈ others,
          met.1 ∉ (below.map Prod.fst).reverse ++ frame :: visited := by
        intro met member
        have listed := List.mem_map_of_mem (f := Prod.fst) member
        rw [List.mem_append, List.mem_reverse, List.mem_cons, not_or, not_or]
        refine ⟨fun lower => apart _ lower _ listed rfl, fun same => off.2 (same ▸ listed), ?_⟩
        exact fresh met (List.mem_cons_of_mem _ (List.mem_append_right _ member))
      rw [List.map_cons, List.cons_append, walk, if_neg first, ihDown distinctBelow freshBelow,
        ihAcross distinctOthers freshOthers]
      simp

/-! ## What is listed -/

/-- Everything below the given frames is listed, and nothing else. -/
theorem mem_iff (unfolds : graph.Unfolds depth names listing) (frame : String) :
    frame ∈ listing.map Prod.fst ↔
      ∃ name ∈ names, Relation.ReflTransGen graph.Hangs name frame := by
  induction unfolds with
  | nil => simp
  | @cons depth top siblings below others down across ihDown ihAcross =>
      have lower : Relation.ReflTransGen graph.Hangs top frame ↔
          frame = top ∨ ∃ child ∈ graph.children top,
            Relation.ReflTransGen graph.Hangs child frame := by
        rw [Relation.ReflTransGen.cases_head_iff, eq_comm]
        simp
      rw [List.map_cons, List.map_append, List.mem_cons, List.mem_append, ihDown, ihAcross,
        List.exists_mem_cons_iff, lower, or_assoc]

theorem depth_le (unfolds : graph.Unfolds depth names listing) :
    ∀ met ∈ listing, depth ≤ met.2 := by
  induction unfolds with
  | nil => simp
  | cons down across ihDown ihAcross =>
      intro met member
      rcases List.mem_cons.1 member with rfl | further
      · exact Nat.le_refl _
      · rcases List.mem_append.1 further with lower | beside
        · exact Nat.le_of_succ_le (ihDown met lower)
        · exact ihAcross met beside

/-- At the depth of the given frames nothing else is listed. -/
theorem mem_of_top (unfolds : graph.Unfolds depth names listing) {frame : String}
    (member : (frame, depth) ∈ listing) : frame ∈ names := by
  induction unfolds with
  | nil => cases member
  | cons down across ihDown ihAcross =>
      rcases List.mem_cons.1 member with same | further
      · cases same
        exact List.mem_cons_self
      · rcases List.mem_append.1 further with lower | beside
        · exact absurd (down.depth_le _ lower) (Nat.not_succ_le_self _)
        · exact List.mem_cons_of_mem _ (ihAcross beside)

theorem lies (unfolds : graph.Unfolds depth names listing) (forest : graph.IsForest)
    (level : ∀ name ∈ names, graph.Lies name depth) :
    ∀ met ∈ listing, graph.Lies met.1 met.2 := by
  induction unfolds with
  | nil => simp
  | cons down across ihDown ihAcross =>
      have top := level _ List.mem_cons_self
      intro met member
      rcases List.mem_cons.1 member with rfl | further
      · exact top
      · rcases List.mem_append.1 further with lower | beside
        · exact ihDown (forest.lies_children top) met lower
        · exact ihAcross (fun name later => level name (List.mem_cons_of_mem _ later)) met beside

/-- What is below a frame is not listed below others of the same depth. -/
theorem not_mem_of_beside (unfolds : graph.Unfolds depth names listing) (forest : graph.IsForest)
    (level : ∀ name ∈ names, graph.Lies name depth) {top frame : String}
    (lies : graph.Lies top depth) (off : top ∉ names)
    (above : Relation.ReflTransGen graph.Hangs top frame) : frame ∉ listing.map Prod.fst := by
  intro listed
  obtain ⟨name, member, aboveToo⟩ := (unfolds.mem_iff frame).1 listed
  obtain rfl := forest.eq_of_above lies (level name member) above aboveToo
  exact off member

/-- No frame is listed twice, as frames of one depth have nothing below them in common. -/
theorem nodup (unfolds : graph.Unfolds depth names listing) (forest : graph.IsForest)
    (level : ∀ name ∈ names, graph.Lies name depth) (distinct : names.Nodup) :
    (listing.map Prod.fst).Nodup := by
  induction unfolds with
  | nil => exact List.nodup_nil
  | @cons depth frame siblings below others down across ihDown ihAcross =>
      obtain ⟨off, distinct⟩ := List.nodup_cons.1 distinct
      have top := level _ List.mem_cons_self
      have beside : ∀ name ∈ siblings, graph.Lies name depth :=
        fun name later => level name (List.mem_cons_of_mem _ later)
      have foreign : ∀ other, Relation.ReflTransGen graph.Hangs frame other →
          other ∉ others.map Prod.fst :=
        fun other above => across.not_mem_of_beside forest beside top off above
      have lower : ∀ other ∈ below.map Prod.fst,
          Relation.ReflTransGen graph.Hangs frame other := by
        intro other listed
        obtain ⟨child, member, above⟩ := (down.mem_iff other).1 listed
        exact .head (mem_children.1 member) above
      have unlisted : frame ∉ below.map Prod.fst := by
        intro listed
        obtain ⟨⟨_, deeper⟩, member, rfl⟩ := List.mem_map.1 listed
        have same := top.unique (down.lies forest (forest.lies_children top) _ member)
        have deep := down.depth_le _ member
        dsimp only at same deep
        omega
      rw [List.map_cons, List.map_append, List.nodup_cons, List.mem_append, not_or,
        List.nodup_append]
      refine ⟨⟨unlisted, foreign frame .refl⟩, ?_, ihAcross beside distinct, ?_⟩
      · exact ihDown (forest.lies_children top) ((forest.ascending_children frame).imp Std.ne_of_lt)
      · rintro other listed _ listedToo rfl
        exact foreign other (lower other listed) listedToo

/-! ## Where it is listed -/

private theorem append_eq_append_cons {left right before after : List (String × Nat)}
    {met : String × Nat} (split : left ++ right = before ++ met :: after) :
    (∃ more, left = before ++ met :: more ∧ after = more ++ right) ∨
      ∃ more, right = more ++ met :: after ∧ before = left ++ more := by
  rcases List.append_eq_append_iff.1 split with ⟨more, rfl, rest⟩ | ⟨more, rfl, rest⟩
  · exact .inr ⟨more, rest, rfl⟩
  · cases more with
    | nil => exact .inr ⟨[], rest.symm, by simp⟩
    | cons head more =>
        rw [List.cons_append, List.cons.injEq] at rest
        obtain ⟨rfl, rfl⟩ := rest
        exact .inl ⟨more, rfl, rfl⟩

variable {before after : List (String × Nat)} {frame : String} {level : Nat}

/-- Behind each frame stands what unfolds from its children. -/
theorem exists_block (unfolds : graph.Unfolds depth names listing)
    (split : listing = before ++ (frame, level) :: after) :
    ∃ below rest, after = below ++ rest ∧
      graph.Unfolds (level + 1) (graph.children frame) below := by
  induction unfolds generalizing before after with
  | nil => simp at split
  | @cons depth top siblings below others down across ihDown ihAcross =>
      cases before with
      | nil =>
          cases split
          exact ⟨below, others, rfl, down⟩
      | cons head before =>
          rw [List.cons_append, List.cons.injEq] at split
          rcases append_eq_append_cons split.2 with ⟨more, lower, rfl⟩ | ⟨more, beside, _⟩
          · obtain ⟨block, rest, rfl, inner⟩ := ihDown lower
            exact ⟨block, rest ++ others, List.append_assoc _ _ _, inner⟩
          · exact ihAcross beside

/-- Each frame is one of the given frames, or it hangs from the last frame before it that lies
higher. -/
theorem top_or_held (unfolds : graph.Unfolds depth names listing)
    (split : listing = before ++ (frame, level) :: after) :
    level = depth ∧ (∀ met ∈ before, level ≤ met.2) ∨
      ∃ lower holder upper between, before = lower ++ (holder, upper) :: between ∧
        graph.Hangs holder frame ∧ upper < level ∧ ∀ met ∈ between, level ≤ met.2 := by
  induction unfolds generalizing before after with
  | nil => simp at split
  | @cons depth top siblings below others down across ihDown ihAcross =>
      cases before with
      | nil =>
          cases split
          exact .inl ⟨rfl, by simp⟩
      | cons head before =>
          rw [List.cons_append, List.cons.injEq] at split
          obtain ⟨rfl, split⟩ := split
          rcases append_eq_append_cons split with ⟨more, inside, rfl⟩ | ⟨more, beside, rfl⟩
          · rcases ihDown inside with ⟨rfl, deeper⟩ | ⟨lower, holder, upper, between, rfl, rest⟩
            · have child : frame ∈ graph.children top := by
                apply down.mem_of_top
                rw [inside]
                simp
              exact .inr ⟨[], top, depth, before, rfl, mem_children.1 child, by omega, deeper⟩
            · exact .inr ⟨(top, depth) :: lower, holder, upper, between, rfl, rest⟩
          · rcases ihAcross beside with ⟨rfl, deeper⟩ | ⟨lower, holder, upper, between, rfl, rest⟩
            · refine .inl ⟨rfl, fun met member => ?_⟩
              rcases List.mem_cons.1 member with rfl | further
              · exact Nat.le_refl _
              · rcases List.mem_append.1 further with lower | earlier
                · exact Nat.le_of_succ_le (down.depth_le met lower)
                · exact deeper met earlier
            · refine .inr ⟨(top, depth) :: below ++ lower, holder, upper, between, ?_, rest⟩
              simp

/-- Of two frames with one parent the smaller name comes first. -/
theorem pairwise_siblings (unfolds : graph.Unfolds depth names listing) (forest : graph.IsForest)
    (level : ∀ name ∈ names, graph.Lies name depth) (ascending : names.Pairwise (· < ·)) :
    listing.Pairwise fun first second =>
      graph.parent? first.1 = graph.parent? second.1 → first.1 < second.1 := by
  induction unfolds with
  | nil => exact .nil
  | @cons depth frame siblings below others down across ihDown ihAcross =>
      obtain ⟨first, ascending⟩ := List.pairwise_cons.1 ascending
      have top := level _ List.mem_cons_self
      have beside : ∀ name ∈ siblings, graph.Lies name depth :=
        fun name later => level name (List.mem_cons_of_mem _ later)
      have lower := down.lies forest (forest.lies_children top)
      rw [List.pairwise_cons, List.pairwise_append]
      refine ⟨?_, ?_, ihAcross beside ascending, ?_⟩
      · intro met member sameParent
        have same := top.of_sibling sameParent
        rcases List.mem_append.1 member with inside | outside
        · have deep := down.depth_le met inside
          have equal := same.unique (lower met inside)
          omega
        · apply first
          apply across.mem_of_top
          rw [same.unique (across.lies forest beside met outside)]
          exact outside
      · exact ihDown (forest.lies_children top) (forest.ascending_children frame)
      · intro met inside other outside sameParent
        obtain ⟨child, member, above⟩ := (down.mem_iff met.1).1 (List.mem_map_of_mem inside)
        obtain ⟨parent, aboveParent, hangs⟩ :=
          Relation.TransGen.tail'_iff.1 (.head' (mem_children.1 member) above)
        rw [forest.parent?_eq_some_iff.2 hangs] at sameParent
        have hangsToo := forest.parent?_eq_some_iff.1 sameParent.symm
        have off : frame ∉ siblings := fun later => Std.lt_irrefl (first frame later)
        exact absurd (List.mem_map_of_mem outside)
          (across.not_mem_of_beside forest beside top off (aboveParent.tail hangsToo))

end Unfolds

namespace IsForest

variable (forest : graph.IsForest)

include forest

/-- Frames at a depth have as many depths below them as are left of the number of frames. -/
private theorem exists_unfolds (room : Nat) {depth : Nat} (names : List String)
    (level : ∀ name ∈ names, name ∈ graph.frames ∧ graph.Lies name depth)
    (enough : graph.frames.length ≤ depth + room) :
    ∃ listing, graph.Unfolds depth names listing := by
  induction room generalizing depth names with
  | zero =>
      cases names with
      | nil => exact ⟨[], .nil⟩
      | cons name rest =>
          obtain ⟨known, lies⟩ := level name List.mem_cons_self
          have bound := lies.depth_lt known
          omega
  | succ room ih =>
      induction names with
      | nil => exact ⟨[], .nil⟩
      | cons name rest ihRest =>
          have lower : ∀ child ∈ graph.children name,
              child ∈ graph.frames ∧ graph.Lies child (depth + 1) := by
            intro child member
            have hangs := mem_children.1 member
            exact ⟨(graph.closed _ hangs).2,
              forest.lies_children (level name List.mem_cons_self).2 child member⟩
          obtain ⟨below, down⟩ := ih _ lower (by omega)
          obtain ⟨others, across⟩ :=
            ihRest fun other later => level other (List.mem_cons_of_mem _ later)
          exact ⟨_, .cons down across⟩

/-- A walk from frames of one depth unfolds them. -/
theorem unfolds_walk {depth : Nat} {names : List String}
    (level : ∀ name ∈ names, name ∈ graph.frames ∧ graph.Lies name depth) (distinct : names.Nodup) :
    graph.Unfolds depth names (graph.walk (names.map (·, depth)) []) := by
  obtain ⟨listing, unfolds⟩ := forest.exists_unfolds graph.frames.length names level (by omega)
  have once := unfolds.nodup forest (fun name member => (level name member).2) distinct
  have fresh : ∀ met ∈ listing, met.1 ∉ ([] : List String) := fun _ _ => List.not_mem_nil
  have walked := unfolds.walk_eq once fresh []
  have done : ∀ visited, graph.walk [] visited = [] := fun visited => by rw [walk]
  rw [List.append_nil, done, List.append_nil] at walked
  rw [walked]
  exact unfolds

end IsForest

end FrameGraph

end FrameForest
