import FrameForest.Frame.Ancestry
import FrameForest.Proofs.Frame.Hierarchy

/-!
# Climbing from parent to parent

`Climbs` says what a lineage is: the frames from a given one up to a root, each
hanging from the next.  A graph may have frames with several parents, cycles and
loops; the newest link to a frame then counts.  A chain that ends at a root
repeats no frame, so that it has no more frames than there are, and the bound of
the climb cuts no lineage off.  A climb that is cut off has met some frame twice,
and stands on a cycle when it is.

`Ascent` is the climb as a loop over the frames listed so far.
-/

namespace FrameForest

namespace FrameGraph

variable {graph : FrameGraph}

/-- The chain goes from `frame` from parent to parent up to a root. -/
inductive Climbs (graph : FrameGraph) : String → List String → Prop
  | root {frame : String} (top : graph.parent? frame = none) : Climbs graph frame [frame]
  | step {frame parent : String} {chain : List String} (hangs : graph.parent? frame = some parent)
      (above : Climbs graph parent chain) : Climbs graph frame (frame :: chain)

/-- Climbing from `start`, from parent to parent, one meets these frames below `stop`. -/
inductive Ascends (graph : FrameGraph) (stop : String) : String → List String → Prop
  | arrived : Ascends graph stop stop []
  | step {frame parent : String} {frames : List String} (hangs : graph.parent? frame = some parent)
      (further : Ascends graph stop parent frames) : Ascends graph stop frame (frame :: frames)

/-- The relation that a climb follows. -/
def HasParent (graph : FrameGraph) (child parent : String) : Prop :=
  graph.parent? child = some parent

theorem below_of_rises {lower upper : String}
    (rises : Relation.TransGen graph.HasParent lower upper) :
    Relation.TransGen graph.Hangs upper lower :=
  Relation.TransGen.mono (fun _ _ => hangs_of_parent?) _ _ rises.swap

/-! ## Chains up to a root -/

namespace Climbs

variable {frame : String} {chain : List String}

theorem exists_cons (climbs : graph.Climbs frame chain) : ∃ rest, chain = frame :: rest := by
  cases climbs with
  | root => exact ⟨[], rfl⟩
  | step => exact ⟨_, rfl⟩

/-- Parents alone decide what is climbed. -/
theorem congr {other : FrameGraph} (same : ∀ child, graph.parent? child = other.parent? child)
    (climbs : graph.Climbs frame chain) : other.Climbs frame chain := by
  induction climbs with
  | root top => exact .root ((same _).symm.trans top)
  | step hangs above ih => exact .step ((same _).symm.trans hangs) ih

theorem unique {first second : List String} (left : graph.Climbs frame first)
    (right : graph.Climbs frame second) : first = second := by
  induction left generalizing second with
  | root top =>
      cases right with
      | root => rfl
      | step hangs above =>
          rw [top] at hangs
          cases hangs
  | step hangs above ih =>
      cases right with
      | root top =>
          rw [top] at hangs
          cases hangs
      | step hangs' above' =>
          rw [hangs] at hangs'
          cases hangs'
          rw [ih above']

/-- A lineage climbs to each of its frames, and from there on it is the lineage of that frame. -/
theorem split {stop : String} {lower upper : List String} (climbs : graph.Climbs frame chain)
    (split : chain = lower ++ stop :: upper) :
    graph.Ascends stop frame lower ∧ graph.Climbs stop (stop :: upper) := by
  induction climbs generalizing lower with
  | root highest =>
      cases lower with
      | nil =>
          cases split
          exact ⟨.arrived, .root highest⟩
      | cons head lower => simp at split
  | step hangs above ih =>
      cases lower with
      | nil =>
          cases split
          exact ⟨.arrived, .step hangs above⟩
      | cons head lower =>
          rw [List.cons_append, List.cons.injEq] at split
          obtain ⟨rfl, rest⟩ := split
          exact ⟨.step hangs (ih rest).1, (ih rest).2⟩

/-- From a frame met again the lineage would have to go on in two ways. -/
theorem nodup (climbs : graph.Climbs frame chain) : chain.Nodup := by
  induction climbs with
  | root => simp
  | @step frame parent chain hangs above ih =>
      refine List.nodup_cons.2 ⟨fun again => ?_, ih⟩
      obtain ⟨lower, upper, split⟩ := List.append_of_mem again
      have same := (Climbs.step hangs above).unique (above.split split).2
      rw [List.cons.injEq, split] at same
      have longer := congrArg List.length same.2
      simp only [List.length_append, List.length_cons] at longer
      omega

theorem subset_frames (climbs : graph.Climbs frame chain) (known : frame ∈ graph.frames) :
    chain ⊆ graph.frames := by
  induction climbs with
  | root => simpa using known
  | step hangs above ih => exact List.cons_subset.2 ⟨known, ih (mem_frames_of_parent? hangs).1⟩

theorem length_le (climbs : graph.Climbs frame chain) (known : frame ∈ graph.frames) :
    chain.length ≤ graph.frames.length :=
  climbs.nodup.length_le_of_subset (climbs.subset_frames known)

end Climbs

/-! ## Frames met again -/

/-- Every frame has one parent at most, so that a climb never leaves a cycle. -/
theorem HasParent.round {child parent : String} (has : graph.HasParent child parent)
    (round : Relation.TransGen graph.HasParent child child) :
    Relation.TransGen graph.HasParent parent parent := by
  obtain ⟨other, hasOther, back⟩ := Relation.TransGen.head'_iff.1 round
  have same : other = parent := Option.some.inj (hasOther.symm.trans has)
  rw [same] at back
  exact .tail' back has

namespace Ascends

variable {start stop : String} {frames : List String}

theorem isSome_parent? (ascends : graph.Ascends stop start frames) :
    ∀ frame ∈ frames, (graph.parent? frame).isSome := by
  induction ascends with
  | arrived => simp
  | step hangs further ih =>
      intro frame present
      rcases List.mem_cons.1 present with rfl | higher
      · simp [hangs]
      · exact ih frame higher

theorem path_to_mem (ascends : graph.Ascends stop start frames) :
    ∀ frame ∈ frames ++ [stop], Relation.ReflTransGen graph.HasParent start frame := by
  induction ascends with
  | arrived =>
      intro frame present
      rw [List.nil_append, List.mem_singleton] at present
      rw [present]
  | step hangs further ih =>
      intro frame present
      rcases List.mem_cons.1 present with rfl | higher
      · exact .refl
      · exact .head hangs (ih frame higher)

theorem round (ascends : graph.Ascends stop start frames)
    (round : Relation.TransGen graph.HasParent start start) :
    Relation.TransGen graph.HasParent stop stop := by
  induction ascends with
  | arrived => exact round
  | step hangs further ih => exact ih (HasParent.round hangs round)

/-- When some frame is met twice, the last lies on a cycle. -/
theorem round_of_repeated (ascends : graph.Ascends stop start frames)
    (repeated : ¬(frames ++ [stop]).Nodup) : Relation.TransGen graph.HasParent stop stop := by
  induction ascends with
  | arrived => simp at repeated
  | @step frame parent frames hangs further ih =>
      by_cases again : frame ∈ frames ++ [stop]
      · -- the climb comes back to `frame`, so it goes round from there on
        have back : Relation.TransGen graph.HasParent frame frame :=
          .head' hangs (further.path_to_mem frame again)
        exact further.round (HasParent.round hangs back)
      · exact ih fun distinct => repeated (List.nodup_cons.2 ⟨again, distinct⟩)

end Ascends

/-! ## What a climb comes to -/

section Steps

variable {steps : Nat} {frame parent : String}

theorem climb_root (top : graph.parent? frame = none) : graph.climb steps frame = .ok [frame] := by
  unfold climb
  simp only [top]

theorem climb_zero (hangs : graph.parent? frame = some parent) :
    graph.climb 0 frame = .error (.cycle parent frame) := by
  unfold climb
  simp only [hangs]

theorem climb_succ (hangs : graph.parent? frame = some parent) :
    graph.climb (steps + 1) frame = (graph.climb steps parent).map (frame :: ·) := by
  conv_lhs => unfold climb
  simp only [hangs]

end Steps

/-- Everything that a climb of so many steps can come to. -/
inductive Attempts (graph : FrameGraph) (steps : Nat) (frame : String) :
    Except Failure (List String) → Prop
  | found {chain : List String} (climbs : graph.Climbs frame chain)
      (short : chain.length ≤ steps + 1) : Attempts graph steps frame (.ok chain)
  | stopped {child parent : String} {passed : List String}
      (ascends : graph.Ascends child frame passed) (length : passed.length = steps)
      (further : graph.HasParent child parent) :
      Attempts graph steps frame (.error (.cycle parent child))

theorem attempts_climb (graph : FrameGraph) (steps : Nat) (frame : String) :
    graph.Attempts steps frame (graph.climb steps frame) := by
  induction steps generalizing frame with
  | zero =>
      cases held : graph.parent? frame with
      | none =>
          rw [climb_root held]
          exact .found (.root held) (Nat.le_refl _)
      | some parent =>
          rw [climb_zero held]
          exact .stopped .arrived rfl held
  | succ steps ih =>
      cases held : graph.parent? frame with
      | none =>
          rw [climb_root held]
          exact .found (.root held) (by simp)
      | some parent =>
          have above := ih parent
          rw [climb_succ held]
          generalize graph.climb steps parent = answer at above ⊢
          cases above with
          | found climbs short => exact .found (.step held climbs) (Nat.succ_le_succ short)
          | stopped ascends length further =>
              exact .stopped (.step held ascends) (congrArg Nat.succ length) further

theorem climbs_of_climb {steps : Nat} {frame : String} {chain : List String}
    (climbed : graph.climb steps frame = .ok chain) : graph.Climbs frame chain := by
  have attempts := graph.attempts_climb steps frame
  rw [climbed] at attempts
  cases attempts with
  | found climbs short => exact climbs

/-- A climb that is cut off has met more frames than there are, so that one of them came twice. -/
theorem round_of_lineage {frame : String} {failure : Failure}
    (failed : graph.lineage frame = .error failure) :
    ∃ child parent, failure = .cycle parent child ∧ graph.HasParent child parent ∧
      Relation.TransGen graph.HasParent child child := by
  have attempts := graph.attempts_climb graph.frames.length frame
  rw [← lineage, failed] at attempts
  cases attempts with
  | @stopped child parent passed ascends length further =>
      refine ⟨child, parent, rfl, further, ascends.round_of_repeated fun distinct => ?_⟩
      -- every frame met has a parent and is registered, but they are one too many
      have known : passed ++ [child] ⊆ graph.frames := by
        intro member present
        have hangs : (graph.parent? member).isSome := by
          rcases List.mem_append.1 present with earlier | last
          · exact ascends.isSome_parent? member earlier
          · rw [List.mem_singleton.1 last, further]
            rfl
        obtain ⟨above, held⟩ := Option.isSome_iff_exists.1 hangs
        exact (mem_frames_of_parent? held).2
      have bound := distinct.length_le_of_subset known
      simp only [List.length_append, List.length_singleton] at bound
      omega

/-- Steps enough for a chain find it. -/
theorem Climbs.climb_eq {steps : Nat} {frame : String} {chain : List String}
    (climbs : graph.Climbs frame chain) (short : chain.length ≤ steps + 1) :
    graph.climb steps frame = .ok chain := by
  induction climbs generalizing steps with
  | root top => exact climb_root top
  | step hangs above ih =>
      obtain ⟨rest, rfl⟩ := above.exists_cons
      cases steps with
      | zero => simp at short
      | succ steps =>
          rw [climb_succ hangs, ih (Nat.le_of_succ_le_succ short)]
          rfl

theorem lineage_eq_ok_iff {frame : String} {chain : List String} (known : frame ∈ graph.frames) :
    graph.lineage frame = .ok chain ↔ graph.Climbs frame chain := by
  constructor
  · exact climbs_of_climb
  · intro climbs
    exact climbs.climb_eq (Nat.le_succ_of_le (climbs.length_le known))

/-! ## The climb as a loop -/

/-- A climb in progress. -/
structure Ascent where
  passed : List String
  reached : String

/-- All frames listed so far, the start first. -/
def Ascent.listed (ascent : Ascent) : List String :=
  ascent.passed ++ [ascent.reached]

theorem Ascent.length_listed (ascent : Ascent) :
    ascent.listed.length = ascent.passed.length + 1 :=
  List.length_append

/-- One turn of the loop: a further frame is listed, or there is an answer. -/
def turn (graph : FrameGraph) (ascent : Ascent) : Ascent ⊕ Except Failure (List String) :=
  match graph.parent? ascent.reached with
  | none => .inr (.ok ascent.listed)
  | some parent =>
    if graph.frames.length < ascent.listed.length then .inr (.error (.cycle parent ascent.reached))
    else .inl ⟨ascent.listed, parent⟩

/-- From one climb in progress to the next. -/
def Turns (graph : FrameGraph) (ascent next : Ascent) : Prop :=
  graph.turn ascent = .inl next

theorem turn_root {ascent : Ascent} (top : graph.parent? ascent.reached = none) (steps : Nat) :
    graph.turn ascent = .inr ((graph.climb steps ascent.reached).map (ascent.passed ++ ·)) := by
  simp [turn, top, climb_root top, Except.map, Ascent.listed]

/-- Each further frame costs the climb one of its steps. -/
theorem exists_last_turn (graph : FrameGraph) (steps : Nat) (ascent : Ascent)
    (room : ascent.listed.length + steps = graph.frames.length + 1) :
    ∃ last, Relation.ReflTransGen graph.Turns ascent last ∧
      graph.turn last = .inr ((graph.climb steps ascent.reached).map (ascent.passed ++ ·)) ∧
      last.listed.length ≤ graph.frames.length + 1 := by
  induction steps generalizing ascent with
  | zero =>
      refine ⟨ascent, .refl, ?_, Nat.le_of_eq room⟩
      have full : graph.frames.length < ascent.listed.length := by omega
      cases held : graph.parent? ascent.reached with
      | none => exact turn_root held 0
      | some parent => simp [turn, held, climb_zero held, Except.map, full]
  | succ steps ih =>
      cases held : graph.parent? ascent.reached with
      | none => exact ⟨ascent, .refl, turn_root held (steps + 1), by omega⟩
      | some parent =>
          have space : ¬graph.frames.length < ascent.listed.length := by omega
          have turns : graph.Turns ascent ⟨ascent.listed, parent⟩ := by
            simp [Turns, turn, held, space]
          have roomNext : (Ascent.mk ascent.listed parent).listed.length + steps =
              graph.frames.length + 1 := by
            simp only [Ascent.length_listed] at room ⊢
            omega
          obtain ⟨last, path, told, bound⟩ := ih ⟨ascent.listed, parent⟩ roomNext
          refine ⟨last, .head turns path, ?_, bound⟩
          rw [told, climb_succ held]
          cases graph.climb steps parent <;> simp [Except.map, Ascent.listed]

/-! ## Climbs on any graph -/

/-- From the frame from parent to parent up to a root, without repetition. -/
structure IsLineage (graph : FrameGraph) (frame : String) (chain : List String) : Prop where
  starts : chain.head? = some frame
  rises : chain.IsChain graph.HasParent
  ends : ∃ root, chain.getLast? = some root ∧ graph.parent? root = none
  distinct : chain.Nodup
  short : chain.length ≤ graph.frames.length

/-- How the climb from a frame ends. -/
structure EndsClimb (graph : FrameGraph) (frame : String) : Prop where
  /-- The loop comes to the lineage, with at most one frame more listed than there are. -/
  halts : ∃ last, Relation.ReflTransGen graph.Turns ⟨[], frame⟩ last ∧
    graph.turn last = .inr (graph.lineage frame) ∧
    last.listed.length ≤ graph.frames.length + 1
  found_iff : (∃ chain, graph.lineage frame = .ok chain) ↔
    ∃ root, Relation.ReflTransGen graph.HasParent frame root ∧ graph.parent? root = none
  found : ∀ chain, graph.lineage frame = .ok chain → graph.IsLineage frame chain
  /-- The link that is blamed closes a cycle. -/
  refused : ∀ failure, graph.lineage frame = .error failure →
    ∃ child parent, failure = .cycle parent child ∧ graph.HasParent child parent ∧
      Relation.TransGen graph.HasParent child child

theorem Climbs.isChain {frame : String} {chain : List String} (climbs : graph.Climbs frame chain) :
    chain.IsChain graph.HasParent := by
  induction climbs with
  | root => exact .singleton _
  | step hangs above ih =>
      obtain ⟨rest, rfl⟩ := above.exists_cons
      exact .cons_cons hangs ih

theorem Climbs.exists_root {frame : String} {chain : List String}
    (climbs : graph.Climbs frame chain) :
    ∃ root, chain.getLast? = some root ∧ Relation.ReflTransGen graph.HasParent frame root ∧
      graph.parent? root = none := by
  induction climbs with
  | root top => exact ⟨_, rfl, .refl, top⟩
  | step hangs above ih =>
      obtain ⟨rest, rfl⟩ := above.exists_cons
      obtain ⟨root, last, path, top⟩ := ih
      exact ⟨root, by rwa [List.getLast?_cons_cons], .head hangs path, top⟩

theorem exists_climbs {frame root : String}
    (path : Relation.ReflTransGen graph.HasParent frame root) (top : graph.parent? root = none) :
    ∃ chain, graph.Climbs frame chain := by
  induction path using Relation.ReflTransGen.head_induction_on with
  | refl => exact ⟨[root], .root top⟩
  | head hangs path ih =>
      obtain ⟨chain, above⟩ := ih
      exact ⟨_, .step hangs above⟩

theorem Climbs.isLineage {frame : String} {chain : List String}
    (climbs : graph.Climbs frame chain) (known : frame ∈ graph.frames) :
    graph.IsLineage frame chain where
  starts := by
    obtain ⟨rest, rfl⟩ := climbs.exists_cons
    rfl
  rises := climbs.isChain
  ends := by
    obtain ⟨root, last, _, top⟩ := climbs.exists_root
    exact ⟨root, last, top⟩
  distinct := climbs.nodup
  short := climbs.length_le known

/-- Whatever links there are. -/
theorem endsClimb_of_mem {frame : String} (known : frame ∈ graph.frames) :
    graph.EndsClimb frame where
  halts := by
    obtain ⟨last, path, told, bound⟩ :=
      graph.exists_last_turn graph.frames.length ⟨[], frame⟩ (by simp [Ascent.listed, Nat.add_comm])
    refine ⟨last, path, ?_, bound⟩
    rw [told, lineage]
    cases graph.climb graph.frames.length frame <;> rfl
  found_iff := by
    constructor
    · rintro ⟨chain, climbed⟩
      obtain ⟨root, _, path, top⟩ := (climbs_of_climb climbed).exists_root
      exact ⟨root, path, top⟩
    · rintro ⟨root, path, top⟩
      obtain ⟨chain, climbs⟩ := exists_climbs path top
      exact ⟨chain, (lineage_eq_ok_iff known).2 climbs⟩
  found _ climbed := (climbs_of_climb climbed).isLineage known
  refused _ := round_of_lineage

/-- `odom` is put under two frames, the newer one of which lies below it, and `lamp` under
itself. -/
def tangled : FrameGraph where
  frames := ["map", "odom", "robot", "lidar", "lamp"]
  links := [⟨"lamp", "lamp"⟩, ⟨"robot", "odom"⟩, ⟨"robot", "lidar"⟩, ⟨"odom", "robot"⟩,
    ⟨"map", "odom"⟩]
  distinct := by decide
  closed := by decide

/-- The climb from `lidar` goes round between `robot` and `odom`. -/
theorem endsClimb_of_mem_tangled :
    "lidar" ∈ tangled.frames ∧ tangled.EndsClimb "lidar" ∧
      tangled.lineage "lidar" = .error (.cycle "odom" "robot") := by
  have known : "lidar" ∈ tangled.frames := by decide
  exact ⟨known, endsClimb_of_mem known, by rfl⟩

/-- The longest of all chains, over every frame that there is. -/
example :
    let line : FrameGraph :=
      ⟨["map", "odom", "robot"], [⟨"odom", "robot"⟩, ⟨"map", "odom"⟩], by decide, by decide⟩
    line.lineage "robot" = .ok ["robot", "odom", "map"] := by
  rfl

end FrameGraph

end FrameForest
