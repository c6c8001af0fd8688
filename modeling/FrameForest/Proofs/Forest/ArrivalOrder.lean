import FrameForest.Proofs.Forest.Provenance

/-!
# The order of arrival

Timed samples may arrive late and out of turn.  When each child names one parent
throughout, no frame comes to lie above itself and no stamp of a child occurs
twice, none of them is refused, and in whatever order they come, the forests that
they leave look alike.
-/

namespace FrameForest

variable {α : Type}

/-- Some sample puts `lower` under `upper`. -/
def Named (samples : List (StampedMotion α)) (upper lower : String) : Prop :=
  ∃ stamped ∈ samples, stamped.parent = upper ∧ stamped.child = lower

/-- Every frame of the graph hangs where some sample puts it. -/
def Within (samples : List (StampedMotion α)) (graph : FrameGraph) : Prop :=
  ∀ upper lower, graph.parent? lower = some upper → Named samples upper lower

/-- Samples of frames that form a forest. -/
structure Compatible (samples : List (StampedMotion α)) : Prop where
  single : ∀ first ∈ samples, ∀ second ∈ samples, first.child = second.child →
    first.parent = second.parent
  acyclic : ∀ frame, ¬Relation.TransGen (Named samples) frame frame
  distinct : (samples.map fun stamped => (stamped.child, stamped.stamp)).Nodup

/-- Where some rank grows from parents to children there is no cycle. -/
theorem acyclic_of_rank {samples : List (StampedMotion α)} (rank : String → Nat)
    (grows : ∀ stamped ∈ samples, rank stamped.parent < rank stamped.child) (frame : String) :
    ¬Relation.TransGen (Named samples) frame frame := by
  have below : ∀ upper lower, Named samples upper lower → rank upper < rank lower := by
    rintro upper lower ⟨stamped, member, rfl, rfl⟩
    exact grows stamped member
  intro cycle
  have grown : Relation.TransGen (· < ·) (rank frame) (rank frame) := cycle.lift rank below
  rw [Relation.transGen_eq_self] at grown
  exact Nat.lt_irrefl _ grown

/-- The calls that record timed samples in order. -/
def ingestion (samples : List (StampedMotion α)) : List (Call α) :=
  samples.map fun stamped => .record (.timed stamped)

namespace Arrival

theorem foldl_heed_ingestion (child : String) (samples : List (StampedMotion α))
    {answers : List (Answer α)} (told : answers.length = samples.length)
    (accepted : ∀ answer ∈ answers, ∃ recording, answer = .recorded (.ok recording))
    (held : List (Arrival α)) :
    ((ingestion samples).zip answers).foldl (heed child) held =
      held ++ (samples.filter fun stamped => stamped.child = child).map timed := by
  induction samples generalizing answers held with
  | nil => simp [ingestion]
  | cons stamped rest ih =>
      cases answers with
      | nil => cases told
      | cons answer answers =>
          obtain ⟨recording, rfl⟩ := accepted answer List.mem_cons_self
          have further := ih (Nat.succ.inj told)
            (fun other member => accepted other (List.mem_cons_of_mem _ member))
          show ((ingestion rest).zip answers).foldl (heed child)
            (if stamped.child = child then held ++ [timed stamped] else held) = _
          rw [further]
          by_cases here : stamped.child = child
          · simp [here]
          · simp [here]

theorem build_timed (settings : Settings) (child : String) (first : StampedMotion α)
    (rest : List (StampedMotion α)) :
    build settings child ((first :: rest).map timed) =
      some ⟨first.parent, child,
        .timed ((History.empty settings.samplesPerEdge.toNat settings.storageTime).insertAll
          (((first :: rest).map timed).map sample))⟩ := by
  rw [List.map_cons, build, freshTrack, Track.insertAll_timed]
  rfl

/-- Samples of one child and one parent build the same edge in every order. -/
theorem build_timed_of_perm (settings : Settings) (child : String)
    {left right : List (StampedMotion α)} (perm : left.Perm right)
    (single : ∀ first ∈ left, ∀ second ∈ left, first.parent = second.parent)
    (distinct : (left.map StampedMotion.stamp).Nodup) :
    build settings child (left.map timed) = build settings child (right.map timed) := by
  rw [← forgetHint_build settings child (left.map timed),
    ← forgetHint_build settings child (right.map timed)]
  have stamps : ((left.map timed).map sample).map Sample.stamp = left.map StampedMotion.stamp := by
    simp [sample, Function.comp_def]
  have histories := History.forgetHint_insertAll_of_perm settings.samplesPerEdge.toNat
    settings.storageTime ((perm.map timed).map sample) (stamps ▸ distinct)
  cases left with
  | nil => rw [perm.nil_eq]
  | cons first leftRest =>
      cases right with
      | nil => exact absurd perm.eq_nil (List.cons_ne_nil _ _)
      | cons second rightRest =>
          have parents : first.parent = second.parent :=
            single first List.mem_cons_self second (perm.mem_iff.2 List.mem_cons_self)
          rw [build_timed, build_timed, parents]
          exact congrArg (fun history => some (Edge.mk second.parent child (.timed history)))
            histories

end Arrival

namespace Compatible

variable {samples : List (StampedMotion α)} (compatible : Compatible samples)

include compatible

theorem perm {other : List (StampedMotion α)} (perm : samples.Perm other) : Compatible other where
  single := fun first firstMember second secondMember =>
    compatible.single first (perm.mem_iff.2 firstMember) second (perm.mem_iff.2 secondMember)
  acyclic := by
    intro frame cycle
    refine compatible.acyclic frame (Relation.TransGen.mono ?_ _ _ cycle)
    rintro upper lower ⟨stamped, member, names⟩
    exact ⟨stamped, perm.mem_iff.2 member, names⟩
  distinct := (perm.map _).nodup_iff.1 compatible.distinct

/-- As long as only these samples have been recorded, each of them is accepted. -/
theorem accepts {graph : FrameGraph} (forest : graph.IsForest)
    (within : Within samples graph)
    {stamped : StampedMotion α} (member : stamped ∈ samples) (policy : ReparentPolicy) :
    ∃ change next, graph.setParent stamped.parent stamped.child policy = .ok (change, next) := by
  have named : Named samples stamped.parent stamped.child := ⟨stamped, member, rfl, rfl⟩
  have settles := graph.settles_setParent stamped.parent stamped.child policy
  cases asked : graph.setParent stamped.parent stamped.child policy with
  | ok accepted => exact ⟨accepted.1, accepted.2, rfl⟩
  | error failure =>
      rw [asked] at settles
      cases settles with
      | cycle below =>
          -- every link has a sample that names it, so the way down is one of names
          have links : graph.Hangs ≤ Named samples :=
            fun upper lower hangs => within upper lower (forest.parent?_eq_some_iff.2 hangs)
          have down := Relation.ReflTransGen.mono links _ _ below
          exact absurd (Relation.TransGen.head' named down) (compatible.acyclic stamped.parent)
      | conflict held moves free =>
          obtain ⟨other, otherMember, names, ends⟩ := within _ stamped.child held
          have same := compatible.single other otherMember stamped member ends
          exact absurd (names.symm.trans same) moves

variable [Scalar α]

theorem perform_ingested {forest : Forest α} (sound : forest.Sound)
    (within : Within samples forest.graph) {stamped : StampedMotion α}
    (member : stamped ∈ samples) :
    ∃ recording next,
      (Call.record (.timed stamped)).perform forest = (.recorded (.ok recording), next) ∧
        next.Sound ∧ Within samples next.graph ∧
        ∀ frame, frame ∈ next.graph.frames ↔
          frame = stamped.child ∨ frame = stamped.parent ∨ frame ∈ forest.graph.frames := by
  obtain ⟨change, next, told⟩ := compatible.accepts sound.consistent.isForest within member
    forest.settings.reparenting
  have accepted := FrameGraph.accepts_of_setParent told
  have performed := Forest.perform_record_of_ok (.timed stamped) told
  have nextSound := sound.perform (.record (.timed stamped))
  rw [performed] at nextSound
  refine ⟨_, _, performed, nextSound, ?_, fun frame => accepted.mem_frames⟩
  intro upper lower hangs
  have moved := (accepted.parent?_eq lower).symm.trans hangs
  split at moved
  case isTrue same => exact ⟨stamped, member, Option.some.inj moved, same.symm⟩
  case isFalse => exact within upper lower moved

/-- A run of the samples is never refused and registers the frames that they name. -/
theorem run_ingestion {forest : Forest α} (sound : forest.Sound)
    (within : Within samples forest.graph) {rest : List (StampedMotion α)}
    (part : ∀ stamped ∈ rest, stamped ∈ samples) :
    (∀ answer ∈ (forest.run (ingestion rest)).1, ∃ recording, answer = .recorded (.ok recording)) ∧
      ∀ frame, frame ∈ (forest.run (ingestion rest)).2.graph.frames ↔
        frame ∈ forest.graph.frames ∨
          ∃ stamped ∈ rest, frame = stamped.child ∨ frame = stamped.parent := by
  induction rest generalizing forest with
  | nil => simp [ingestion, Forest.run]
  | cons stamped rest ih =>
      obtain ⟨recording, next, performed, nextSound, nextWithin, known⟩ :=
        compatible.perform_ingested sound within (part stamped List.mem_cons_self)
      obtain ⟨answers, frames⟩ := ih nextSound nextWithin
        fun other present => part other (List.mem_cons_of_mem _ present)
      have split : forest.run (ingestion (stamped :: rest)) =
          (.recorded (.ok recording) :: (next.run (ingestion rest)).1,
            (next.run (ingestion rest)).2) := by
        rw [ingestion, List.map_cons, Forest.run, performed]
        rfl
      rw [split]
      constructor
      · intro answer listed
        rcases List.mem_cons.1 listed with rfl | later
        · exact ⟨recording, rfl⟩
        · exact answers answer later
      · intro frame
        rw [frames, known, List.exists_mem_cons_iff]
        constructor
        · rintro ((here | here | old) | later)
          · exact .inr (.inl (.inl here))
          · exact .inr (.inl (.inr here))
          · exact .inl old
          · exact .inr (.inr later)
        · rintro (old | (here | here) | later)
          · exact .inl (.inr (.inr old))
          · exact .inl (.inl here)
          · exact .inl (.inr (.inl here))
          · exact .inr later

theorem run_ingestion_empty (settings : Settings) :
    (∀ answer ∈ ((Forest.empty settings).run (ingestion samples)).1,
        ∃ recording, answer = .recorded (.ok recording)) ∧
      ∀ frame, frame ∈ (Forest.after settings (ingestion samples)).graph.frames ↔
        ∃ stamped ∈ samples, frame = stamped.child ∨ frame = stamped.parent := by
  have within : Within samples (Forest.empty (α := α) settings).graph := by
    intro upper lower hangs
    cases hangs
  obtain ⟨answers, frames⟩ :=
    compatible.run_ingestion (.empty settings) within fun _ member => member
  refine ⟨answers, fun frame => (frames frame).trans ?_⟩
  exact or_iff_right List.not_mem_nil

/-- The edge of a child is built from its samples in the order of their arrival. -/
theorem find?_ingestion (settings : Settings) (child : String) :
    ((Forest.after settings (ingestion samples)).edges.find? child).map Edge.forgetHint =
      Arrival.build settings child
        ((samples.filter fun stamped => stamped.child = child).map .timed) := by
  have traced := (Forest.Traced.empty settings child).run (.empty settings) (ingestion samples)
  have told : ((Forest.empty settings).run (ingestion samples)).1.length = samples.length := by
    rw [Forest.length_fst_run, ingestion, List.length_map]
  rw [Arrival.foldl_heed_ingestion child samples told (compatible.run_ingestion_empty settings).1,
    List.nil_append] at traced
  have row : Arrival.lastRow ((samples.filter fun stamped => stamped.child = child).map .timed) =
      (samples.filter fun stamped => stamped.child = child).map .timed := by
    apply Arrival.lastRow_eq_self
    intro first firstMember second secondMember
    obtain ⟨former, formerMember, rfl⟩ := List.mem_map.1 firstMember
    obtain ⟨latter, latterMember, rfl⟩ := List.mem_map.1 secondMember
    rw [List.mem_filter, decide_eq_true_eq] at formerMember latterMember
    have parents := compatible.single former formerMember.1 latter latterMember.1
      (formerMember.2.trans latterMember.2.symm)
    exact decide_eq_true ⟨parents, rfl⟩
  exact row ▸ traced.edge

omit [Scalar α] in
theorem distinct_stamps (child : String) :
    ((samples.filter fun stamped => stamped.child = child).map StampedMotion.stamp).Nodup := by
  have pairs : ((samples.filter fun stamped => stamped.child = child).map
      fun stamped => (stamped.child, stamped.stamp)).Nodup :=
    compatible.distinct.sublist (List.filter_sublist.map _)
  have paired : ((samples.filter fun stamped => stamped.child = child).map
      fun stamped => (stamped.child, stamped.stamp)) =
        ((samples.filter fun stamped => stamped.child = child).map StampedMotion.stamp).map
          (child, ·) := by
    rw [List.map_map]
    apply List.map_congr_left
    intro stamped member
    rw [List.mem_filter, decide_eq_true_eq] at member
    exact congrArg (·, stamped.stamp) member.2
  exact (paired ▸ pairs).of_map

/-- In another order the samples leave a forest that looks alike. -/
theorem alike_of_perm (settings : Settings) {other : List (StampedMotion α)}
    (perm : samples.Perm other) :
    (Forest.after settings (ingestion samples)).Alike
      (Forest.after settings (ingestion other)) := by
  have otherCompatible := compatible.perm perm
  have edges : (Forest.after settings (ingestion samples)).edges.Agree
      (Forest.after settings (ingestion other)).edges := by
    intro child
    rw [compatible.find?_ingestion, otherCompatible.find?_ingestion]
    refine Arrival.build_timed_of_perm settings child (perm.filter _) ?_
      (compatible.distinct_stamps child)
    intro first firstMember second secondMember
    rw [List.mem_filter, decide_eq_true_eq] at firstMember secondMember
    exact compatible.single first firstMember.1 second secondMember.1
      (firstMember.2.trans secondMember.2.symm)
  have consistent := (Forest.sound_after settings (ingestion samples)).consistent
  have otherConsistent := (Forest.sound_after settings (ingestion other)).consistent
  refine ⟨?same, ⟨?frames, ?parents⟩, edges⟩
  case same =>
    exact (Forest.bare_settings_run (.empty settings) (ingestion samples)).trans
      (Forest.bare_settings_run (.empty settings) (ingestion other)).symm
  case frames =>
    apply (List.perm_ext_iff_of_nodup (FrameGraph.distinct _) (FrameGraph.distinct _)).2
    intro frame
    rw [(compatible.run_ingestion_empty settings).2,
      (otherCompatible.run_ingestion_empty settings).2]
    simp only [perm.mem_iff]
  case parents =>
    intro child
    rw [← consistent.parents child, ← otherConsistent.parents child]
    have same := congrArg (Option.map Edge.parent) (edges child)
    rw [Option.map_map, Option.map_map] at same
    exact same

end Compatible

namespace Forest

variable [Scalar α]

/-- In whatever order compatible samples arrive, none is refused, and afterwards every call and
every question is answered the same. -/
theorem arrival_order_irrelevant (settings : Settings) {left right : List (StampedMotion α)}
    (compatible : Compatible left) (perm : left.Perm right) :
    (∀ answer ∈ ((Forest.empty settings).run (ingestion left)).1,
        ∃ recording, answer = .recorded (.ok recording)) ∧
      (∀ answer ∈ ((Forest.empty settings).run (ingestion right)).1,
        ∃ recording, answer = .recorded (.ok recording)) ∧
      (∀ calls : List (Call α), ((after settings (ingestion left)).run calls).1 =
        ((after settings (ingestion right)).run calls).1) ∧
      (∀ source target, (after settings (ingestion left)).graph.route source target =
        (after settings (ingestion right)).graph.route source target) ∧
      (after settings (ingestion left)).graph.outline =
        (after settings (ingestion right)).graph.outline ∧
      (after settings (ingestion left)).graph.defaultFrame? =
        (after settings (ingestion right)).graph.defaultFrame? ∧
      (∀ child, (after settings (ingestion left)).sampleCount child =
        (after settings (ingestion right)).sampleCount child) ∧
      (after settings (ingestion left)).edges.earliestTimed? =
        (after settings (ingestion right)).edges.earliestTimed? := by
  have alike := compatible.alike_of_perm settings perm
  have leftSound := sound_after settings (ingestion left)
  have rightSound := sound_after settings (ingestion right)
  have leftForest := leftSound.consistent.isForest
  have rightForest := rightSound.consistent.isForest
  exact ⟨(compatible.run_ingestion_empty settings).1,
    ((compatible.perm perm).run_ingestion_empty settings).1,
    fun calls => (alike.run leftSound rightSound calls).1,
    alike.graph.route_eq leftForest rightForest,
    alike.graph.outline_eq leftForest rightForest,
    alike.graph.defaultFrame?_eq leftForest rightForest,
    alike.sampleCount_eq, alike.edges.earliestTimed?_eq⟩

/-- The robot may come before the frame that it hangs from has a parent. -/
theorem arrival_order_irrelevant_robot :
    (after (α := Float) .standard
        (ingestion [⟨"map", "odom", ⟨3⟩, 1⟩, ⟨"odom", "robot", ⟨5⟩, 1⟩,
          ⟨"map", "odom", ⟨1⟩, 1⟩])).graph.outline =
      (after (α := Float) .standard
        (ingestion [⟨"odom", "robot", ⟨5⟩, 1⟩, ⟨"map", "odom", ⟨3⟩, 1⟩,
          ⟨"map", "odom", ⟨1⟩, 1⟩])).graph.outline := by
  have compatible : Compatible (α := Float) [⟨"map", "odom", ⟨3⟩, 1⟩, ⟨"odom", "robot", ⟨5⟩, 1⟩,
      ⟨"map", "odom", ⟨1⟩, 1⟩] :=
    { single := by simp
      acyclic := acyclic_of_rank String.length (by simp; decide)
      distinct := by decide }
  exact (arrival_order_irrelevant .standard compatible (.swap _ _ _)).2.2.2.2.1

end Forest

end FrameForest
