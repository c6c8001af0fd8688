import FrameForest.Proofs.Edge.Answers
import FrameForest.Proofs.Forest.Calls
import FrameForest.Proofs.Forest.Hops

/-!
# What does not depend on the motions

Where a sample goes, and whether it is taken up at all, is decided by frames,
stamps and kinds of edges.  If every motion is replaced by another one on its way
into a forest, the forest holds the replaced motions in the same places, and the
same lookups fail with the same failures.
-/

namespace FrameForest

variable {α : Type}

def Sample.adjust (change : Motion α → Motion α) (sample : Sample α) : Sample α :=
  { sample with motion := change sample.motion }

def Arrival.adjust (change : Motion α → Motion α) : Arrival α → Arrival α
  | timed stamped => .timed { stamped with motion := change stamped.motion }
  | fixed stamped => .fixed { stamped with motion := change stamped.motion }

def Call.adjust (change : Motion α → Motion α) : Call α → Call α
  | record arrival => .record (arrival.adjust change)
  | call => call

/-! ## Histories -/

namespace History

variable (change : Motion α → Motion α)

theorem place_adjust (sample : Sample α) (samples : List (Sample α)) :
    place (sample.adjust change) (samples.map (Sample.adjust change)) =
      (place sample samples).map (Sample.adjust change) := by
  induction samples with
  | nil => rfl
  | cons head rest ih =>
      rw [List.map_cons, place, place, ih]
      show (if head.stamp < sample.stamp then _ else if head.stamp = sample.stamp then _ else _) = _
      split
      · rfl
      · split <;> rfl

theorem trim_adjust (capacity : Nat) (horizon : Duration) (samples : List (Sample α)) :
    trim capacity horizon (samples.map (Sample.adjust change)) =
      (trim capacity horizon samples).map (Sample.adjust change) := by
  unfold trim
  dsimp only
  rw [List.length_map, ← List.map_drop, List.getLast?_map]
  cases (samples.drop (samples.length - capacity)).getLast? with
  | none => rfl
  | some newest => exact List.dropWhile_map ..

def adjust (history : History α) : History α where
  samples := history.samples.map (Sample.adjust change)
  capacity := history.capacity
  horizon := history.horizon
  hint := history.hint
  capacity_pos := history.capacity_pos
  ordered := List.pairwise_map.2 history.ordered

variable (history : History α)

theorem earliest?_adjust :
    (history.adjust change).earliest? = history.earliest?.map (Sample.adjust change) :=
  List.head?_map ..

theorem latest?_adjust :
    (history.adjust change).latest? = history.latest?.map (Sample.adjust change) :=
  List.getLast?_map ..

theorem span?_adjust : (history.adjust change).span? = history.span? := by
  rw [span?, span?, earliest?_adjust, latest?_adjust]
  cases history.earliest? with
  | none => rfl
  | some first => cases history.latest? <;> rfl

theorem refuses_adjust (stamp : Stamp) :
    (history.adjust change).refuses stamp = history.refuses stamp := by
  have count : (history.adjust change).samples.length = history.samples.length := List.length_map ..
  rw [refuses, refuses, span?_adjust, count]
  rfl

theorem insert_adjust (sample : Sample α) :
    (history.adjust change).insert (sample.adjust change) =
      (history.insert sample).map id (adjust change) := by
  have refusal : (history.adjust change).refuses (sample.adjust change).stamp =
      history.refuses sample.stamp := history.refuses_adjust change sample.stamp
  have samples : trim history.capacity history.horizon (place (sample.adjust change)
      (history.samples.map (Sample.adjust change))) =
        (trim history.capacity history.horizon (place sample history.samples)).map
          (Sample.adjust change) := by
    rw [place_adjust, trim_adjust]
  have present : (history.samples.map (Sample.adjust change)).any
      (fun other => decide (other.stamp = sample.stamp)) =
        history.samples.any fun other => decide (other.stamp = sample.stamp) := List.any_map ..
  unfold insert
  rw [refusal]
  split
  · rfl
  · apply Prod.ext
    · exact congrArg (fun found : Bool => if found then Insertion.replaced else .inserted) present
    · have count := congrArg List.length samples
      rw [List.length_map] at count
      simp only [adjust, Prod.map_snd, mk.injEq, count, and_true]
      exact samples

end History

namespace Track

variable (change : Motion α → Motion α)

def adjust : Track α → Track α
  | fixed motion => .fixed (change motion)
  | timed history => .timed (history.adjust change)

theorem insert_adjust (track : Track α) (sample : Sample α) :
    (track.adjust change).insert (sample.adjust change) =
      (track.insert sample).map id (adjust change) := by
  cases track with
  | fixed motion => rfl
  | timed history =>
      show ((history.adjust change).insert (sample.adjust change)).map id timed = _
      rw [history.insert_adjust]
      rfl

@[simp] theorem isFixed_adjust (track : Track α) :
    (track.adjust change).isFixed = track.isFixed := by
  cases track <;> rfl

theorem forgetHint_adjust (track : Track α) :
    (track.adjust change).forgetHint = track.forgetHint.adjust change := by
  cases track <;> rfl

theorem span?_adjust (track : Track α) : (track.adjust change).span? = track.span? := by
  cases track with
  | fixed motion => rfl
  | timed history => exact history.span?_adjust change

theorem samples_adjust_ne_nil {track : Track α} (some : track.samples ≠ []) :
    (track.adjust change).samples ≠ [] := by
  cases track with
  | fixed motion => exact List.cons_ne_nil _ _
  | timed history => exact fun nothing => some (List.map_eq_nil_iff.1 nothing)

end Track

namespace Edge

variable (change : Motion α → Motion α)

def adjust (edge : Edge α) : Edge α :=
  { edge with track := edge.track.adjust change }

theorem insert_adjust (edge : Edge α) (sample : Sample α) :
    (edge.adjust change).insert (sample.adjust change) =
      (edge.insert sample).map id (adjust change) := by
  show ((edge.track.adjust change).insert (sample.adjust change)).map id _ = _
  rw [Track.insert_adjust]
  rfl

theorem forgetHint_adjust (edge : Edge α) :
    (edge.adjust change).forgetHint = edge.forgetHint.adjust change :=
  congrArg (Edge.mk edge.parent edge.child) (edge.track.forgetHint_adjust change)

end Edge

/-! ## Recording -/

namespace EdgeTable

variable (change : Motion α → Motion α)

def adjust (edges : EdgeTable α) : EdgeTable α :=
  edges.mapValues (Edge.adjust change)

theorem find?_adjust (edges : EdgeTable α) (child : String) :
    (edges.adjust change).find? child = (edges.find? child).map (Edge.adjust change) :=
  Table.find?_mapValues _ _ _

theorem obtain_adjust (edges : EdgeTable α) (parent child : String) (fresh : Track α) :
    (edges.adjust change).obtain parent child (fresh.adjust change) =
      (edges.obtain parent child fresh).adjust change := by
  unfold obtain
  rw [find?_adjust]
  cases edges.find? child with
  | none => rfl
  | some edge =>
      simp only [Option.map_some, Edge.adjust, Track.isFixed_adjust]
      split <;> rfl

theorem Agree.adjust {left right : EdgeTable α} (agree : left.Agree right) :
    (left.adjust change).Agree (right.adjust change) := by
  intro child
  have swap (found : Option (Edge α)) : (found.map (Edge.adjust change)).map Edge.forgetHint =
      (found.map Edge.forgetHint).map (Edge.adjust change) := by
    cases found with
    | none => rfl
    | some edge => exact congrArg some (edge.forgetHint_adjust change)
  rw [find?_adjust, find?_adjust, swap, swap, agree child]

end EdgeTable

theorem Arrival.sample_adjust (change : Motion α → Motion α) (arrival : Arrival α) :
    (arrival.adjust change).sample = arrival.sample.adjust change := by
  cases arrival <;> rfl

theorem Arrival.freshTrack_adjust (change : Motion α → Motion α) (arrival : Arrival α)
    (settings : Settings) :
    (arrival.adjust change).freshTrack settings = (arrival.freshTrack settings).adjust change := by
  cases arrival <;> rfl

namespace Forest

variable (change : Motion α → Motion α)

/-- The forest with other motions and nothing remembered. -/
def adjust (forest : Forest α) : Forest α :=
  { forest with edges := forest.edges.adjust change, memo := forest.memo.forget }

theorem Alike.adjust {left right : Forest α} (alike : left.Alike right) :
    (left.adjust change).Alike (right.adjust change) :=
  ⟨alike.settings, alike.graph, alike.edges.adjust change⟩

theorem Consistent.adjust {forest : Forest α} (consistent : forest.Consistent) :
    (forest.adjust change).Consistent := by
  have found (child : String) : (forest.adjust change).edges.find? child =
      (forest.edges.find? child).map (Edge.adjust change) := EdgeTable.find?_adjust change _ child
  constructor
  case isForest => exact consistent.isForest
  case keyed =>
    intro child edge held
    rw [found] at held
    obtain ⟨former, present, rfl⟩ := Option.map_eq_some_iff.1 held
    exact consistent.keyed child former present
  case parents =>
    intro child
    rw [found, Option.map_map]
    exact consistent.parents child
  case occupied =>
    intro child edge held
    rw [found] at held
    obtain ⟨former, present, rfl⟩ := Option.map_eq_some_iff.1 held
    exact Track.samples_adjust_ne_nil change (consistent.occupied child former present)

theorem prune_adjust (edges : EdgeTable α) (parentChange : ParentChange) (child : String) :
    parentChange.prune child (edges.adjust change) =
      (parentChange.prune child edges).adjust change := by
  cases parentChange with
  | reparented previous => exact (Table.mapValues_erase _ _ _).symm
  | unchanged => rfl
  | attached => rfl

variable (forest : Forest α) (arrival : Arrival α)

theorem take_adjust (parentChange : ParentChange) :
    (forest.adjust change).take (arrival.adjust change) parentChange =
      (forest.take arrival parentChange).map id (Edge.adjust change) := by
  have child : (arrival.adjust change).child = arrival.child := by cases arrival <;> rfl
  have parent : (arrival.adjust change).parent = arrival.parent := by cases arrival <;> rfl
  unfold take
  rw [child, parent, Arrival.sample_adjust, Arrival.freshTrack_adjust]
  show ((parentChange.prune arrival.child (forest.edges.adjust change)).obtain _ _ _).insert _ = _
  rw [prune_adjust, EdgeTable.obtain_adjust, Edge.insert_adjust]
  rfl

theorem accept_adjust (parentChange : ParentChange) (graph : FrameGraph) :
    (forest.adjust change).accept (arrival.adjust change) parentChange graph =
      (forest.accept arrival parentChange graph).adjust change := by
  have child : (arrival.adjust change).child = arrival.child := by cases arrival <;> rfl
  have taken := forest.take_adjust change arrival parentChange
  have edges : (parentChange.prune arrival.child (forest.edges.adjust change)).put
      ((forest.take arrival parentChange).2.adjust change) =
        ((parentChange.prune arrival.child forest.edges).put
          (forest.take arrival parentChange).2).adjust change := by
    rw [prune_adjust]
    exact (Table.mapValues_insert _ _ _ _).symm
  unfold accept
  rw [taken, child]
  simp only [adjust, Prod.map_snd, Prod.map_fst, id, edges]
  split <;> rfl

theorem recordIn_adjust :
    ((arrival.adjust change).recordIn (forest.adjust change)).result =
      (arrival.recordIn forest).result.map id (adjust change) := by
  have child : (arrival.adjust change).child = arrival.child := by cases arrival <;> rfl
  have parent : (arrival.adjust change).parent = arrival.parent := by cases arrival <;> rfl
  have graph : (forest.adjust change).graph = forest.graph := rfl
  have settings : (forest.adjust change).settings = forest.settings := rfl
  rw [recordIn_result, recordIn_result, child, parent, graph, settings]
  cases forest.graph.setParent arrival.parent arrival.child forest.settings.reparenting with
  | error failure => rfl
  | ok accepted =>
      obtain ⟨parentChange, graph⟩ := accepted
      dsimp only
      rw [take_adjust, accept_adjust]
      rfl

/-! ## Runs -/

variable [Scalar α] {forest : Forest α}

theorem Sound.adjust (sound : forest.Sound) : (forest.adjust change).Sound :=
  ⟨sound.consistent.adjust change, coherent_of_forgotten fun _ => rfl⟩

theorem alike_perform_adjust (sound : forest.Sound) (call : Call α) :
    ((call.perform forest).2.adjust change).Alike
      ((call.adjust change).perform (forest.adjust change)).2 := by
  have quiet (still : call.isQuiet = true) : ((call.perform forest).2.adjust change).Alike
      (call.perform (forest.adjust change)).2 := by
    have kept := bare_perform_of_isQuiet sound still
    have adjustedKept := bare_perform_of_isQuiet (sound.adjust change) still
    exact ((alike_of_bare_eq kept).symm.adjust change).trans (alike_of_bare_eq adjustedKept)
  cases call with
  | register frame => exact alike_of_bare_eq rfl
  | record arrival =>
      have recorded := congrArg Prod.snd (forest.recordIn_adjust change arrival)
      apply alike_of_bare_eq
      exact congrArg bare recorded
  | lookup question => exact quiet rfl
  | resolve pose resolution => exact quiet rfl
  | forgetLookups => exact quiet rfl
  | jump previous => exact quiet rfl
  | reset =>
      show Alike _ (Call.reset.perform (forest.adjust change)).2
      rw [Call.perform, Call.perform, result_reset, result_reset]
      exact alike_of_bare_eq rfl

theorem alike_run_adjust (sound : forest.Sound) (calls : List (Call α)) :
    ((forest.run calls).2.adjust change).Alike
      ((forest.adjust change).run (calls.map (Call.adjust change))).2 := by
  induction calls generalizing forest with
  | nil => exact alike_of_bare_eq rfl
  | cons call rest ih =>
      have first := alike_perform_adjust change sound call
      have next := sound.perform call
      have later := first.run (next.adjust change)
        ((sound.adjust change).perform (call.adjust change)) (rest.map (Call.adjust change))
      exact (ih next).trans later.2

/-- Adjusting motions on their way in is adjusting what the forest holds. -/
theorem alike_after_adjust (settings : Settings) (calls : List (Call α)) :
    ((after settings calls).adjust change).Alike
      (after settings (calls.map (Call.adjust change))) :=
  alike_run_adjust change (.empty settings) calls

end Forest

/-! ## Failures -/

/-- Both fail, and for the same reason, or neither fails. -/
def SameFailure {ε β : Type} (left right : Except ε β) : Prop :=
  ∀ failure, left = .error failure ↔ right = .error failure

namespace SameFailure

variable {ε β γ : Type} {left right : Except ε β}

theorem refl (left : Except ε β) : SameFailure left left :=
  fun _ => Iff.rfl

theorem of_ok (first second : β) : SameFailure (ε := ε) (.ok first) (.ok second) := by
  intro failure
  constructor <;> intro told <;> cases told

theorem cases (same : SameFailure left right) :
    (∃ failure, left = .error failure ∧ right = .error failure) ∨
      ∃ first second, left = .ok first ∧ right = .ok second := by
  cases left with
  | error failure => exact .inl ⟨failure, rfl, (same failure).1 rfl⟩
  | ok first =>
      cases right with
      | error failure => cases (same failure).2 rfl
      | ok second => exact .inr ⟨first, second, rfl, rfl⟩

theorem map (same : SameFailure left right) (f g : β → γ) :
    SameFailure (left.map f) (right.map g) := by
  rcases same.cases with ⟨failure, rfl, rfl⟩ | ⟨first, second, rfl, rfl⟩
  · exact refl _
  · exact of_ok _ _

theorem mapM {ι : Type} {f g : ι → Except ε β} {items : List ι}
    (same : ∀ item ∈ items, SameFailure (f item) (g item)) :
    SameFailure (items.mapM f) (items.mapM g) := by
  induction items with
  | nil => exact refl _
  | cons item rest ih =>
      have later := ih fun other member => same other (List.mem_cons_of_mem _ member)
      rw [List.mapM_cons, List.mapM_cons]
      rcases (same item List.mem_cons_self).cases with
        ⟨failure, first, second⟩ | ⟨_, _, first, second⟩
      · rw [first, second]
        exact refl _
      · rw [first, second]
        rcases later.cases with ⟨failure, left, right⟩ | ⟨_, _, left, right⟩
        · simp only [left, right]
          exact refl _
        · simp only [left, right]
          exact of_ok _ _

end SameFailure

theorem History.isSome_query_adjust [Scalar α] (change : Motion α → Motion α)
    (history : History α) (time : Stamp) (tolerance : Duration) :
    ((history.adjust change).query time tolerance).1.isSome =
      (history.query time tolerance).1.isSome := by
  rw [Bool.eq_iff_iff, isSome_query_iff, isSome_query_iff, span?_adjust]

theorem Edge.sameFailure_query_adjust [Scalar α] (change : Motion α → Motion α) (edge : Edge α)
    (time : Stamp) (tolerance : Duration) :
    SameFailure ((edge.adjust change).query time tolerance).1 (edge.query time tolerance).1 := by
  have answered : ((edge.track.adjust change).query time tolerance).1.isSome =
      (edge.track.query time tolerance).1.isSome := by
    cases edge.track with
    | fixed motion => rfl
    | timed history => exact history.isSome_query_adjust change time tolerance
  have span : (edge.adjust change).reportedSpan = edge.reportedSpan := by
    rw [reportedSpan, reportedSpan, adjust, Track.span?_adjust]
  have track : (edge.adjust change).track = edge.track.adjust change := rfl
  rw [fst_query, fst_query, span, track]
  cases adjusted : ((edge.track.adjust change).query time tolerance).1 <;>
    cases found : (edge.track.query time tolerance).1 <;> rw [adjusted, found] at answered
  · exact .refl _
  · cases answered
  · cases answered
  · exact .of_ok _ _

namespace Forest

variable [Scalar α] (change : Motion α → Motion α)

theorem sameFailure_motionOf_adjust (forest : Forest α) (time : Stamp) (child : String) :
    SameFailure ((forest.adjust change).motionOf time child) (forest.motionOf time child) := by
  have found : (forest.adjust change).edges.find? child =
      (forest.edges.find? child).map (Edge.adjust change) := EdgeTable.find?_adjust change _ child
  unfold motionOf EdgeTable.query
  rw [found]
  cases forest.edges.find? child with
  | none => exact .refl _
  | some edge => exact edge.sameFailure_query_adjust change time forest.settings.tolerance

/-- Which lookups fail, and why, does not depend on the motions. -/
theorem sameFailure_recompute_adjust {forest : Forest α} (consistent : forest.Consistent)
    (question : Lookup) :
    SameFailure ((forest.adjust change).recompute question) (forest.recompute question) := by
  have adjustedKeyed := (consistent.adjust change).keyed
  have graph : (forest.adjust change).graph = forest.graph := rfl
  rw [recompute_eq, recompute_eq, graph]
  cases forest.graph.route question.source question.target with
  | error failure => exact .refl _
  | ok route =>
      dsimp only
      split
      · exact .refl _
      · rw [fst_traverse_bare adjustedKeyed, fst_traverse_bare consistent.keyed,
          fst_traverse adjustedKeyed, fst_traverse consistent.keyed]
        apply SameFailure.map
        apply SameFailure.mapM
        exact fun child _ => forest.sameFailure_motionOf_adjust change question.time child

theorem sameFailure_placed {first second : Lookup → Except Failure (Motion α)}
    (same : ∀ question, SameFailure (first question) (second question)) (pose : Pose α)
    (resolution : Resolution) :
    SameFailure (placed first pose resolution) (placed second pose resolution) := by
  unfold placed
  split
  · exact .refl _
  · rcases (same ⟨resolution.source, resolution.fixed, resolution.sourceTime⟩).cases with
      ⟨cause, left, right⟩ | ⟨_, _, left, right⟩
    · rw [left, right]
      exact .refl _
    · rw [left, right]
      rcases (same ⟨resolution.fixed, resolution.destination, resolution.destinationTime⟩).cases
        with ⟨cause, left, right⟩ | ⟨_, _, left, right⟩
      · simp only [left, right]
        exact .refl _
      · simp only [left, right]
        exact .of_ok _ _

end Forest

end FrameForest
