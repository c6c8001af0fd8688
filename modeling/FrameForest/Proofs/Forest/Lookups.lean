import FrameForest.Proofs.Forest.Recording

/-!
# Lookups and what is remembered of them

A lookup moves hints and fills the memo, and nothing else of the forest.  `bare`
forgets both.  What a bare forest answers is computed from the current samples;
a forest is coherent when its memo holds such answers only.  A coherent forest
therefore always answers like its bare one, whether it remembers or computes.
-/

namespace FrameForest

namespace Memo

variable {α : Type} {memo : Memo α} {question other : Lookup} {motion held : Motion α}

/-- The remembered answer to a question. -/
def remembered? (memo : Memo α) (question : Lookup) : Option (Motion α) :=
  (memo.entries.find? question).map MemoEntry.motion

@[simp] theorem remembered?_forget (memo : Memo α) (question : Lookup) :
    memo.forget.remembered? question = none := rfl

theorem fst_consult (memo : Memo α) (question : Lookup) :
    (memo.consult question).1 = memo.remembered? question := by
  unfold consult remembered?
  cases memo.entries.find? question <;> rfl

theorem remembered?_consult (memo : Memo α) (question other : Lookup) :
    (memo.consult question).2.remembered? other = memo.remembered? other := by
  unfold consult remembered?
  cases found : memo.entries.find? question with
  | none => rfl
  | some entry =>
      dsimp only
      rw [Table.find?_insert]
      split
      case isTrue same => rw [same, found, Option.map_some, Option.map_some]
      case isFalse => rfl

theorem remembered?_of_makeRoom (recalled :
    ((memo.makeRoom question).find? other).map MemoEntry.motion = some held) :
    memo.remembered? other = some held := by
  unfold makeRoom at recalled
  split at recalled
  · split at recalled
    · rw [Table.find?_erase] at recalled
      split at recalled
      · cases recalled
      · exact recalled
    · exact recalled
  · exact recalled

theorem remembered?_of_remember
    (recalled : (memo.remember question motion).remembered? other = some held) :
    other = question ∧ held = motion ∨ memo.remembered? other = some held := by
  unfold remember at recalled
  split at recalled
  · exact .inr recalled
  · rw [remembered?, Table.find?_insert] at recalled
    split at recalled
    case isTrue same => exact .inl ⟨same, (Option.some.inj recalled).symm⟩
    case isFalse => exact .inr (remembered?_of_makeRoom recalled)

/-- The memo once a question that it could not answer has been answered. -/
def note (memo : Memo α) (question : Lookup) (answer : Except Failure (Motion α)) : Memo α :=
  match answer with
  | .ok motion => memo.remember question motion
  | .error _ => memo

theorem remembered?_of_note {answer : Except Failure (Motion α)}
    (recalled : (memo.note question answer).remembered? other = some held) :
    other = question ∧ answer = .ok held ∨ memo.remembered? other = some held := by
  cases answer with
  | error failure => exact .inr recalled
  | ok motion =>
      rcases remembered?_of_remember recalled with ⟨same, rfl⟩ | old
      · exact .inl ⟨same, rfl⟩
      · exact .inr old

end Memo

namespace Forest

variable {α : Type}

/-- The forest with all hints at the start and without a memo. -/
def bare (forest : Forest α) : Forest α where
  settings := { forest.settings with memoCapacity := 0 }
  graph := forest.graph
  edges := forest.edges.forgetHints
  memo := .empty 0

theorem bare_eq_iff {left right : Forest α} : left.bare = right.bare ↔
    left.bare.settings = right.bare.settings ∧ left.graph = right.graph ∧
      left.edges.forgetHints = right.edges.forgetHints := by
  simp [bare]

/-- Only the capacity of the memo is out of sight, which no track depends on. -/
theorem freshTrack_congr {left right : Forest α} (same : left.bare.settings = right.bare.settings)
    (arrival : Arrival α) :
    arrival.freshTrack left.settings = arrival.freshTrack right.settings := by
  have capacityless : ∀ forest : Forest α,
      arrival.freshTrack forest.bare.settings = arrival.freshTrack forest.settings := by
    intro forest
    cases arrival <;> rfl
  rw [← capacityless, same, capacityless]

theorem Consistent.bare {forest : Forest α} (consistent : forest.Consistent) :
    forest.bare.Consistent :=
  consistent.of_agree rfl (EdgeTable.agree_forgetHints forest.edges)

theorem graph_eq_of_bare_eq {forest next : Forest α} (same : next.bare = forest.bare) :
    next.graph = forest.graph :=
  (congrArg graph same : next.bare.graph = forest.bare.graph)

theorem edges_agree_of_bare_eq {forest next : Forest α} (same : next.bare = forest.bare) :
    forest.edges.Agree next.edges :=
  EdgeTable.agree_of_forgetHints_eq (congrArg edges same.symm : forest.bare.edges = next.bare.edges)

theorem Consistent.of_bare_eq {forest next : Forest α} (consistent : forest.Consistent)
    (same : next.bare = forest.bare) : next.Consistent :=
  consistent.of_agree (graph_eq_of_bare_eq same).symm (edges_agree_of_bare_eq same)

variable [Scalar α] {forest : Forest α}

theorem bare_traverse (keyed : forest.edges.Keyed) (route : Route) (time : Stamp) :
    (forest.traverse route time).2.bare = forest.bare := by
  have kept := EdgeTable.forgetHints_queryAll keyed
    (fun child => (forest.graph.parent? child).getD child) time forest.settings.tolerance
    (route.up ++ route.down)
  exact congrArg (fun edges => { forest.bare with edges }) kept

/-- The memo is asked for nontrivial routes, and what it lacks is computed. -/
theorem lookup_eq (forest : Forest α) (question : Lookup) :
    forest.lookup question.source question.target question.time =
      match forest.graph.route question.source question.target with
      | .error failure => (.error failure, forest)
      | .ok route =>
        if route.isTrivial then (.ok 1, forest)
        else
          match forest.memo.remembered? question with
          | some motion => (.ok motion, { forest with memo := (forest.memo.consult question).2 })
          | none =>
            ((forest.traverse route question.time).1,
              { (forest.traverse route question.time).2 with
                memo := (forest.memo.consult question).2.note question
                  (forest.traverse route question.time).1 }) := by
  unfold lookup
  cases forest.graph.route question.source question.target with
  | error failure => rfl
  | ok route =>
      dsimp only
      by_cases direct : route.isTrivial = true
      · rw [if_pos direct, if_pos direct]
      · rw [if_neg direct, if_neg direct, ← Memo.fst_consult]
        cases forest.memo.consult question with
        | mk recalled memo =>
            cases recalled with
            | some motion => rfl
            | none =>
                have memoless : { forest with memo }.traverse route question.time =
                    ((forest.traverse route question.time).1,
                      { (forest.traverse route question.time).2 with memo }) := rfl
                dsimp only
                rw [memoless]
                cases (forest.traverse route question.time).1 <;> rfl

theorem bare_lookup (keyed : forest.edges.Keyed) (question : Lookup) :
    (forest.lookup question.source question.target question.time).2.bare = forest.bare := by
  rw [lookup_eq]
  split
  · rfl
  · split
    · rfl
    · split
      · rfl
      · exact bare_traverse keyed _ _

/-- The answer to a question that is computed from the current samples. -/
def recompute (forest : Forest α) (question : Lookup) : Except Failure (Motion α) :=
  (forest.bare.lookup question.source question.target question.time).1

theorem recompute_of_bare_eq {next : Forest α} (same : next.bare = forest.bare) :
    next.recompute = forest.recompute := by
  funext question
  rw [recompute, same, recompute]

theorem recompute_eq (forest : Forest α) (question : Lookup) :
    forest.recompute question =
      match forest.graph.route question.source question.target with
      | .error failure => .error failure
      | .ok route =>
        if route.isTrivial then .ok 1 else (forest.bare.traverse route question.time).1 := by
  have graph : forest.bare.graph = forest.graph := rfl
  have recalled : forest.bare.memo.remembered? question = none := rfl
  rw [recompute, lookup_eq, graph, recalled]
  cases forest.graph.route question.source question.target with
  | error failure => rfl
  | ok route =>
      dsimp only
      by_cases direct : route.isTrivial = true
      · rw [if_pos direct, if_pos direct]
      · rw [if_neg direct, if_neg direct]

/-- The memo holds only what the current samples answer. -/
def Coherent (forest : Forest α) : Prop :=
  ∀ question motion, forest.memo.remembered? question = some motion →
    forest.recompute question = .ok motion

theorem coherent_of_forgotten (forgotten : ∀ question, forest.memo.remembered? question = none) :
    forest.Coherent := by
  intro question motion recalled
  rw [forgotten question] at recalled
  cases recalled

theorem fst_traverse_congr (other : Forest α) (keyed : forest.edges.Keyed)
    (parents : ∀ child, forest.graph.parent? child = other.graph.parent? child)
    (tolerance : forest.settings.tolerance = other.settings.tolerance)
    (agree : forest.edges.Agree other.edges) (route : Route) (time : Stamp) :
    (forest.traverse route time).1 = (other.traverse route time).1 := by
  have answers := EdgeTable.fst_queryAll_congr agree keyed
    (fun child => (other.graph.parent? child).getD child) time other.settings.tolerance
    (route.up ++ route.down)
  unfold traverse
  simp only [parents, tolerance]
  rw [answers]

theorem fst_traverse_bare (keyed : forest.edges.Keyed) (route : Route) (time : Stamp) :
    (forest.bare.traverse route time).1 = (forest.traverse route time).1 :=
  (fst_traverse_congr forest.bare keyed (fun _ => rfl) rfl
    (EdgeTable.agree_forgetHints forest.edges) route time).symm

/-- A lookup answers from the memo what it would compute. -/
theorem fst_lookup (keyed : forest.edges.Keyed) (coherent : forest.Coherent) (question : Lookup) :
    (forest.lookup question.source question.target question.time).1 =
      forest.recompute question := by
  cases recalled : forest.memo.remembered? question with
  | none =>
      rw [lookup_eq, recompute_eq, recalled]
      cases forest.graph.route question.source question.target with
      | error failure => rfl
      | ok route =>
          dsimp only
          rw [fst_traverse_bare keyed]
          by_cases direct : route.isTrivial = true
          · rw [if_pos direct, if_pos direct]
          · rw [if_neg direct, if_neg direct]
  | some motion =>
      have computed := coherent question motion recalled
      rw [computed, lookup_eq, recalled]
      rw [recompute_eq] at computed
      cases found : forest.graph.route question.source question.target with
      | error failure =>
          rw [found] at computed
          cases computed
      | ok route =>
          rw [found] at computed
          dsimp only at computed ⊢
          by_cases direct : route.isTrivial = true
          · rw [if_pos direct] at computed ⊢
            exact computed
          · rw [if_neg direct]

theorem Coherent.lookup (coherent : forest.Coherent) (keyed : forest.edges.Keyed)
    (question : Lookup) :
    (forest.lookup question.source question.target question.time).2.Coherent := by
  intro other motion recalled
  have answer := fst_lookup keyed coherent question
  rw [recompute_of_bare_eq (bare_lookup keyed question)]
  rw [lookup_eq] at recalled answer
  cases found : forest.graph.route question.source question.target with
  | error failure =>
      rw [found] at recalled
      exact coherent other motion recalled
  | ok route =>
      rw [found] at recalled answer
      dsimp only at recalled answer
      by_cases direct : route.isTrivial = true
      · rw [if_pos direct] at recalled
        exact coherent other motion recalled
      · rw [if_neg direct] at recalled answer
        cases held : forest.memo.remembered? question with
        | some earlier =>
            rw [held] at recalled
            dsimp only at recalled
            rw [Memo.remembered?_consult] at recalled
            exact coherent other motion recalled
        | none =>
            rw [held] at recalled answer
            rcases Memo.remembered?_of_note recalled with ⟨rfl, told⟩ | old
            · exact answer.symm.trans told
            · rw [Memo.remembered?_consult] at old
              exact coherent other motion old

/-! ## Sound forests -/

/-- Whatever a sound forest answers is computed from its samples. -/
structure Sound (forest : Forest α) : Prop where
  consistent : forest.Consistent
  coherent : forest.Coherent

theorem Sound.lookup (sound : forest.Sound) (question : Lookup) :
    ∃ next, forest.lookup question.source question.target question.time =
        (forest.recompute question, next) ∧ next.bare = forest.bare ∧ next.Sound := by
  have keyed := sound.consistent.keyed
  have answer := fst_lookup keyed sound.coherent question
  have kept := bare_lookup keyed question
  exact ⟨(forest.lookup question.source question.target question.time).2, Prod.ext answer rfl, kept,
    sound.consistent.of_bare_eq kept, sound.coherent.lookup keyed question⟩

/-- A resolution by way of given answers to the two lookups. -/
def placed (answer : Lookup → Except Failure (Motion α)) (pose : Pose α) (resolution : Resolution) :
    Except ResolutionFailure (Pose α) :=
  if resolution.source = resolution.destination then .ok pose
  else
    match answer ⟨resolution.source, resolution.fixed, resolution.sourceTime⟩ with
    | .error cause => .error (blame cause resolution.source .source resolution.fixed)
    | .ok sourceToFixed =>
      match answer ⟨resolution.fixed, resolution.destination, resolution.destinationTime⟩ with
      | .error cause => .error (blame cause resolution.destination .destination resolution.fixed)
      | .ok fixedToDestination => .ok (fixedToDestination * sourceToFixed * pose).normalized

theorem Sound.resolve (sound : forest.Sound) (pose : Pose α) (resolution : Resolution) :
    ∃ next, forest.resolve pose resolution = (placed forest.recompute pose resolution, next) ∧
      next.bare = forest.bare ∧ next.Sound := by
  unfold Forest.resolve placed
  by_cases here : resolution.source = resolution.destination
  · rw [if_pos here, if_pos here]
    exact ⟨forest, rfl, rfl, sound⟩
  · rw [if_neg here, if_neg here]
    obtain ⟨next, first, kept, nextSound⟩ :=
      sound.lookup ⟨resolution.source, resolution.fixed, resolution.sourceTime⟩
    dsimp only at first
    rw [first]
    cases forest.recompute ⟨resolution.source, resolution.fixed, resolution.sourceTime⟩ with
    | error cause => exact ⟨next, rfl, kept, nextSound⟩
    | ok sourceToFixed =>
        obtain ⟨last, second, keptLast, lastSound⟩ := nextSound.lookup
          ⟨resolution.fixed, resolution.destination, resolution.destinationTime⟩
        rw [recompute_of_bare_eq kept] at second
        dsimp only at second ⊢
        rw [second]
        have keptAll := keptLast.trans kept
        cases forest.recompute
            ⟨resolution.fixed, resolution.destination, resolution.destinationTime⟩ with
        | error cause => exact ⟨last, rfl, keptAll, lastSound⟩
        | ok fixedToDestination => exact ⟨last, rfl, keptAll, lastSound⟩

theorem fst_resolve_of_bare_eq {next : Forest α} (same : next.bare = forest.bare)
    (sound : forest.Sound) (nextSound : next.Sound) (pose : Pose α) (resolution : Resolution) :
    (next.resolve pose resolution).1 = (forest.resolve pose resolution).1 := by
  obtain ⟨_, told, _⟩ := sound.resolve pose resolution
  obtain ⟨_, nextTold, _⟩ := nextSound.resolve pose resolution
  rw [told, nextTold, recompute_of_bare_eq same]

end Forest

end FrameForest
