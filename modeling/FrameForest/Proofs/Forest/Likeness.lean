import FrameForest.Proofs.Forest.Lookups
import FrameForest.Proofs.Frame.Likeness

/-!
# Forests that look alike

Forests may differ in what they remember, in their hints, in the capacity of
their memos and in the order in which their frames and edges came to be, and
still look alike.  Recording keeps a likeness and tells the same of both forests,
and sound forests that look alike compute the same answers.
-/

namespace FrameForest

namespace Forest

variable {α : Type}

structure Alike (left right : Forest α) : Prop where
  /-- Equal but for the capacity of the memo. -/
  settings : left.bare.settings = right.bare.settings
  graph : left.graph.Alike right.graph
  edges : left.edges.Agree right.edges

theorem alike_of_bare_eq {forest next : Forest α} (same : next.bare = forest.bare) :
    forest.Alike next where
  settings := congrArg settings same.symm
  graph := graph_eq_of_bare_eq same ▸ .refl _
  edges := edges_agree_of_bare_eq same

namespace Alike

variable {left right : Forest α}

theorem symm (alike : left.Alike right) : right.Alike left :=
  ⟨alike.settings.symm, alike.graph.symm, alike.edges.symm⟩

theorem trans {other : Forest α} (first : left.Alike right) (second : right.Alike other) :
    left.Alike other :=
  ⟨first.settings.trans second.settings, first.graph.trans second.graph,
    first.edges.trans second.edges⟩

theorem register (alike : left.Alike right) (frame : String) :
    (left.register frame).Alike (right.register frame) :=
  ⟨alike.settings, alike.graph.register frame, alike.edges⟩

theorem tolerance_eq (alike : left.Alike right) :
    left.settings.tolerance = right.settings.tolerance := by
  have same : left.bare.settings.tolerance = right.bare.settings.tolerance := by
    rw [alike.settings]
  exact same

theorem reparenting_eq (alike : left.Alike right) :
    left.settings.reparenting = right.settings.reparenting := by
  have same : left.bare.settings.reparenting = right.bare.settings.reparenting := by
    rw [alike.settings]
  exact same

theorem prune (alike : left.Alike right) (change : ParentChange) (child : String) :
    (change.prune child left.edges).Agree (change.prune child right.edges) := by
  cases change with
  | reparented previous => exact alike.edges.erase child
  | unchanged => exact alike.edges
  | attached => exact alike.edges

theorem take (alike : left.Alike right) (arrival : Arrival α) (change : ParentChange) :
    (left.take arrival change).1 = (right.take arrival change).1 ∧
      (left.take arrival change).2.forgetHint = (right.take arrival change).2.forgetHint := by
  have obtained := (alike.prune change arrival.child).obtain arrival.parent arrival.child
    (arrival.freshTrack left.settings)
  unfold Forest.take
  rw [← freshTrack_congr alike.settings arrival]
  exact Edge.insert_congr obtained arrival.sample

theorem accept (alike : left.Alike right) (arrival : Arrival α) (change : ParentChange)
    {leftNext rightNext : FrameGraph} (graph : leftNext.Alike rightNext) :
    (left.accept arrival change leftNext).Alike (right.accept arrival change rightNext) where
  settings := alike.settings
  graph := graph
  edges := (alike.prune change arrival.child).put (alike.take arrival change).2

theorem recordIn (alike : left.Alike right) (leftForest : left.graph.IsForest)
    (rightForest : right.graph.IsForest) (arrival : Arrival α) :
    (arrival.recordIn left).result.1 = (arrival.recordIn right).result.1 ∧
      (arrival.recordIn left).result.2.Alike (arrival.recordIn right).result.2 := by
  have policy : left.settings.reparenting = right.settings.reparenting :=
    alike.reparenting_eq
  rw [recordIn_result, recordIn_result, policy]
  rcases alike.graph.setParent leftForest rightForest arrival.parent arrival.child
      right.settings.reparenting with
    ⟨failure, leftRefused, rightRefused⟩ |
    ⟨change, leftNext, rightNext, leftAccepted, rightAccepted, graph⟩
  · rw [leftRefused, rightRefused]
    exact ⟨rfl, alike⟩
  · rw [leftAccepted, rightAccepted]
    constructor
    · dsimp only
      rw [(alike.take arrival change).1]
    · exact alike.accept arrival change graph

theorem sampleCount_eq (alike : left.Alike right) (child : String) :
    left.sampleCount child = right.sampleCount child := by
  unfold sampleCount
  rcases alike.edges.cases_find? child with
    ⟨leftAbsent, rightAbsent⟩ | ⟨first, second, leftFound, rightFound, same⟩
  · rw [leftAbsent, rightAbsent]
  · rw [leftFound, rightFound]
    dsimp only
    rw [← Track.samples_forgetHint, (Edge.forgetHint_eq_iff.1 same).2.2, Track.samples_forgetHint]

variable [Scalar α]

theorem recompute_eq (alike : left.Alike right) (leftConsistent : left.Consistent)
    (rightConsistent : right.Consistent) : left.recompute = right.recompute := by
  funext question
  rw [Forest.recompute_eq, Forest.recompute_eq,
    alike.graph.route_eq leftConsistent.isForest rightConsistent.isForest]
  cases right.graph.route question.source question.target with
  | error failure => rfl
  | ok route =>
      dsimp only
      rw [fst_traverse_bare leftConsistent.keyed, fst_traverse_bare rightConsistent.keyed,
        fst_traverse_congr right leftConsistent.keyed alike.graph.parents alike.tolerance_eq
          alike.edges]

end Alike

/-! ## Forests that differ in hints and memo -/

section Bare

variable {left right : Forest α}

theorem bare_accept_congr (same : left.bare = right.bare) (arrival : Arrival α)
    (change : ParentChange) (graph : FrameGraph) :
    (left.accept arrival change graph).bare = (right.accept arrival change graph).bare := by
  obtain ⟨settings, _, edges⟩ := bare_eq_iff.1 same
  refine bare_eq_iff.2 ⟨settings, rfl, ?_⟩
  unfold accept
  dsimp only
  rw [EdgeTable.forgetHints_put, EdgeTable.forgetHints_put, ParentChange.forgetHints_prune,
    ParentChange.forgetHints_prune, edges, ((alike_of_bare_eq same.symm).take arrival change).2]

/-- Recording goes by what is there without hints and memo. -/
theorem recordIn_of_bare_eq (same : left.bare = right.bare) (arrival : Arrival α) :
    (arrival.recordIn left).result.1 = (arrival.recordIn right).result.1 ∧
      (arrival.recordIn left).result.2.bare = (arrival.recordIn right).result.2.bare := by
  have alike := alike_of_bare_eq same.symm
  rw [recordIn_result, recordIn_result, graph_eq_of_bare_eq same, alike.reparenting_eq]
  cases right.graph.setParent arrival.parent arrival.child right.settings.reparenting with
  | error failure => exact ⟨rfl, same⟩
  | ok accepted =>
      obtain ⟨change, graph⟩ := accepted
      dsimp only
      rw [(alike.take arrival change).1]
      exact ⟨rfl, bare_accept_congr same arrival change graph⟩

end Bare

/-! ## Soundness of the changes -/

variable [Scalar α] {forest : Forest α}

namespace Sound

theorem empty (settings : Settings) : (Forest.empty (α := α) settings).Sound :=
  ⟨.empty settings, coherent_of_forgotten fun _ => rfl⟩

/-- A further frame can give an answer where there was none, and changes no other. -/
theorem register (sound : forest.Sound) (frame : String) : (forest.register frame).Sound where
  consistent := sound.consistent.register frame
  coherent := by
    intro question motion recalled
    have computed := sound.coherent question motion recalled
    rw [recompute_eq] at computed ⊢
    cases found : forest.graph.route question.source question.target with
    | error failure =>
        rw [found] at computed
        cases computed
    | ok route =>
        have kept : (forest.register frame).graph.route question.source question.target =
            .ok route := sound.consistent.isForest.route_register found frame
        have parents : ∀ child, (forest.register frame).bare.graph.parent? child =
            forest.bare.graph.parent? child := FrameGraph.parent?_register frame
        rw [found] at computed
        rw [kept]
        dsimp only at computed ⊢
        rwa [fst_traverse_congr forest.bare (sound.consistent.register frame).bare.keyed parents rfl
          (fun _ => rfl)]

/-- The memo is dropped, unless nothing has changed. -/
theorem recordIn (sound : forest.Sound) (arrival : Arrival α) :
    (arrival.recordIn forest).result.2.Sound := by
  rw [recordIn_result]
  cases told : forest.graph.setParent arrival.parent arrival.child forest.settings.reparenting with
  | error failure => exact sound
  | ok accepted =>
      obtain ⟨change, next⟩ := accepted
      have accepted := FrameGraph.accepts_of_setParent told
      show (forest.accept arrival change next).Sound
      by_cases dropped : (forest.take arrival change).1 = .dropped
      · rw [sound.consistent.accept_eq_self accepted dropped]
        exact sound
      · have memo : (forest.accept arrival change next).memo = forest.memo.forget :=
          if_neg dropped
        refine ⟨sound.consistent.accept accepted, coherent_of_forgotten fun question => ?_⟩
        rw [memo, Memo.remembered?_forget]

end Sound

end Forest

end FrameForest
