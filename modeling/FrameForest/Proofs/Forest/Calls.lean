import FrameForest.Proofs.Forest.Likeness

/-!
# Calls and runs

A run performs calls one after the other and lists their answers.  Every run from
an empty forest ends in a sound forest, and two sound forests that look alike
give the same answers to the same run.
-/

namespace FrameForest

variable {α : Type}

inductive Call (α : Type) where
  | register (frame : String)
  | record (arrival : Arrival α)
  | lookup (question : Lookup)
  | resolve (pose : Pose α) (resolution : Forest.Resolution)
  | forgetLookups
  | jump (previous : Stamp)
  | reset

inductive Answer (α : Type) where
  | done
  | recorded (recording : Except Failure Recording)
  | found (motion : Except Failure (Motion α))
  | placed (pose : Except ResolutionFailure (Pose α))

namespace Call

/-- The call leaves frames, parents and samples alone. -/
def isQuiet : Call α → Bool
  | lookup _ | resolve _ _ | forgetLookups | jump _ => true
  | register _ | record _ | reset => false

variable [Scalar α]

def perform (call : Call α) (forest : Forest α) : Answer α × Forest α :=
  match call with
  | register frame => (.done, forest.register frame)
  | record arrival => (arrival.recordIn forest).result.map .recorded id
  | lookup question =>
    (forest.lookup question.source question.target question.time).map .found id
  | resolve pose resolution => (forest.resolve pose resolution).map .placed id
  | forgetLookups => (.done, forest.forgetLookups)
  | jump previous => (.done, (forest.jump previous).result)
  | reset => (.done, forest.reset.result)

end Call

namespace Forest

theorem result_jump (forest : Forest α) (previous : Stamp) :
    (forest.jump previous).result =
      { forest with edges := forest.edges.forgetHints, memo := forest.memo.forget } := by
  unfold jump
  simp only [Journaled.result_bind, result_invalidate, Journaled.result_pure]

theorem result_reset (forest : Forest α) :
    forest.reset.result =
      { forest with graph := ∅, edges := ∅, memo := forest.memo.forget } := by
  unfold reset
  rw [Journaled.result_bind, result_invalidate]

variable [Scalar α]

/-- The answers to several calls, and the forest that they leave. -/
def run (forest : Forest α) : List (Call α) → List (Answer α) × Forest α
  | [] => ([], forest)
  | call :: rest =>
    ((call.perform forest).1 :: ((call.perform forest).2.run rest).1,
      ((call.perform forest).2.run rest).2)

/-- The forest that calls make of an empty one. -/
def after (settings : Settings) (calls : List (Call α)) : Forest α :=
  ((Forest.empty settings).run calls).2

variable {forest : Forest α}

theorem length_fst_run (forest : Forest α) (calls : List (Call α)) :
    (forest.run calls).1.length = calls.length := by
  induction calls generalizing forest with
  | nil => rfl
  | cons call rest ih => exact congrArg (· + 1) (ih _)

theorem run_append (forest : Forest α) (first second : List (Call α)) :
    forest.run (first ++ second) =
      ((forest.run first).1 ++ ((forest.run first).2.run second).1,
        ((forest.run first).2.run second).2) := by
  induction first generalizing forest with
  | nil => rfl
  | cons call rest ih =>
      rw [List.cons_append, run, ih]
      rfl

theorem perform_record_of_ok (arrival : Arrival α) {change : ParentChange} {graph : FrameGraph}
    (told : forest.graph.setParent arrival.parent arrival.child forest.settings.reparenting =
      .ok (change, graph)) :
    (Call.record arrival).perform forest =
      (.recorded (.ok (change.report (forest.take arrival change).1)),
        forest.accept arrival change graph) := by
  rw [Call.perform, recordIn_result, told]
  rfl

theorem bare_perform_of_isQuiet (sound : forest.Sound) {call : Call α}
    (quiet : call.isQuiet = true) : (call.perform forest).2.bare = forest.bare := by
  cases call with
  | lookup question => exact bare_lookup sound.consistent.keyed question
  | resolve pose resolution =>
      obtain ⟨next, told, kept, _⟩ := sound.resolve pose resolution
      rw [Call.perform, told]
      exact kept
  | forgetLookups => rfl
  | jump previous =>
      rw [Call.perform, result_jump]
      unfold bare
      rw [EdgeTable.forgetHints_forgetHints]
  | register frame => cases quiet
  | record arrival => cases quiet
  | reset => cases quiet

theorem bare_settings_perform (sound : forest.Sound) (call : Call α) :
    (call.perform forest).2.bare.settings = forest.bare.settings := by
  cases quiet : call.isQuiet with
  | true => rw [bare_perform_of_isQuiet sound quiet]
  | false =>
      cases call with
      | register frame => rfl
      | record arrival =>
          rw [Call.perform, recordIn_result]
          cases forest.graph.setParent arrival.parent arrival.child forest.settings.reparenting <;>
            rfl
      | reset =>
          rw [Call.perform, result_reset]
          rfl
      | lookup question => cases quiet
      | resolve pose resolution => cases quiet
      | forgetLookups => cases quiet
      | jump previous => cases quiet

theorem Sound.perform (sound : forest.Sound) (call : Call α) : (call.perform forest).2.Sound := by
  cases call with
  | register frame => exact sound.register frame
  | record arrival => exact sound.recordIn arrival
  | lookup question =>
      obtain ⟨next, told, _, nextSound⟩ := sound.lookup question
      rw [Call.perform, told]
      exact nextSound
  | resolve pose resolution =>
      obtain ⟨next, told, _, nextSound⟩ := sound.resolve pose resolution
      rw [Call.perform, told]
      exact nextSound
  | forgetLookups =>
      exact ⟨sound.consistent.of_agree rfl fun _ => rfl, coherent_of_forgotten fun _ => rfl⟩
  | jump previous =>
      rw [Call.perform, result_jump]
      exact ⟨sound.consistent.of_agree rfl (EdgeTable.agree_forgetHints forest.edges),
        coherent_of_forgotten fun _ => rfl⟩
  | reset =>
      rw [Call.perform, result_reset]
      exact ⟨(Consistent.empty forest.settings).of_agree rfl fun _ => rfl,
        coherent_of_forgotten fun _ => rfl⟩

theorem Sound.run (sound : forest.Sound) (calls : List (Call α)) : (forest.run calls).2.Sound := by
  induction calls generalizing forest with
  | nil => exact sound
  | cons call rest ih => exact ih (sound.perform call)

theorem bare_settings_run (sound : forest.Sound) (calls : List (Call α)) :
    (forest.run calls).2.bare.settings = forest.bare.settings := by
  induction calls generalizing forest with
  | nil => rfl
  | cons call rest ih =>
      exact (ih (sound.perform call)).trans (bare_settings_perform sound call)

theorem sound_after (settings : Settings) (calls : List (Call α)) :
    (after settings calls).Sound :=
  (Sound.empty settings).run calls

theorem fst_lookup_after (settings : Settings) (calls : List (Call α)) (question : Lookup) :
    ((after settings calls).lookup question.source question.target question.time).1 =
      (after settings calls).recompute question := by
  obtain ⟨next, told, _⟩ := (sound_after settings calls).lookup question
  rw [told]

theorem fst_resolve_after (settings : Settings) (calls : List (Call α)) (pose : Pose α)
    (resolution : Resolution) :
    ((after settings calls).resolve pose resolution).1 =
      placed (after settings calls).recompute pose resolution := by
  obtain ⟨next, told, _⟩ := (sound_after settings calls).resolve pose resolution
  rw [told]

variable {left right : Forest α}

theorem Alike.perform (alike : left.Alike right) (leftSound : left.Sound) (rightSound : right.Sound)
    (call : Call α) :
    (call.perform left).1 = (call.perform right).1 ∧
      (call.perform left).2.Alike (call.perform right).2 := by
  have computed := alike.recompute_eq leftSound.consistent rightSound.consistent
  cases call with
  | register frame => exact ⟨rfl, alike.register frame⟩
  | record arrival =>
      obtain ⟨told, next⟩ :=
        alike.recordIn leftSound.consistent.isForest rightSound.consistent.isForest arrival
      exact ⟨congrArg Answer.recorded told, next⟩
  | lookup question =>
      obtain ⟨leftNext, leftTold, leftKept, _⟩ := leftSound.lookup question
      obtain ⟨rightNext, rightTold, rightKept, _⟩ := rightSound.lookup question
      rw [Call.perform, Call.perform, leftTold, rightTold, computed]
      exact ⟨rfl, ((alike_of_bare_eq leftKept).symm.trans alike).trans (alike_of_bare_eq rightKept)⟩
  | resolve pose resolution =>
      obtain ⟨leftNext, leftTold, leftKept, _⟩ := leftSound.resolve pose resolution
      obtain ⟨rightNext, rightTold, rightKept, _⟩ := rightSound.resolve pose resolution
      rw [Call.perform, Call.perform, leftTold, rightTold, computed]
      exact ⟨rfl, ((alike_of_bare_eq leftKept).symm.trans alike).trans (alike_of_bare_eq rightKept)⟩
  | forgetLookups => exact ⟨rfl, alike.settings, alike.graph, alike.edges⟩
  | jump previous =>
      rw [Call.perform, Call.perform, result_jump, result_jump]
      refine ⟨rfl, alike.settings, alike.graph, ?_⟩
      exact ((EdgeTable.agree_forgetHints left.edges).symm.trans alike.edges).trans
        (EdgeTable.agree_forgetHints right.edges)
  | reset =>
      rw [Call.perform, Call.perform, result_reset, result_reset]
      exact ⟨rfl, alike.settings, .refl _, fun _ => rfl⟩

theorem Alike.run (alike : left.Alike right) (leftSound : left.Sound) (rightSound : right.Sound)
    (calls : List (Call α)) :
    (left.run calls).1 = (right.run calls).1 ∧ (left.run calls).2.Alike (right.run calls).2 := by
  induction calls generalizing left right with
  | nil => exact ⟨rfl, alike⟩
  | cons call rest ih =>
      obtain ⟨told, next⟩ := alike.perform leftSound rightSound call
      obtain ⟨answers, last⟩ := ih next (leftSound.perform call) (rightSound.perform call)
      exact ⟨List.cons_eq_cons.2 ⟨told, answers⟩, last⟩

theorem bare_perform_of_bare_eq (same : left.bare = right.bare) (leftSound : left.Sound)
    (rightSound : right.Sound) (call : Call α) :
    (call.perform left).2.bare = (call.perform right).2.bare := by
  cases quiet : call.isQuiet with
  | true =>
      rw [bare_perform_of_isQuiet leftSound quiet, bare_perform_of_isQuiet rightSound quiet, same]
  | false =>
      obtain ⟨settings, graph, edges⟩ := bare_eq_iff.1 same
      cases call with
      | register frame =>
          exact bare_eq_iff.2 ⟨settings, congrArg (FrameGraph.register · frame) graph, edges⟩
      | record arrival => exact (recordIn_of_bare_eq same arrival).2
      | reset =>
          rw [Call.perform, Call.perform, result_reset, result_reset]
          exact bare_eq_iff.2 ⟨settings, rfl, rfl⟩
      | lookup question => cases quiet
      | resolve pose resolution => cases quiet
      | forgetLookups => cases quiet
      | jump previous => cases quiet

/-- Forests that differ in hints and memo give the same answers, and go on to differ in these. -/
theorem run_of_bare_eq (same : left.bare = right.bare) (leftSound : left.Sound)
    (rightSound : right.Sound) (calls : List (Call α)) :
    (left.run calls).1 = (right.run calls).1 ∧
      (left.run calls).2.bare = (right.run calls).2.bare := by
  refine ⟨((alike_of_bare_eq same.symm).run leftSound rightSound calls).1, ?_⟩
  induction calls generalizing left right with
  | nil => exact same
  | cons call rest ih =>
      exact ih (bare_perform_of_bare_eq same leftSound rightSound call) (leftSound.perform call)
        (rightSound.perform call)

end Forest

end FrameForest
