import FrameForest.Proofs.Forest.Calls

/-!
# Remembering is invisible

Lookups, resolutions, jumps and dropped memos may be strewn into a run, and the
memo may have any capacity or none: the other calls of the run cannot tell.  Each
of its answers is the one of the same run without the extra calls, and a memo
never answers anything but what would be computed at that moment.
-/

namespace FrameForest

variable {α : Type}

/-- A call, and whether its run has it in common with the runs that it is compared to. -/
structure Step (α : Type) where
  call : Call α
  shared : Bool

namespace Step

def sharedCalls (steps : List (Step α)) : List (Call α) :=
  (steps.filter Step.shared).map Step.call

theorem sharedCalls_cons (step : Step α) (rest : List (Step α)) :
    sharedCalls (step :: rest) =
      if step.shared then step.call :: sharedCalls rest else sharedCalls rest := by
  cases shared : step.shared <;> simp [sharedCalls, shared]

/-- The calls that are not shared are quiet. -/
def ExtrasQuiet (steps : List (Step α)) : Prop :=
  ∀ step ∈ steps, step.shared = false → step.call.isQuiet = true

end Step

namespace Forest

variable [Scalar α]

/-- The answers to the shared calls of a run. -/
def sharedAnswers (forest : Forest α) (steps : List (Step α)) : List (Answer α) :=
  ((steps.zip (forest.run (steps.map Step.call)).1).filter fun told => told.1.shared).map Prod.snd

theorem sharedAnswers_cons (forest : Forest α) (step : Step α) (rest : List (Step α)) :
    forest.sharedAnswers (step :: rest) =
      if step.shared then
        (step.call.perform forest).1 :: (step.call.perform forest).2.sharedAnswers rest
      else (step.call.perform forest).2.sharedAnswers rest := by
  cases shared : step.shared <;> simp [sharedAnswers, run, shared]

/-- Without its extra calls a run gives the same answers. -/
theorem sharedAnswers_eq_run {forest : Forest α} (sound : forest.Sound) {steps : List (Step α)}
    (quiet : Step.ExtrasQuiet steps) :
    forest.sharedAnswers steps = (forest.run (Step.sharedCalls steps)).1 := by
  induction steps generalizing forest with
  | nil => rfl
  | cons step rest ih =>
      have quietRest : Step.ExtrasQuiet rest :=
        fun other member => quiet other (List.mem_cons_of_mem _ member)
      have further := ih (sound.perform step.call) quietRest
      rw [sharedAnswers_cons, further, Step.sharedCalls_cons]
      cases shared : step.shared with
      | true => rfl
      | false =>
          have kept := bare_perform_of_isQuiet sound (quiet step List.mem_cons_self shared)
          have answers := (alike_of_bare_eq kept).run sound (sound.perform step.call)
            (Step.sharedCalls rest)
          exact answers.1.symm

omit [Scalar α] in
theorem alike_empty {settings other : Settings}
    (same : { settings with memoCapacity := 0 } = { other with memoCapacity := 0 }) :
    (Forest.empty (α := α) settings).Alike (Forest.empty other) :=
  ⟨same, .refl _, fun _ => rfl⟩

/-- Two runs with the same shared calls answer these alike, whatever else they ask, however often
they jump or drop what they remember, and however much they can remember.  What a memo holds is
what the samples of that moment answer. -/
theorem remembering_invisible {settings other : Settings}
    (same : { settings with memoCapacity := 0 } = { other with memoCapacity := 0 })
    {left right : List (Step α)} (leftQuiet : Step.ExtrasQuiet left)
    (rightQuiet : Step.ExtrasQuiet right)
    (shared : Step.sharedCalls left = Step.sharedCalls right) :
    (Forest.empty settings).sharedAnswers left = (Forest.empty other).sharedAnswers right ∧
      ∀ (calls : List (Call α)) (question : Lookup),
        (∀ motion, (after settings calls).memo.remembered? question = some motion →
          (after settings calls).recompute question = .ok motion) ∧
        ((after settings calls).lookup question.source question.target question.time).1 =
          (after settings calls).recompute question := by
  constructor
  · have leftSound : (Forest.empty (α := α) settings).Sound := .empty settings
    have rightSound : (Forest.empty (α := α) other).Sound := .empty other
    rw [sharedAnswers_eq_run leftSound leftQuiet, sharedAnswers_eq_run rightSound rightQuiet,
      shared]
    exact ((alike_empty same).run leftSound rightSound _).1
  · intro calls question
    exact ⟨(sound_after settings calls).coherent question, fst_lookup_after settings calls question⟩

/-- A robot on a map, looked up once more in between, and again without a memo after a jump. -/
theorem remembering_invisible_robot :
    (Forest.empty (α := Float) .standard).sharedAnswers
        [⟨.record (.timed ⟨"map", "robot", ⟨5⟩, 1⟩), true⟩,
          ⟨.lookup ⟨"robot", "map", ⟨5⟩⟩, false⟩,
          ⟨.lookup ⟨"robot", "map", ⟨5⟩⟩, true⟩] =
      (Forest.empty { Settings.standard with memoCapacity := 0 }).sharedAnswers
        [⟨.record (.timed ⟨"map", "robot", ⟨5⟩, 1⟩), true⟩,
          ⟨.jump ⟨7⟩, false⟩,
          ⟨.lookup ⟨"robot", "map", ⟨5⟩⟩, true⟩] := by
  refine (remembering_invisible (α := Float) ?same ?left ?right ?shared).1
  case same => rfl
  case left => simp [Step.ExtrasQuiet, Call.isQuiet]
  case right => simp [Step.ExtrasQuiet, Call.isQuiet]
  case shared => rfl

end Forest

end FrameForest
