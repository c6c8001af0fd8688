import FrameForest.Proofs.Forest.Remembrance

/-!
# Forests that were asked in another order

A forest may be asked the same lookups and resolutions in one order or in another.
The hints and the remembered lookups may differ then, but no answer to a later call
does, nor how much is remembered and how often the memo was asked.
-/

namespace FrameForest

variable {α : Type}

/-- The call does nothing but ask. -/
def Call.asks : Call α → Bool
  | lookup _ | resolve _ _ => true
  | register _ | record _ | forgetLookups | jump _ | reset => false

theorem Call.isQuiet_of_asks {call : Call α} (asks : call.asks = true) : call.isQuiet = true := by
  cases call with
  | lookup question => rfl
  | resolve pose resolution => rfl
  | register frame => cases asks
  | record arrival => cases asks
  | forgetLookups => cases asks
  | jump previous => cases asks
  | reset => cases asks

namespace Forest

variable [Scalar α]

/-- Forests that differ in their hints and in which lookups they remember. -/
structure Twin (left right : Forest α) : Prop where
  bare : left.bare = right.bare
  leftSound : left.Sound
  rightSound : right.Sound
  memo : ∃ capacity leftEvents rightEvents, left.memo.Reflects capacity leftEvents ∧
    right.memo.Reflects capacity rightEvents ∧ MemoEvent.Alike leftEvents rightEvents

namespace Twin

variable {left right : Forest α}

theorem size_eq (twin : left.Twin right) : left.memo.entries.size = right.memo.entries.size := by
  obtain ⟨capacity, leftEvents, rightEvents, leftReflects, rightReflects, alike⟩ := twin.memo
  rw [leftReflects.size_eq, rightReflects.size_eq, alike.successes.dedup.length_eq]

theorem counted_eq (twin : left.Twin right) :
    left.memo.hits + left.memo.misses = right.memo.hits + right.memo.misses := by
  obtain ⟨capacity, leftEvents, rightEvents, leftReflects, rightReflects, alike⟩ := twin.memo
  rw [leftReflects.counted, rightReflects.counted, alike.linked]

theorem perform (twin : left.Twin right) (call : Call α) :
    (call.perform left).1 = (call.perform right).1 ∧
      (call.perform left).2.Twin (call.perform right).2 := by
  obtain ⟨capacity, leftEvents, rightEvents, leftReflects, rightReflects, alike⟩ := twin.memo
  have leftNext := twin.leftSound.reflects_perform leftReflects call
  have rightNext := twin.rightSound.reflects_perform rightReflects call
  rw [events_of_bare_eq twin.bare] at leftNext
  constructor
  · exact ((alike_of_bare_eq twin.bare.symm).perform twin.leftSound twin.rightSound call).1
  · constructor
    case bare => exact bare_perform_of_bare_eq twin.bare twin.leftSound twin.rightSound call
    case leftSound => exact twin.leftSound.perform call
    case rightSound => exact twin.rightSound.perform call
    case memo => exact ⟨capacity, _, _, leftNext, rightNext, alike.append _⟩

theorem run (twin : left.Twin right) (calls : List (Call α)) :
    (left.run calls).1 = (right.run calls).1 ∧ (left.run calls).2.Twin (right.run calls).2 := by
  induction calls generalizing left right with
  | nil => exact ⟨rfl, twin⟩
  | cons call rest ih =>
      obtain ⟨told, next⟩ := twin.perform call
      obtain ⟨answers, last⟩ := ih next
      exact ⟨List.cons_eq_cons.2 ⟨told, answers⟩, last⟩

end Twin

variable {forest : Forest α} {calls : List (Call α)}

theorem bare_run_of_asks (sound : forest.Sound) (asks : ∀ call ∈ calls, call.asks = true) :
    (forest.run calls).2.bare = forest.bare := by
  induction calls generalizing forest with
  | nil => rfl
  | cons call rest ih =>
      have first := bare_perform_of_isQuiet sound (Call.isQuiet_of_asks (asks call (by simp)))
      exact (ih (sound.perform call) fun other member => asks other (by simp [member])).trans first

/-- What the calls of a run ask they would also have asked at its start. -/
theorem history_of_asks (sound : forest.Sound) (asks : ∀ call ∈ calls, call.asks = true) :
    forest.history calls =
      ((calls.flatMap (·.questions forest)).map forest.inquire).map .asked := by
  induction calls generalizing forest with
  | nil => rfl
  | cons call rest ih =>
      have asking := asks call (by simp)
      have kept := bare_perform_of_isQuiet sound (Call.isQuiet_of_asks asking)
      have further := ih (sound.perform call) fun other member => asks other (by simp [member])
      have first : call.events forest =
          ((call.questions forest).map forest.inquire).map .asked := by
        have holds : call.forgets forest = false := by
          cases call with
          | lookup question => rfl
          | resolve pose resolution => rfl
          | register frame => cases asking
          | record arrival => cases asking
          | forgetLookups => cases asking
          | jump previous => cases asking
          | reset => cases asking
        rw [Call.events, holds, List.map_map]
        rfl
      rw [history, first, further, inquire_of_bare_eq kept,
        funext (questions_of_bare_eq kept), List.flatMap_cons, List.map_append, List.map_append]

/-- It does not matter in which order a forest is asked. -/
theorem twin_run_of_perm (sound : forest.Sound) {capacity : Nat} {events : List (MemoEvent α)}
    (reflects : forest.memo.Reflects capacity events) {others : List (Call α)}
    (asks : ∀ call ∈ calls, call.asks = true) (perm : calls.Perm others) :
    (forest.run calls).2.Twin (forest.run others).2 := by
  have othersAsk : ∀ call ∈ others, call.asks = true :=
    fun call member => asks call (perm.mem_iff.2 member)
  have reflectsCalls := sound.reflects_run reflects calls
  have reflectsOthers := sound.reflects_run reflects others
  rw [history_of_asks sound asks] at reflectsCalls
  rw [history_of_asks sound othersAsk] at reflectsOthers
  constructor
  case bare =>
    exact (bare_run_of_asks sound asks).trans (bare_run_of_asks sound othersAsk).symm
  case leftSound => exact sound.run calls
  case rightSound => exact sound.run others
  case memo =>
    refine ⟨capacity, _, _, reflectsCalls, reflectsOthers, ?_⟩
    exact MemoEvent.alike_of_perm ((perm.flatMap_right _).map _)

end Forest

end FrameForest
