import Mathlib.Data.List.Chain
import Mathlib.Data.List.DropRight
import Mathlib.Data.List.Induction

/-!
# Histories

Runs are described by what happened, the latest event at the end.  Three notions
recur: what happened since the last event of some kind, how often something
happened that is judged by all that went before, and values that change with
every event.
-/

namespace FrameForest

variable {β γ : Type}

/-- What happened after the last event that stops. -/
def since (stops : β → Bool) (events : List β) : List β :=
  events.rtakeWhile fun event => ! stops event

/-- How many events pass a test that also sees what happened before them. -/
def countAlong (test : List β → β → Bool) (events : List β) : Nat :=
  (List.range events.length).countP fun place => events[place]?.any (test (events.take place))

section Since

variable {stops : β → Bool} (events : List β) {event : β}

theorem since_concat_of_stops (here : stops event = true) : since stops (events ++ [event]) = [] :=
  List.rtakeWhile_concat_neg _ _ _ (by simp [here])

theorem since_concat (goes : stops event = false) :
    since stops (events ++ [event]) = since stops events ++ [event] :=
  List.rtakeWhile_concat_pos _ _ _ (by simp [goes])

end Since

/-- A list that is short enough is its own end. -/
theorem rtake_of_length_le {events : List β} {count : Nat} (few : events.length ≤ count) :
    events.rtake count = events := by
  rw [List.rtake, Nat.sub_eq_zero_of_le few, List.drop_zero]

theorem filterMap_concat (pick : β → Option γ) (events : List β) (event : β) :
    (events ++ [event]).filterMap pick = events.filterMap pick ++ (pick event).toList := by
  rw [List.filterMap_append]
  cases told : pick event <;> simp [told]

/-- What comes later has no part in what was counted before. -/
theorem countAlong_concat (test : List β → β → Bool) (events : List β) (event : β) :
    countAlong test (events ++ [event]) =
      countAlong test events + if test events event then 1 else 0 := by
  have before : ∀ place ∈ List.range events.length,
      (events ++ [event])[place]? = events[place]? ∧
        (events ++ [event]).take place = events.take place := by
    intro place member
    have inside := List.mem_range.1 member
    exact ⟨List.getElem?_append_left inside, List.take_append_of_le_length inside.le⟩
  unfold countAlong
  rw [List.length_append, List.length_singleton, List.range_succ, List.countP_append,
    List.countP_singleton, List.getElem?_concat_length, List.take_left]
  congr 1
  apply List.countP_congr
  intro place member
  rw [(before place member).1, (before place member).2]

/-- Each value differs from the one before it, the first one from `start`. -/
def Changing (start : β) (values : List β) : Prop :=
  (start :: values).IsChain (· ≠ ·)

theorem Changing.nil (start : β) : Changing start [] :=
  .singleton start

theorem Changing.concat {start value : β} {values : List β} (changing : Changing start values)
    (differs : values.getLast?.getD start ≠ value) : Changing start (values ++ [value]) := by
  apply List.IsChain.append changing (.singleton value)
  intro last atEnd next atStart
  rw [List.getLast?_cons, Option.mem_some_iff] at atEnd
  rw [List.head?_singleton, Option.mem_some_iff] at atStart
  rwa [← atEnd, ← atStart]

end FrameForest
