import FrameForest.Proofs.Diagnosis.Boards
import FrameForest.Proofs.Histories

/-!
# What a watch passes on

A watch remembers what a board shows that hears every call.  It drops the calls
that would leave the board as it is and passes on all others.  The sink behind
it therefore hears of nothing but changes, and a board behind it ends up the
same as if nothing had been dropped.
-/

namespace FrameForest

namespace SinkCall

/-- Enters what the path of the call shows from now on. -/
def enter (call : SinkCall) (shown : Table SettingPath MissingReason) :
    Table SettingPath MissingReason :=
  match call with
  | report path reason => shown.insert path reason
  | clear path => shown.erase path

/-- The calls about one path. -/
def about (path : SettingPath) (calls : List SinkCall) : List SinkCall :=
  calls.filter fun call => call.path = path

/-- The calls that a new watch passes on. -/
def passedOn (calls : List SinkCall) : List SinkCall :=
  (calls.foldl send (Watch.around ([] : List SinkCall))).sink

theorem about_concat (path : SettingPath) (calls : List SinkCall) (call : SinkCall) :
    about path (calls ++ [call]) =
      if call.path = path then about path calls ++ [call] else about path calls := by
  rw [about, List.filter_append, List.filter_singleton]
  split <;> simp_all [about]

end SinkCall

open SinkCall

namespace Board

variable {board : Board} {call : SinkCall}

theorem send_eq_self (known : board.active.find? call.path = call.shown) :
    call.send board = board := by
  cases call with
  | report path reason => exact if_pos known
  | clear path =>
      have dark : ¬board.active.contains path = true := Option.not_isSome_iff_eq_none.2 known
      exact if_neg dark

theorem active_send (news : board.active.find? call.path ≠ call.shown) :
    (call.send board).active = call.enter board.active := by
  cases call with
  | report path reason => exact congrArg active (if_neg news)
  | clear path =>
      have shows : board.active.contains path = true := Option.isSome_iff_ne_none.2 news
      exact congrArg active (if_pos shows)

/-- A board shows for a path what the last call about it said. -/
theorem find?_active_after (calls : List SinkCall) (path : SettingPath) :
    (calls.foldl send empty).active.find? path =
      ((about path calls).map shown).getLast?.getD none := by
  induction calls using List.reverseRecOn with
  | nil => rfl
  | append_singleton calls call ih =>
      rw [List.foldl_append, about_concat]
      by_cases here : call.path = path
      · rw [if_pos here, List.map_append, List.map_singleton, List.getLast?_concat]
        exact (find?_send _ _ path).trans (if_pos here.symm)
      · rw [if_neg here, ← ih]
        exact (find?_send _ _ path).trans (if_neg (Ne.symm here))

end Board

namespace Watch

variable {σ : Type} [DiagnosisSink σ] {watch : Watch σ} {call : SinkCall}

theorem send_eq_self (known : watch.failing.find? call.path = call.shown) :
    call.send watch = watch := by
  cases call with
  | report path reason => exact if_pos known
  | clear path =>
      have dark : ¬watch.failing.contains path = true := Option.not_isSome_iff_eq_none.2 known
      exact if_neg dark

theorem send_of_news (news : watch.failing.find? call.path ≠ call.shown) :
    call.send watch = ⟨call.send watch.sink, call.enter watch.failing⟩ := by
  cases call with
  | report path reason => exact if_neg news
  | clear path =>
      have shows : watch.failing.contains path = true := Option.isSome_iff_ne_none.2 news
      exact if_pos shows

/-- A watch remembers what a board would show, whatever sink it stands in front of. -/
theorem failing_after (sink : σ) (calls : List SinkCall) :
    (calls.foldl send (around sink)).failing = (calls.foldl send Board.empty).active := by
  induction calls using List.reverseRecOn with
  | nil => rfl
  | append_singleton calls call ih =>
      rw [List.foldl_append, List.foldl_append]
      by_cases known : (calls.foldl send Board.empty).active.find? call.path = call.shown
      · have remembered := known
        rw [← ih] at remembered
        exact (congrArg failing (send_eq_self remembered)).trans
          (ih.trans (congrArg Board.active (Board.send_eq_self known).symm))
      · have unknown := known
        rw [← ih] at unknown
        calc
          (call.send (calls.foldl send (around sink))).failing
              = call.enter (calls.foldl send (around sink)).failing :=
            congrArg failing (send_of_news unknown)
          _ = call.enter (calls.foldl send Board.empty).active := congrArg call.enter ih
          _ = (call.send (calls.foldl send Board.empty)).active := (Board.active_send known).symm

/-- The sink hears of a call exactly if a board would be changed by it. -/
theorem sink_concat (sink : σ) (calls : List SinkCall) (call : SinkCall) :
    ((calls ++ [call]).foldl send (around sink)).sink =
      if (calls.foldl send Board.empty).active.find? call.path = call.shown then
        (calls.foldl send (around sink)).sink
      else call.send (calls.foldl send (around sink)).sink := by
  rw [List.foldl_append, ← failing_after sink]
  split
  case isTrue known => exact congrArg Watch.sink (send_eq_self known)
  case isFalse news => exact congrArg Watch.sink (send_of_news news)

end Watch

namespace SinkCall

/-- The last call is passed on exactly if it changes what its path shows. -/
theorem passedOn_concat (calls : List SinkCall) (call : SinkCall) :
    passedOn (calls ++ [call]) =
      if (calls.foldl send Board.empty).active.find? call.path = call.shown then passedOn calls
      else passedOn calls ++ [call] := by
  rw [passedOn, Watch.sink_concat]
  cases call <;> rfl

theorem passedOn_sublist (calls : List SinkCall) : (passedOn calls).Sublist calls := by
  induction calls using List.reverseRecOn with
  | nil => exact .slnil
  | append_singleton calls call ih =>
      rw [passedOn_concat]
      split
      case isTrue => exact ih.trans (List.sublist_append_left _ _)
      case isFalse => exact ih.append (.refl _)

/-- A board behind the watch ends up as if it had heard every call. -/
theorem foldl_passedOn (calls : List SinkCall) :
    (passedOn calls).foldl send Board.empty = calls.foldl send Board.empty := by
  induction calls using List.reverseRecOn with
  | nil => rfl
  | append_singleton calls call ih =>
      rw [passedOn_concat, List.foldl_append]
      split
      case isTrue known => exact ih.trans (Board.send_eq_self known).symm
      case isFalse => rw [List.foldl_append, ih]

theorem changing_passedOn (calls : List SinkCall) (path : SettingPath) :
    Changing none ((about path (passedOn calls)).map shown) := by
  induction calls using List.reverseRecOn with
  | nil => exact .nil none
  | append_singleton calls call ih =>
      rw [passedOn_concat]
      split
      case isTrue => exact ih
      case isFalse news =>
        rw [about_concat]
        split
        case isFalse => exact ih
        case isTrue here =>
          rw [List.map_append, List.map_singleton]
          apply ih.concat
          rwa [← Board.find?_active_after, foldl_passedOn, ← here]

/-- Calls about one path, none of which leaves it as it was. -/
structure Transitions (path : SettingPath) (calls : List SinkCall) : Prop where
  begins : ∀ call ∈ calls.head?, ∃ reason, call = .report path reason
  differ : calls.IsChain fun before after =>
    ∀ reason, before = .report path reason → after ≠ .report path reason
  recovers : calls.IsChain fun before after =>
    after = .clear path → ∃ reason, before = .report path reason

theorem Transitions.of_changing {path : SettingPath} {calls : List SinkCall}
    (own : ∀ call ∈ calls, call.path = path) (changing : Changing none (calls.map shown)) :
    Transitions path calls := by
  have lit : ∀ call ∈ calls, call.shown ≠ none → ∃ reason, call = .report path reason := by
    intro call member shows
    cases call with
    | report target reason =>
        cases own _ member
        exact ⟨reason, rfl⟩
    | clear target => exact absurd rfl shows
  have steps : calls.IsChain fun before after => before.shown ≠ after.shown :=
    (List.isChain_map shown).1 changing.tail
  constructor
  case begins =>
    intro call first
    apply lit call (List.mem_of_mem_head? first)
    apply Ne.symm
    apply (List.isChain_cons.1 changing).1
    rw [List.head?_map]
    exact Option.mem_map_of_mem shown first
  case differ =>
    apply steps.imp
    rintro before after changes reason rfl rfl
    exact changes rfl
  case recovers =>
    apply List.IsChain.imp_of_mem_imp _ steps
    rintro before after member _ changes rfl
    exact lit before member changes

theorem transitions_passedOn (calls : List SinkCall) (path : SettingPath) :
    Transitions path (about path (passedOn calls)) := by
  apply Transitions.of_changing _ (changing_passedOn calls path)
  intro call member
  simpa using (List.mem_filter.1 member).2

end SinkCall

namespace Watch

variable {σ : Type} [DiagnosisSink σ]

/-- The sink behind a watch hears exactly what the watch passes on, whatever kind of sink it is. -/
theorem sink_after (sink : σ) (calls : List SinkCall) :
    (calls.foldl send (around sink)).sink = (passedOn calls).foldl send sink := by
  induction calls using List.reverseRecOn with
  | nil => rfl
  | append_singleton calls call ih =>
      rw [sink_concat, passedOn_concat, ih]
      split
      case isTrue => rfl
      case isFalse => exact (List.foldl_concat send sink call (passedOn calls)).symm

/-- A watch that was put in front of a sink, and has got some calls and passed on others. -/
structure Transparent (watch : Watch σ) (sink : σ) (calls passed : List SinkCall) : Prop where
  hears : watch.sink = passed.foldl send sink
  sublist : passed.Sublist calls
  /-- What is shown, and how often something was raised or removed, is as if all had been passed. -/
  replay : passed.foldl send Board.empty = calls.foldl send Board.empty
  transitions : ∀ path, Transitions path (about path passed)
  isFailing : ∀ path, watch.isFailing path = (passed.foldl send Board.empty).isActive path
  failingCount : watch.failingCount = (passed.foldl send Board.empty).active.size

/-- Every watch is transparent and passes on transitions only. -/
theorem transparent_after (sink : σ) (calls : List SinkCall) :
    (calls.foldl send (around sink)).Transparent sink calls (passedOn calls) where
  hears := sink_after sink calls
  sublist := passedOn_sublist calls
  replay := foldl_passedOn calls
  transitions := transitions_passedOn calls
  isFailing := by
    intro path
    rw [foldl_passedOn, isFailing, failing_after]
    rfl
  failingCount := by
    rw [foldl_passedOn, failingCount, failing_after]

end Watch

end FrameForest
