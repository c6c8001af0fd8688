import FrameForest.Proofs.Geometry.Exact
import FrameForest.Proofs.Edge.Readings

/-!
# Queries do not extrapolate

In exact arithmetic an answer lies, in every coordinate, between the samples next
to the time.  So a coordinate that never falls from sample to sample never falls
from answer to answer either, whether the times are stamps, lie between two of
them or beyond the ends.
-/

namespace FrameForest

inductive Axis where
  | x
  | y
  | z

def Vector3.along {α : Type} (v : Vector3 α) : Axis → α
  | .x => v.x
  | .y => v.y
  | .z => v.z

namespace History

variable {α : Type} {history : History α} {time later : Stamp}

/-- The sample is retained, and on its side of the time none is nearer. -/
def Nearest (history : History α) (time : Stamp) (sample : Sample α) : Prop :=
  sample ∈ history.samples ∧
    (sample.stamp ≤ time ∧
        (∀ other ∈ history.samples, other.stamp ≤ time → other.stamp ≤ sample.stamp) ∨
      time ≤ sample.stamp ∧
        ∀ other ∈ history.samples, time ≤ other.stamp → sample.stamp ≤ other.stamp)

/-- From sample to sample the coordinate never falls. -/
def Rises [LE α] (history : History α) (axis : Axis) : Prop :=
  ∀ earlier ∈ history.samples, ∀ later ∈ history.samples, earlier.stamp ≤ later.stamp →
    earlier.motion.offset.along axis ≤ later.motion.offset.along axis

/-- How the offsets of answers compare with those of the samples, and with each other. -/
structure Steady [Scalar α] (history : History α) : Prop where
  bounded : ∀ time tolerance motion, (history.query time tolerance).1 = some motion →
    ∀ axis, ∃ low high, history.Nearest time low ∧ history.Nearest time high ∧
      low.motion.offset.along axis ≤ motion.offset.along axis ∧
      motion.offset.along axis ≤ high.motion.offset.along axis
  monotone : ∀ axis, history.Rises axis →
    ∀ time later tolerance laterTolerance motion laterMotion, time ≤ later →
      (history.query time tolerance).1 = some motion →
      (history.query later laterTolerance).1 = some laterMotion →
        motion.offset.along axis ≤ laterMotion.offset.along axis

/-! ## The samples around a time -/

theorem nearest_of_stored {sample : Sample α} (member : sample ∈ history.samples)
    (stamp : sample.stamp = time) : history.Nearest time sample := by
  refine ⟨member, .inl ⟨?_, ?_⟩⟩ <;> grind

theorem le_of_earliest? {first sample : Sample α} (starts : history.earliest? = some first)
    (member : sample ∈ history.samples) : first.stamp ≤ sample.stamp := by
  obtain ⟨_, _, same, _, early, _⟩ := exists_ends_of_mem member
  rw [starts] at same
  cases same
  exact early

theorem le_of_latest? {last sample : Sample α} (ends : history.latest? = some last)
    (member : sample ∈ history.samples) : sample.stamp ≤ last.stamp := by
  obtain ⟨_, _, _, same, _, late⟩ := exists_ends_of_mem member
  rw [ends] at same
  cases same
  exact late

theorem nearest_of_earliest? {first : Sample α} (starts : history.earliest? = some first)
    (before : time < first.stamp) : history.Nearest time first := by
  refine ⟨List.mem_of_head? starts, .inr ⟨Std.le_of_lt before, fun other member _ => ?_⟩⟩
  exact le_of_earliest? starts member

theorem nearest_of_latest? {last : Sample α} (ends : history.latest? = some last)
    (after : last.stamp < time) : history.Nearest time last := by
  refine ⟨List.mem_of_getLast? ends, .inl ⟨Std.le_of_lt after, fun other member _ => ?_⟩⟩
  exact le_of_latest? ends member

namespace Encloses

variable {before after : Sample α} (encloses : history.Encloses before after time)

include encloses

theorem mem_before : before ∈ history.samples :=
  encloses.adjacent.subset List.mem_cons_self

theorem mem_after : after ∈ history.samples :=
  encloses.adjacent.subset (List.mem_cons_of_mem _ List.mem_cons_self)

/-- No sample lies between two that follow each other. -/
theorem le_or_le {sample : Sample α} (member : sample ∈ history.samples) :
    sample.stamp ≤ before.stamp ∨ after.stamp ≤ sample.stamp := by
  obtain ⟨lower, upper, split⟩ := encloses.adjacent
  have ordered := history.ordered
  rw [← split] at ordered member
  grind

theorem nearest_before : history.Nearest time before := by
  have started := encloses.started
  have unfinished := encloses.unfinished
  refine ⟨encloses.mem_before, .inl ⟨by grind, fun other member notLater => ?_⟩⟩
  have apart := encloses.le_or_le member
  grind

theorem nearest_after : history.Nearest time after := by
  have started := encloses.started
  have unfinished := encloses.unfinished
  refine ⟨encloses.mem_after, .inr ⟨by grind, fun other member notEarlier => ?_⟩⟩
  have apart := encloses.le_or_le member
  grind

end Encloses

end History

/-! ## Mixing -/

section Mixing

variable {α : Type} [ExactScalar α]

theorem Vector3.along_lerp (start stop : Vector3 α) (share : α) (axis : Axis) :
    (start.lerp stop share).along axis =
      start.along axis * (1 - share) + stop.along axis * share := by
  cases axis <;> rfl

namespace Sample

variable {start stop time later : Stamp}

theorem share_eq (started : start ≤ time) (longer : start ≤ stop) :
    (share start stop time : α) =
      ((time.toNat - start.toNat : Nat) : α) / ((stop.toNat - start.toNat : Nat) : α) := by
  rw [← Duration.toNat_sub started, ← Duration.toNat_sub longer]
  rfl

theorem share_mono (started : start ≤ time) (longer : start ≤ stop) (notEarlier : time ≤ later) :
    (share start stop time : α) ≤ share start stop later := by
  have startedToo : start ≤ later := Std.le_trans started notEarlier
  rw [share_eq started longer, share_eq startedToo longer]
  rw [Duration.le_iff_toNat] at notEarlier
  gcongr

theorem share_nonneg (started : start ≤ time) (longer : start ≤ stop) :
    (0 : α) ≤ share start stop time := by
  rw [share_eq started longer]
  positivity

theorem share_le_one (started : start ≤ time) (unfinished : time ≤ stop) :
    (share start stop time : α) ≤ 1 := by
  have longer := Std.le_trans started unfinished
  rw [share_eq started longer]
  rw [Duration.le_iff_toNat] at unfinished
  apply div_le_one_of_le₀
  · gcongr
  · positivity

/-- Strictly between two stamps the offset is mixed. -/
theorem offset_of_interpolate {before after : Sample α} {motion : Motion α}
    (started : before.stamp < time) (unfinished : time < after.stamp)
    (mixed : before.interpolate after time = .ok motion) :
    motion.offset = before.motion.offset.lerp after.motion.offset
      (share before.stamp after.stamp time) := by
  rw [(before.interpolates after time).eq_mix started unfinished] at mixed
  cases mixed
  rfl

end Sample

/-- A mixture lies between its ends. -/
private theorem mixture_between (first second : α) {share : α} (nonneg : 0 ≤ share)
    (atMost : share ≤ 1) : min first second ≤ first * (1 - share) + second * share ∧
      first * (1 - share) + second * share ≤ max first second := by
  have rest : 0 ≤ 1 - share := sub_nonneg.2 atMost
  constructor
  · calc min first second = min first second * (1 - share) + min first second * share := by ring
      _ ≤ first * (1 - share) + second * share := by
        gcongr
        · exact min_le_left _ _
        · exact min_le_right _ _
  · calc first * (1 - share) + second * share
        ≤ max first second * (1 - share) + max first second * share := by
          gcongr
          · exact le_max_left _ _
          · exact le_max_right _ _
      _ = max first second := by ring

/-- The more of the greater end, the greater the mixture. -/
private theorem mixture_mono {first second share greater : α} (rises : first ≤ second)
    (more : share ≤ greater) :
    first * (1 - share) + second * share ≤ first * (1 - greater) + second * greater := by
  have gain : (second - first) * share ≤ (second - first) * greater :=
    mul_le_mul_of_nonneg_left more (sub_nonneg.2 rises)
  calc first * (1 - share) + second * share = first + (second - first) * share := by ring
    _ ≤ first + (second - first) * greater := add_le_add_right gain _
    _ = first * (1 - greater) + second * greater := by ring

namespace History

variable {history : History α} {time later : Stamp} {tolerance laterTolerance : Duration}
  {motion laterMotion : Motion α}

/-- The motion of an end beyond it, the motion at a stamp, or a mixture of two neighbours. -/
inductive Offers (history : History α) (time : Stamp) (motion : Motion α) : Prop
  | early {first : Sample α} (starts : history.earliest? = some first)
      (before : time < first.stamp) (same : first.motion = motion) : Offers history time motion
  | late {last : Sample α} (ends : history.latest? = some last)
      (after : last.stamp < time) (same : last.motion = motion) : Offers history time motion
  | stored {sample : Sample α} (member : sample ∈ history.samples) (stamp : sample.stamp = time)
      (same : sample.motion = motion) : Offers history time motion
  | mixed {before after : Sample α} (encloses : history.Encloses before after time)
      (mixture : motion.offset = before.motion.offset.lerp after.motion.offset
        (Sample.share before.stamp after.stamp time)) : Offers history time motion

theorem Encloses.mixture {before after : Sample α} (encloses : history.Encloses before after time)
    (answered : (history.query time tolerance).1 = some motion) :
    motion.offset = before.motion.offset.lerp after.motion.offset
      (Sample.share before.stamp after.stamp time) := by
  obtain ⟨told, interpolated, same⟩ :=
    (history.readsPlainly time tolerance).between before after encloses
  rw [answered, Option.some.injEq] at same
  rw [same]
  exact Sample.offset_of_interpolate encloses.started encloses.unfinished interpolated

theorem offers_of_query (answered : (history.query time tolerance).1 = some motion) :
    history.Offers time motion := by
  have plain := history.readsPlainly time tolerance
  have told : (history.query time tolerance).1 ≠ none := by simp [answered]
  obtain ⟨sample, occupied⟩ : ∃ sample, sample ∈ history.samples :=
    List.exists_mem_of_ne_nil _ fun empty => told (plain.silent.2 (.inl empty))
  obtain ⟨first, last, starts, ends, _, _⟩ := exists_ends_of_mem occupied
  rcases plain.covered first last starts ends with before | after | ⟨sample, member, stamp⟩ |
    ⟨before, after, encloses⟩
  · have same := plain.early told first starts before
    exact .early starts before (Option.some.inj (same.symm.trans answered))
  · have same := plain.late told last ends after
    exact .late ends after (Option.some.inj (same.symm.trans answered))
  · have same := plain.stored sample member stamp
    exact .stored member stamp (Option.some.inj (same.symm.trans answered))
  · exact .mixed encloses (encloses.mixture answered)

theorem Offers.bounded (offers : history.Offers time motion) (axis : Axis) :
    ∃ low high, history.Nearest time low ∧ history.Nearest time high ∧
      low.motion.offset.along axis ≤ motion.offset.along axis ∧
      motion.offset.along axis ≤ high.motion.offset.along axis := by
  cases offers with
  | @early first starts before same =>
      subst same
      have nearest := nearest_of_earliest? starts before
      exact ⟨first, first, nearest, nearest, le_rfl, le_rfl⟩
  | @late last ends after same =>
      subst same
      have nearest := nearest_of_latest? ends after
      exact ⟨last, last, nearest, nearest, le_rfl, le_rfl⟩
  | @stored sample member stamp same =>
      subst same
      have nearest := nearest_of_stored member stamp
      exact ⟨sample, sample, nearest, nearest, le_rfl, le_rfl⟩
  | @mixed before after encloses mixture =>
      have started : before.stamp ≤ time := Std.le_of_lt encloses.started
      have unfinished : time ≤ after.stamp := Std.le_of_lt encloses.unfinished
      have nonneg := Sample.share_nonneg (α := α) started (Std.le_trans started unfinished)
      have atMost := Sample.share_le_one (α := α) started unfinished
      have bounds := mixture_between (before.motion.offset.along axis)
        (after.motion.offset.along axis) nonneg atMost
      rw [mixture, Vector3.along_lerp]
      rcases le_total (before.motion.offset.along axis) (after.motion.offset.along axis) with
        rises | falls
      · rw [min_eq_left rises, max_eq_right rises] at bounds
        exact ⟨before, after, encloses.nearest_before, encloses.nearest_after, bounds⟩
      · rw [min_eq_right falls, max_eq_left falls] at bounds
        exact ⟨after, before, encloses.nearest_after, encloses.nearest_before, bounds⟩

section Rising

variable {axis : Axis} (rises : history.Rises axis)

include rises

/-- An answer is above every sample that is not later. -/
theorem Offers.ge_of_stamp_le (offers : history.Offers time motion) {sample : Sample α}
    (member : sample ∈ history.samples) (notLater : sample.stamp ≤ time) :
    sample.motion.offset.along axis ≤ motion.offset.along axis := by
  obtain ⟨low, _, ⟨held, sides⟩, _, below, _⟩ := offers.bounded axis
  have order : sample.stamp ≤ low.stamp := by
    rcases sides with ⟨_, last⟩ | ⟨notEarlier, _⟩
    · exact last sample member notLater
    · exact Std.le_trans notLater notEarlier
  exact (rises sample member low held order).trans below

/-- An answer is below every sample that is not earlier. -/
theorem Offers.le_of_le_stamp (offers : history.Offers time motion) {sample : Sample α}
    (member : sample ∈ history.samples) (notEarlier : time ≤ sample.stamp) :
    motion.offset.along axis ≤ sample.motion.offset.along axis := by
  obtain ⟨_, high, _, ⟨held, sides⟩, _, above⟩ := offers.bounded axis
  have order : high.stamp ≤ sample.stamp := by
    rcases sides with ⟨notLater, _⟩ | ⟨_, first⟩
    · exact Std.le_trans notLater notEarlier
    · exact first sample member notEarlier
  exact above.trans (rises high held sample member order)

/-- With a sample between the times the answers are compared through it, and without one they are
the motion of one end or mixtures of the same neighbours. -/
theorem query_mono (notEarlier : time ≤ later)
    (answered : (history.query time tolerance).1 = some motion)
    (laterAnswered : (history.query later laterTolerance).1 = some laterMotion) :
    motion.offset.along axis ≤ laterMotion.offset.along axis := by
  have offers := offers_of_query answered
  by_cases between : ∃ sample ∈ history.samples, time ≤ sample.stamp ∧ sample.stamp ≤ later
  · obtain ⟨sample, member, after, before⟩ := between
    exact (offers.le_of_le_stamp rises member after).trans
      ((offers_of_query laterAnswered).ge_of_stamp_le rises member before)
  · have plain := history.readsPlainly later laterTolerance
    have told : (history.query later laterTolerance).1 ≠ none := by simp [laterAnswered]
    cases offers with
    | @early first starts before same =>
        have member : first ∈ history.samples := List.mem_of_head? starts
        have still : later < first.stamp :=
          Std.not_le.1 fun reached => between ⟨first, member, Std.le_of_lt before, reached⟩
        have sameToo := plain.early told first starts still
        rw [laterAnswered, Option.some.injEq] at sameToo
        rw [sameToo, same]
    | @late last ends after same =>
        have still : last.stamp < later := Std.lt_of_lt_of_le after notEarlier
        have sameToo := plain.late told last ends still
        rw [laterAnswered, Option.some.injEq] at sameToo
        rw [sameToo, same]
    | @stored sample member stamp same =>
        exact absurd ⟨sample, member, Std.le_of_eq stamp.symm, stamp.trans_le notEarlier⟩ between
    | @mixed before after encloses mixture =>
        have started := encloses.started
        have unfinished := encloses.unfinished
        have member := encloses.mem_after
        have still : history.Encloses before after later := by
          refine ⟨encloses.adjacent, Std.lt_of_lt_of_le started notEarlier, Std.not_le.1 ?_⟩
          intro reached
          exact between ⟨after, member, Std.le_of_lt unfinished, reached⟩
        have order : before.stamp ≤ after.stamp := Std.le_of_lt (Std.lt_trans started unfinished)
        have grows := rises before encloses.mem_before after member order
        have shares := Sample.share_mono (α := α) (Std.le_of_lt started) order notEarlier
        rw [mixture, still.mixture laterAnswered, Vector3.along_lerp, Vector3.along_lerp]
        exact mixture_mono grows shares

end Rising

theorem steady (history : History α) : history.Steady where
  bounded _ _ _ answered := (offers_of_query answered).bounded
  monotone _ rises _ _ _ _ _ _ notEarlier := query_mono rises notEarlier

/-- Whatever was inserted and asked before. -/
theorem steady_after (capacity : Nat) (horizon : Duration) (calls : List (HistoryCall α)) :
    (after capacity horizon calls).Steady :=
  steady _

/-- Between two samples, at the last one, and beyond it as far as is tolerated. -/
example :
    let history : History ℚ :=
      after 10 .longest [.insert ⟨⟨8⟩, .shift ⟨6, 0, 0⟩⟩, .insert ⟨⟨4⟩, .shift ⟨2, 0, 0⟩⟩]
    [5, 8, 9, 11].map (fun nanos =>
        ((history.query ⟨nanos⟩ ⟨2⟩).1.map (·.offset.along .x))) =
      [some 3, some 6, some 6, none] := by
  decide +kernel

end History

end Mixing

end FrameForest
