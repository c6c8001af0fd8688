import FrameForest.Proofs.Edge.EdgeTables
import FrameForest.Proofs.Histories
import Mathlib.Data.Finset.Sort

/-!
# What a history holds

Whatever was inserted, late or twice, and whatever was asked in between, a
history holds the newest stamps that its capacity and its horizon leave room for.
They are the end of the sorted stamps that were ever inserted, and each comes with
the motion inserted last.  So what becomes of an incoming sample can be read off
the stamps before and after.
-/

namespace FrameForest

inductive HistoryCall (α : Type) where
  | insert (sample : Sample α)
  | query (time : Stamp) (tolerance : Duration)
  | forgetHint

namespace HistoryCall

variable {α : Type}

def perform [Scalar α] (call : HistoryCall α) (history : History α) : History α :=
  match call with
  | insert sample => (history.insert sample).2
  | query time tolerance => (history.query time tolerance).2
  | forgetHint => history.forgetHint

def sample? : HistoryCall α → Option (Sample α)
  | insert sample => some sample
  | query _ _ | forgetHint => none

end HistoryCall

namespace History

variable {α : Type}

/-- The samples that calls insert, in order. -/
def inserted (calls : List (HistoryCall α)) : List (Sample α) :=
  calls.filterMap HistoryCall.sample?

/-- The history that calls make of an empty one. -/
def after [Scalar α] (capacity : Nat) (horizon : Duration) (calls : List (HistoryCall α)) :
    History α :=
  calls.foldl (fun history call => call.perform history) (empty capacity horizon)

/-! ## The sorted stamps -/

/-- The stamps of some samples in nanoseconds, each once. -/
def stamps (samples : List (Sample α)) : Finset Nat :=
  (samples.map fun sample => sample.stamp.toNat).toFinset

/-- The stamps no further than the horizon behind the largest one. -/
def recentStamps (horizon : Duration) (samples : List (Sample α)) : Finset Nat :=
  (stamps samples).filter fun stamp => reach samples - stamp ≤ horizon.toNat

/-- The `count` largest numbers, ascending. -/
def largest (count : Nat) (numbers : Finset Nat) : List Nat :=
  numbers.sort.rtake count

/-- The last of the samples with a given stamp. -/
def lastAt? (samples : List (Sample α)) (stamp : Stamp) : Option (Sample α) :=
  samples.reverse.find? fun sample => sample.stamp = stamp

section Stamps

variable {samples : List (Sample α)} {sample other : Sample α}

theorem mem_stamps {stamp : Nat} :
    stamp ∈ stamps samples ↔ ∃ sample ∈ samples, sample.stamp.toNat = stamp := by
  simp [stamps]

theorem reach_le_iff_stamps {bound : Nat} :
    reach samples ≤ bound ↔ ∀ stamp ∈ stamps samples, stamp ≤ bound := by
  rw [reach_le_iff]
  simp [mem_stamps]

theorem reach_congr {others : List (Sample α)} (same : stamps samples = stamps others) :
    reach samples = reach others := by
  apply Nat.le_antisymm
  · rw [reach_le_iff_stamps, same, ← reach_le_iff_stamps]
  · rw [reach_le_iff_stamps, ← same, ← reach_le_iff_stamps]

theorem max?_map_stamp (occupied : samples ≠ []) :
    (samples.map fun sample => sample.stamp.toNat).max? = some (reach samples) := by
  induction samples with
  | nil => exact absurd rfl occupied
  | cons head rest ih =>
      rw [List.map_cons, List.max?_cons, reach_cons]
      cases rest with
      | nil => simp [reach]
      | cons next rest => rw [ih (List.cons_ne_nil next rest), Option.elim_some]

theorem lastAt?_concat (samples : List (Sample α)) (sample : Sample α) (stamp : Stamp) :
    lastAt? (samples ++ [sample]) stamp =
      if sample.stamp = stamp then some sample else lastAt? samples stamp := by
  unfold lastAt?
  rw [List.reverse_append, List.reverse_singleton, List.singleton_append, List.find?_cons]
  by_cases here : sample.stamp = stamp <;> simp [here]

theorem gather_concat (samples : List (Sample α)) (sample : Sample α) :
    gather (samples ++ [sample]) = place sample (gather samples) :=
  List.foldl_concat _ _ _ _

theorem Ordered.eq_of_stamp_eq (ordered : Ordered samples) (member : sample ∈ samples)
    (otherMember : other ∈ samples) (same : sample.stamp = other.stamp) : sample = other := by
  have distinct : (samples.map Sample.stamp).Nodup := by
    apply List.pairwise_map.2
    apply ordered.imp
    intro earlier later less equal
    rw [equal, Duration.lt_iff_toNat] at less
    exact Nat.lt_irrefl _ less
  exact List.inj_on_of_nodup_map distinct member otherMember same

theorem mem_place_self (sample : Sample α) (samples : List (Sample α)) :
    sample ∈ place sample samples := by
  induction samples with
  | nil => exact List.mem_cons_self
  | cons head rest ih =>
      unfold place
      split
      · exact List.mem_cons_of_mem _ ih
      · split <;> exact List.mem_cons_self

theorem mem_place_of_mem (member : other ∈ samples) (apart : other.stamp ≠ sample.stamp) :
    other ∈ place sample samples := by
  induction samples with
  | nil => cases member
  | cons head rest ih =>
      unfold place
      split
      · rcases List.mem_cons.1 member with rfl | later
        · exact List.mem_cons_self
        · exact List.mem_cons_of_mem _ (ih later)
      · split
        · rename_i same
          rcases List.mem_cons.1 member with rfl | later
          · exact absurd same apart
          · exact List.mem_cons_of_mem _ later
        · exact List.mem_cons_of_mem _ member

/-- A sample that is placed takes the place of the one with its stamp. -/
theorem mem_place_iff (ordered : Ordered samples) :
    other ∈ place sample samples ↔
      other = sample ∨ other ∈ samples ∧ other.stamp ≠ sample.stamp := by
  constructor
  · intro placed
    by_cases same : other.stamp = sample.stamp
    · exact .inl ((ordered.place sample).eq_of_stamp_eq placed (mem_place_self sample samples) same)
    · exact (mem_place placed).imp_right fun old => ⟨old, same⟩
  · rintro (rfl | ⟨old, apart⟩)
    · exact mem_place_self other samples
    · exact mem_place_of_mem old apart

/-- What is gathered is what was inserted last with each stamp. -/
theorem mem_gather_iff (samples : List (Sample α)) (sample : Sample α) :
    sample ∈ gather samples ↔ lastAt? samples sample.stamp = some sample := by
  induction samples using List.reverseRecOn with
  | nil => simp [gather, lastAt?]
  | append_singleton samples last ih =>
      rw [gather_concat, mem_place_iff (ordered_gather samples), ih, lastAt?_concat]
      by_cases same : last.stamp = sample.stamp
      · rw [if_pos same]
        simp [same, eq_comm]
      · rw [if_neg same]
        have apart : sample.stamp ≠ last.stamp := fun equal => same equal.symm
        have differ : sample ≠ last := fun equal => same (congrArg Sample.stamp equal.symm)
        simp [apart, differ]

theorem mem_stamps_cons {stamp : Nat} :
    stamp ∈ stamps (sample :: samples) ↔ stamp = sample.stamp.toNat ∨ stamp ∈ stamps samples := by
  simp [stamps]

theorem mem_stamps_concat {stamp : Nat} :
    stamp ∈ stamps (samples ++ [sample]) ↔
      stamp = sample.stamp.toNat ∨ stamp ∈ stamps samples := by
  simp [stamps]

theorem mem_stamps_place {stamp : Nat} :
    stamp ∈ stamps (place sample samples) ↔
      stamp = sample.stamp.toNat ∨ stamp ∈ stamps samples := by
  induction samples with
  | nil => exact mem_stamps_cons
  | cons head rest ih =>
      unfold place
      split
      · rw [mem_stamps_cons, ih, mem_stamps_cons, or_left_comm]
      · split
        · rename_i same
          rw [mem_stamps_cons, mem_stamps_cons, same, or_self_left]
        · rw [mem_stamps_cons]

theorem gather_ne_nil (occupied : samples ≠ []) : gather samples ≠ [] := by
  rw [← List.dropLast_concat_getLast occupied, gather_concat]
  exact List.ne_nil_of_mem (mem_place_self _ _)

theorem stamps_gather (samples : List (Sample α)) : stamps (gather samples) = stamps samples := by
  ext stamp
  induction samples using List.reverseRecOn with
  | nil => rfl
  | append_singleton samples last ih =>
      rw [gather_concat, mem_stamps_place, ih, mem_stamps_concat]

end Stamps

/-! ## The end that fits -/

section Fitting

variable {capacity : Nat} {horizon : Duration} {samples : List (Sample α)} {sample : Sample α}

/-- The samples no further than the horizon behind the newest one. -/
def recent (horizon : Duration) (samples : List (Sample α)) : List (Sample α) :=
  samples.filter fun sample => reach samples - sample.stamp.toNat ≤ horizon.toNat

theorem recent_of_young
    (young : ∀ sample ∈ samples, reach samples ≤ sample.stamp.toNat + horizon.toNat) :
    recent horizon samples = samples := by
  apply List.filter_eq_self.2
  intro sample member
  have age := young sample member
  simp only [decide_eq_true_eq]
  omega

theorem rtake_cons_of_le_length {β : Type} {item : β} {items : List β} {count : Nat}
    (many : count ≤ items.length) : (item :: items).rtake count = items.rtake count := by
  have split : (item :: items).length - count = items.length - count + 1 := by
    rw [List.length_cons]
    omega
  rw [List.rtake, List.rtake, split, List.drop_succ_cons]

/-- What is left of ordered samples are the newest of the recent ones. -/
theorem trim_eq_rtake (ordered : Ordered samples) :
    trim capacity horizon samples = (recent horizon samples).rtake capacity := by
  induction samples with
  | nil => simp [trim, recent]
  | cons head rest ih =>
      have further := ih ordered.of_cons
      rcases trim_cons capacity horizon ordered with ⟨fits, kept⟩ | ⟨excess, cut⟩
      · rw [kept, recent_of_young fits.young, rtake_of_length_le fits.few]
      · rw [cut, further]
        rw [fits_cons_iff ordered] at excess
        by_cases young : reach rest ≤ head.stamp.toNat + horizon.toNat
        · -- all are recent, so there are too many of them
          have others : ∀ sample ∈ rest, head.stamp.toNat < sample.stamp.toNat :=
            fun sample => ordered.toNat_lt
          have all : recent horizon rest = rest := by
            apply recent_of_young
            intro sample member
            have gap := others sample member
            omega
          have whole : recent horizon (head :: rest) = head :: rest := by
            apply recent_of_young
            intro sample member
            rw [reach_cons]
            rcases List.mem_cons.1 member with rfl | later
            · omega
            · have gap := others sample later
              omega
          rw [all, whole, rtake_cons_of_le_length (by omega)]
        · have same : reach (head :: rest) = reach rest := by
            rw [reach_cons]
            omega
          have old : ¬reach rest - head.stamp.toNat ≤ horizon.toNat := by omega
          have others : recent horizon (head :: rest) = recent horizon rest := by
            unfold recent
            rw [same, List.filter_cons_of_neg (by simpa using old)]
          rw [others]

/-- The newest stamp is never let go of. -/
theorem reach_trim (positive : 0 < capacity) (ordered : Ordered samples) :
    reach (trim capacity horizon samples) = reach samples := by
  induction samples with
  | nil => simp [trim]
  | cons head rest ih =>
      rcases trim_cons capacity horizon ordered with ⟨_, kept⟩ | ⟨excess, cut⟩
      · rw [kept]
      · rw [cut, ih ordered.of_cons, reach_cons]
        rw [fits_cons_iff ordered] at excess
        cases rest with
        | nil => simp [reach, positive] at excess
        | cons next rest =>
            have gap := ordered.toNat_lt List.mem_cons_self
            rw [reach_cons]
            omega

/-- The number of samples that are newer than a given one. -/
def newerCount (sample : Sample α) (samples : List (Sample α)) : Nat :=
  samples.countP fun other => sample.stamp.toNat < other.stamp.toNat

theorem newerCount_of_older (older : ∀ other ∈ samples, sample.stamp.toNat < other.stamp.toNat) :
    newerCount sample samples = samples.length :=
  List.countP_eq_length.2 fun other member => decide_eq_true (older other member)

/-- With samples behind it that are all newer, a sample stays as long as there is room. -/
theorem trim_cons_of_room (ordered : Ordered (sample :: samples))
    (young : reach samples ≤ sample.stamp.toNat + horizon.toNat)
    (room : newerCount sample samples < capacity) :
    trim capacity horizon (sample :: samples) = sample :: samples := by
  rw [newerCount_of_older fun other => ordered.toNat_lt] at room
  exact trim_of_fits ordered ((fits_cons_iff ordered).2 ⟨room, young⟩)

/-- A sample for which there is room stays when it is placed. -/
theorem mem_trim_place (ordered : Ordered samples)
    (young : reach samples ≤ sample.stamp.toNat + horizon.toNat)
    (room : newerCount sample samples < capacity) :
    sample ∈ trim capacity horizon (place sample samples) := by
  have placed := ordered.place sample
  induction samples with
  | nil =>
      rw [place, trim_cons_of_room placed young room]
      exact List.mem_cons_self
  | cons head rest ih =>
      rw [reach_cons] at young
      by_cases less : head.stamp < sample.stamp
      · rw [place, if_pos less] at placed ⊢
        rcases trim_cons capacity horizon placed with ⟨_, kept⟩ | ⟨_, cut⟩
        · rw [kept]
          exact List.mem_cons_of_mem _ (mem_place_self sample rest)
        · rw [cut]
          have older : ¬sample.stamp.toNat < head.stamp.toNat := by
            rw [Duration.lt_iff_toNat] at less
            omega
          rw [newerCount, List.countP_cons_of_neg (by simpa using older)] at room
          exact ih ordered.of_cons (by omega) room placed.of_cons
      · rw [place, if_neg less] at placed ⊢
        by_cases same : head.stamp = sample.stamp
        · rw [if_pos same] at placed ⊢
          rw [newerCount, List.countP_cons_of_neg (by simp [same])] at room
          rw [trim_cons_of_room placed (by omega) room]
          exact List.mem_cons_self
        · rw [if_neg same] at placed ⊢
          rw [trim_cons_of_room placed (by rw [reach_cons]; omega) room]
          exact List.mem_cons_self

end Fitting

/-! ## Single insertions -/

section Insertion

variable {history : History α} {sample : Sample α}

/-- What is not refused finds room. -/
theorem newerCount_lt_of_not_refuses (trimmed : history.Trimmed)
    (admitted : ¬history.refuses sample.stamp = true) :
    newerCount sample history.samples < history.capacity := by
  have few := trimmed.few
  have positive := history.capacity_pos
  rw [refuses_iff, not_or] at admitted
  cases shape : history.samples with
  | nil => exact positive
  | cons first rest =>
      rw [shape] at few admitted
      have most := List.countP_le_length
        (p := fun other : Sample α => decide (sample.stamp.toNat < other.stamp.toNat)) (l := rest)
      by_cases older : sample.stamp.toNat < first.stamp.toNat
      · have spare : ¬history.capacity ≤ (first :: rest).length := by
          intro full
          exact admitted.2 ⟨full, first, rfl, older⟩
        rw [newerCount, List.countP_cons_of_pos (by simpa using older)]
        rw [List.length_cons] at spare
        omega
      · rw [newerCount, List.countP_cons_of_neg (by simpa using older)]
        rw [List.length_cons] at few
        omega

theorem mem_insert_of_not_refuses (trimmed : history.Trimmed)
    (admitted : ¬history.refuses sample.stamp = true) :
    sample ∈ (history.insert sample).2.samples := by
  have young := admitted
  rw [refuses_iff, not_or, Nat.not_lt] at young
  rw [samples_insert sample trimmed]
  exact mem_trim_place history.ordered young.1 (newerCount_lt_of_not_refuses trimmed admitted)

/-- No sample is newer than the stamp by more than the horizon, and none needs to go to make room
for a sample that would be the oldest. -/
structure Admits (history : History α) (stamp : Stamp) : Prop where
  young : ∀ sample ∈ history.samples, sample.stamp.toNat ≤ stamp.toNat + history.horizon.toNat
  room : history.samples.length < history.capacity ∨
    ∀ first ∈ history.earliest?, first.stamp ≤ stamp

theorem admits_iff {stamp : Stamp} :
    history.Admits stamp ↔ ¬history.refuses stamp = true := by
  rw [refuses_iff, not_or, Nat.not_lt, reach_le_iff]
  constructor
  · rintro ⟨young, room⟩
    refine ⟨young, ?_⟩
    rintro ⟨full, first, isFirst, older⟩
    have early := (room.resolve_left (Nat.not_lt_of_le full)) first isFirst
    rw [Duration.le_iff_toNat] at early
    exact Nat.not_lt_of_le early older
  · rintro ⟨young, spare⟩
    refine ⟨young, ?_⟩
    by_cases full : history.capacity ≤ history.samples.length
    · right
      intro first isFirst
      rw [Duration.le_iff_toNat]
      exact Nat.le_of_not_lt fun older => spare ⟨full, first, isFirst, older⟩
    · exact .inl (Nat.lt_of_not_le full)

theorem mem_insert_iff (trimmed : history.Trimmed) :
    sample ∈ (history.insert sample).2.samples ↔ history.Admits sample.stamp := by
  rw [admits_iff]
  constructor
  · intro stored refused
    have kept : (history.insert sample).2 = history := by
      rw [History.insert, if_pos refused]
    rw [kept] at stored
    exact Nat.lt_irrefl _ (older_of_refuses trimmed refused sample stored)
  · exact mem_insert_of_not_refuses trimmed

/-- What is told of an insertion. -/
structure Tells (history : History α) (sample : Sample α) : Prop where
  dropped : (history.insert sample).1 = .dropped ↔
    sample.stamp ∉ (history.insert sample).2.samples.map Sample.stamp
  unchanged : (history.insert sample).1 = .dropped → (history.insert sample).2 = history
  replaced : (history.insert sample).1 = .replaced ↔
    sample.stamp ∈ history.samples.map Sample.stamp
  inserted : (history.insert sample).1 = .inserted ↔
    sample.stamp ∉ history.samples.map Sample.stamp ∧
      sample.stamp ∈ (history.insert sample).2.samples.map Sample.stamp

theorem fst_insert (history : History α) (sample : Sample α) :
    (history.insert sample).1 =
      if history.refuses sample.stamp then .dropped
      else if sample.stamp ∈ history.samples.map Sample.stamp then .replaced
      else .inserted := by
  unfold insert
  split
  · rfl
  · simp

theorem Trimmed.tells (trimmed : history.Trimmed) (sample : Sample α) : history.Tells sample := by
  have told := history.fst_insert sample
  by_cases refused : history.refuses sample.stamp = true
  · rw [if_pos refused] at told
    have kept := (insert_eq_of_dropped sample told).1
    have absent : sample.stamp ∉ history.samples.map Sample.stamp := by
      intro member
      obtain ⟨other, present, same⟩ := List.mem_map.1 member
      have older := older_of_refuses trimmed refused other present
      rw [same] at older
      exact Nat.lt_irrefl _ older
    constructor <;> rw [told]
    · simpa [kept] using absent
    · exact fun _ => kept
    · simpa using absent
    · simp [kept]
  · rw [if_neg refused] at told
    have present : sample.stamp ∈ (history.insert sample).2.samples.map Sample.stamp :=
      List.mem_map.2 ⟨sample, mem_insert_of_not_refuses trimmed refused, rfl⟩
    constructor <;> rw [told]
    all_goals split <;> simp_all

end Insertion

/-! ## Whole lives -/

theorem map_recent_eq_sort (horizon : Duration) {samples : List (Sample α)}
    (ordered : Ordered samples) :
    ((recent horizon samples).map fun sample => sample.stamp.toNat) =
      (recentStamps horizon samples).sort := by
  have ascending : ((recent horizon samples).map fun sample => sample.stamp.toNat).Pairwise
      (· < ·) := by
    apply List.pairwise_map.2
    apply (ordered.sublist List.filter_sublist).imp
    exact fun less => (Duration.lt_iff_toNat _ _).1 less
  have members : ∀ stamp, stamp ∈ ((recent horizon samples).map fun sample => sample.stamp.toNat) ↔
      stamp ∈ (recentStamps horizon samples).sort := by
    intro stamp
    simp only [recent, recentStamps, Finset.mem_sort, Finset.mem_filter, mem_stamps, List.mem_map,
      List.mem_filter, decide_eq_true_eq]
    constructor
    · rintro ⟨sample, ⟨member, young⟩, rfl⟩
      exact ⟨⟨sample, member, rfl⟩, young⟩
    · rintro ⟨⟨sample, member, rfl⟩, young⟩
      exact ⟨sample, ⟨member, young⟩, rfl⟩
  have perm := (List.perm_ext_iff_of_nodup ascending.nodup (Finset.sort_nodup _ _)).2 members
  apply perm.eq_of_pairwise _ (ascending.imp Nat.le_of_lt) (Finset.pairwise_sort _ _)
  exact fun first second _ _ => Nat.le_antisymm

theorem inserted_concat (calls : List (HistoryCall α)) (call : HistoryCall α) :
    inserted (calls ++ [call]) = inserted calls ++ call.sample?.toList := by
  unfold inserted
  rw [List.filterMap_append]
  cases call <;> rfl

section Life

variable [Scalar α]

theorem after_concat (capacity : Nat) (horizon : Duration) (calls : List (HistoryCall α))
    (call : HistoryCall α) :
    after capacity horizon (calls ++ [call]) = call.perform (after capacity horizon calls) :=
  List.foldl_concat _ _ _ _

/-- Queries and forgotten hints leave no trace in the samples. -/
theorem forgetHint_after (capacity : Nat) (horizon : Duration) (calls : List (HistoryCall α)) :
    (after capacity horizon calls).forgetHint =
      ((empty capacity horizon).insertAll (inserted calls)).forgetHint := by
  induction calls using List.reverseRecOn with
  | nil => rfl
  | append_singleton calls call ih =>
      rw [after_concat, inserted_concat]
      cases call with
      | insert sample =>
          have split : (empty capacity horizon).insertAll (inserted calls ++ [sample]) =
              (((empty capacity horizon).insertAll (inserted calls)).insert sample).2 :=
            List.foldl_concat _ _ _ _
          exact ((insert_congr ih sample).2).trans (congrArg forgetHint split).symm
      | query time tolerance =>
          rw [HistoryCall.sample?, Option.toList_none, List.append_nil]
          exact (forgetHint_query _ time tolerance).trans ih
      | forgetHint =>
          rw [HistoryCall.sample?, Option.toList_none, List.append_nil]
          exact ih

/-- The history in terms of all that was ever inserted into it. -/
structure ClosedForm (history : History α) (capacity : Nat) (horizon : Duration)
    (inserted : List (Sample α)) : Prop where
  stamps : (history.samples.map fun sample => sample.stamp.toNat) =
    largest (max capacity 1) (recentStamps horizon inserted)
  motions : ∀ sample ∈ history.samples, lastAt? inserted sample.stamp = some sample
  newest : (history.latest?.map fun sample => sample.stamp.toNat) =
    (inserted.map fun sample => sample.stamp.toNat).max?
  outcomes : ∀ sample, history.Tells sample

section Closed

variable {history : History α} {capacity : Nat} {horizon : Duration} {inserted : List (Sample α)}
  (held : history.samples = trim (max capacity 1) horizon (gather inserted))

include held

omit [Scalar α] in
theorem map_stamp_of_trim_gather :
    (history.samples.map fun sample => sample.stamp.toNat) =
      largest (max capacity 1) (recentStamps horizon inserted) := by
  have ordered := ordered_gather inserted
  have same := stamps_gather inserted
  have sorted := map_recent_eq_sort horizon ordered
  unfold recentStamps at sorted
  rw [same, reach_congr same] at sorted
  rw [held, trim_eq_rtake ordered, largest, recentStamps, ← sorted, List.rtake, List.rtake,
    List.map_drop, List.length_map]

omit [Scalar α] in
theorem lastAt?_of_trim_gather {sample : Sample α} (member : sample ∈ history.samples) :
    lastAt? inserted sample.stamp = some sample := by
  rw [held] at member
  exact (mem_gather_iff _ _).1 ((trim_sublist _ _ _).mem member)

omit [Scalar α] in
theorem latest?_of_trim_gather :
    (history.latest?.map fun sample => sample.stamp.toNat) =
      (inserted.map fun sample => sample.stamp.toNat).max? := by
  have gathered := ordered_gather inserted
  have same := stamps_gather inserted
  have positive : 0 < max capacity 1 := by omega
  by_cases occupied : inserted = []
  · subst occupied
    have nothing : history.samples = [] := by
      rw [held]
      exact List.sublist_nil.1 (trim_sublist _ _ _)
    rw [latest?, nothing]
    rfl
  · have present : history.samples ≠ [] := by
      rw [held]
      exact trim_ne_nil positive gathered (gather_ne_nil occupied)
    obtain ⟨newest, last⟩ := Option.ne_none_iff_exists'.1
      (mt List.getLast?_eq_none_iff.1 present)
    have reached : reach inserted = newest.stamp.toNat := by
      rw [← reach_eq_getLast history.ordered last, held, reach_trim positive gathered,
        reach_congr same]
    rw [latest?, last, Option.map_some, max?_map_stamp occupied, reached]

end Closed

/-- A history holds the newest samples of all that were ever inserted. -/
theorem closedForm_after (capacity : Nat) (horizon : Duration) (calls : List (HistoryCall α)) :
    (after capacity horizon calls).ClosedForm capacity horizon (inserted calls) := by
  obtain ⟨samples, sameCapacity, sameHorizon⟩ :=
    forgetHint_eq_iff.1 (forgetHint_after capacity horizon calls)
  obtain ⟨fixedCapacity, fixedHorizon⟩ :=
    limits_insertAll (empty capacity horizon) (inserted calls)
  rw [samples_insertAll_empty] at samples
  have trimmed : (after capacity horizon calls).Trimmed := by
    rw [Trimmed, samples, sameCapacity, sameHorizon, fixedCapacity, fixedHorizon]
    exact fits_trim (ordered_gather _)
  constructor
  · exact map_stamp_of_trim_gather samples
  · exact fun sample member => lastAt?_of_trim_gather samples member
  · exact latest?_of_trim_gather samples
  · exact trimmed.tells

end Life

end History
end FrameForest
