import FrameForest.Edge.History

/-!
# What a history retains

A history never holds more than fits: at most `capacity` samples, none older than
the newest by more than the horizon.  Trimming an ordered list leaves the longest
end of it that fits.  Therefore it does not matter whether samples are trimmed
after each insertion or once in the end, and since a refused sample would be
trimmed at once, a history is the trimmed list of all samples ever inserted,
whatever became of each.
-/

namespace FrameForest

namespace History

variable {α : Type}

/-- The largest stamp among the samples, in nanoseconds. -/
def reach (samples : List (Sample α)) : Nat :=
  samples.foldr (fun sample most => max sample.stamp.toNat most) 0

@[simp] theorem reach_cons (sample : Sample α) (rest : List (Sample α)) :
    reach (sample :: rest) = max sample.stamp.toNat (reach rest) := rfl

theorem reach_le_iff {samples : List (Sample α)} {bound : Nat} :
    reach samples ≤ bound ↔ ∀ sample ∈ samples, sample.stamp.toNat ≤ bound := by
  induction samples with
  | nil => simp [reach]
  | cons head rest ih => rw [reach_cons, Nat.max_le, ih, List.forall_mem_cons]

/-- Ascending stamps, no two of them equal. -/
def Ordered (samples : List (Sample α)) : Prop :=
  samples.Pairwise fun earlier later => earlier.stamp < later.stamp

/-- The samples may be retained together. -/
structure Fits (capacity : Nat) (horizon : Duration) (samples : List (Sample α)) : Prop where
  few : samples.length ≤ capacity
  young : ∀ sample ∈ samples, reach samples ≤ sample.stamp.toNat + horizon.toNat

section Order

variable {sample : Sample α} {rest : List (Sample α)}

theorem Ordered.of_cons (ordered : Ordered (sample :: rest)) : Ordered rest :=
  List.Pairwise.tail ordered

theorem Ordered.toNat_lt (ordered : Ordered (sample :: rest)) {later : Sample α}
    (member : later ∈ rest) : sample.stamp.toNat < later.stamp.toNat :=
  (Duration.lt_iff_toNat _ _).1 (List.rel_of_pairwise_cons ordered member)

theorem reach_eq_getLast {samples : List (Sample α)} (ordered : Ordered samples)
    {newest : Sample α} (last : samples.getLast? = some newest) :
    reach samples = newest.stamp.toNat := by
  induction samples with
  | nil => cases last
  | cons head rest ih =>
      cases rest with
      | nil =>
          cases last
          simp [reach]
      | cons next rest =>
          rw [List.getLast?_cons_cons] at last
          have before := ordered.toNat_lt (List.mem_of_getLast? last)
          rw [reach_cons, ih ordered.of_cons last]
          omega

theorem fits_cons_iff {capacity : Nat} {horizon : Duration} (ordered : Ordered (sample :: rest)) :
    Fits capacity horizon (sample :: rest) ↔
      rest.length < capacity ∧ reach rest ≤ sample.stamp.toNat + horizon.toNat := by
  constructor
  · intro fits
    have age := fits.young sample List.mem_cons_self
    rw [reach_cons] at age
    exact ⟨fits.few, by omega⟩
  · rintro ⟨few, young⟩
    refine ⟨few, fun other member => ?_⟩
    rw [reach_cons]
    rcases List.mem_cons.1 member with rfl | later
    · omega
    · have before := ordered.toNat_lt later
      omega

end Order

/-! ## Trimming -/

theorem fits_nil (capacity : Nat) (horizon : Duration) : Fits (α := α) capacity horizon [] :=
  ⟨Nat.zero_le _, by simp⟩

private theorem trim_eq_dropWhile {capacity : Nat} {samples : List (Sample α)}
    {newest : Sample α} (few : samples.length ≤ capacity) (last : samples.getLast? = some newest)
    (horizon : Duration) :
    trim capacity horizon samples =
      samples.dropWhile fun sample =>
        decide (sample.stamp < newest.stamp.saturatingSub horizon) := by
  have whole : samples.drop (samples.length - capacity) = samples := by
    rw [Nat.sub_eq_zero_of_le few, List.drop_zero]
  simp only [trim, whole, last]

private theorem trim_cons_of_full {capacity : Nat} {sample : Sample α} {rest : List (Sample α)}
    (full : capacity ≤ rest.length) (horizon : Duration) :
    trim capacity horizon (sample :: rest) = trim capacity horizon rest := by
  have count : (sample :: rest).length - capacity = (rest.length - capacity) + 1 := by
    rw [List.length_cons]
    omega
  have dropped : (sample :: rest).drop ((sample :: rest).length - capacity) =
      rest.drop (rest.length - capacity) := by
    rw [count, List.drop_succ_cons]
  simp only [trim, dropped]

/-- Trimming lets go of the first sample and goes on with the rest, until everything fits. -/
theorem trim_cons (capacity : Nat) (horizon : Duration)
    {sample : Sample α} {rest : List (Sample α)} (ordered : Ordered (sample :: rest)) :
    Fits capacity horizon (sample :: rest) ∧
        trim capacity horizon (sample :: rest) = sample :: rest ∨
      ¬Fits capacity horizon (sample :: rest) ∧
        trim capacity horizon (sample :: rest) = trim capacity horizon rest := by
  rw [fits_cons_iff ordered]
  by_cases few : rest.length < capacity
  · obtain ⟨newest, last⟩ : ∃ newest, (sample :: rest).getLast? = some newest :=
      Option.isSome_iff_exists.1 (by simp)
    have reached := reach_eq_getLast ordered last
    have trimmed := trim_eq_dropWhile few last horizon
    rw [reach_cons] at reached
    by_cases aged : sample.stamp < newest.stamp.saturatingSub horizon
    · rw [List.dropWhile_cons_of_pos (by simpa using aged)] at trimmed
      rw [Duration.lt_iff_toNat, Duration.toNat_saturatingSub] at aged
      cases rest with
      | nil =>
          -- alone it is the newest sample, so it cannot be too old
          have nothing : reach ([] : List (Sample α)) = 0 := rfl
          omega
      | cons next rest =>
          rw [List.getLast?_cons_cons] at last
          right
          constructor
          · omega
          · rw [trimmed, trim_eq_dropWhile (Nat.le_of_lt few) last]
    · rw [List.dropWhile_cons_of_neg (by simpa using aged)] at trimmed
      rw [Duration.lt_iff_toNat, Duration.toNat_saturatingSub] at aged
      left
      exact ⟨⟨few, by omega⟩, trimmed⟩
  · right
    constructor
    · exact fun both => few both.1
    · exact trim_cons_of_full (Nat.le_of_not_lt few) horizon

section Trimming

variable {capacity : Nat} {horizon : Duration}

theorem trim_of_fits {samples : List (Sample α)} (ordered : Ordered samples)
    (fits : Fits capacity horizon samples) : trim capacity horizon samples = samples := by
  cases samples with
  | nil => simp [trim]
  | cons sample rest =>
      rcases trim_cons capacity horizon ordered with ⟨_, kept⟩ | ⟨excess, _⟩
      · exact kept
      · exact absurd fits excess

theorem trim_cons_of_not_fits {sample : Sample α} {rest : List (Sample α)}
    (ordered : Ordered (sample :: rest)) (excess : ¬Fits capacity horizon (sample :: rest)) :
    trim capacity horizon (sample :: rest) = trim capacity horizon rest := by
  rcases trim_cons capacity horizon ordered with ⟨fits, _⟩ | ⟨_, cut⟩
  · exact absurd fits excess
  · exact cut

theorem fits_trim {samples : List (Sample α)} (ordered : Ordered samples) :
    Fits capacity horizon (trim capacity horizon samples) := by
  induction samples with
  | nil => simpa [trim] using fits_nil capacity horizon
  | cons sample rest ih =>
      rcases trim_cons capacity horizon ordered with ⟨fits, kept⟩ | ⟨_, cut⟩
      · rw [kept]
        exact fits
      · rw [cut]
        exact ih ordered.of_cons

end Trimming

/-! ## Placing -/

theorem ordered_nil : Ordered (α := α) [] :=
  .nil

theorem Ordered.place {samples : List (Sample α)} (ordered : Ordered samples)
    (sample : Sample α) : Ordered (place sample samples) :=
  ordered_place sample ordered

@[simp] theorem reach_place (sample : Sample α) (samples : List (Sample α)) :
    reach (place sample samples) = max sample.stamp.toNat (reach samples) := by
  induction samples with
  | nil => simp [History.place]
  | cons head rest ih =>
      unfold History.place
      split
      · rw [reach_cons, reach_cons, ih]
        omega
      · split
        · rename_i same
          rw [reach_cons, reach_cons, same]
          omega
        · rw [reach_cons]

theorem length_le_length_place (sample : Sample α) (samples : List (Sample α)) :
    samples.length ≤ (place sample samples).length := by
  induction samples with
  | nil => exact Nat.zero_le _
  | cons head rest ih =>
      unfold History.place
      split
      · exact Nat.succ_le_succ ih
      · split
        · exact Nat.le_refl _
        · exact Nat.le_succ _

theorem place_of_older {sample : Sample α} {samples : List (Sample α)}
    (older : ∀ other ∈ samples, sample.stamp.toNat < other.stamp.toNat) :
    place sample samples = sample :: samples := by
  cases samples with
  | nil => rfl
  | cons head rest =>
      have first := older head List.mem_cons_self
      have notLater : ¬head.stamp < sample.stamp := by
        rw [Duration.lt_iff_toNat]
        omega
      have differ : head.stamp ≠ sample.stamp := by
        rw [Ne, Duration.eq_iff_toNat]
        omega
      rw [History.place, if_neg notLater, if_neg differ]

section Insertion

variable {capacity : Nat} {horizon : Duration} {sample head : Sample α} {rest : List (Sample α)}

/-- What does not fit does not fit in longer or older company either. -/
private theorem not_fits_of_longer {samples : List (Sample α)} (ordered : Ordered (head :: rest))
    (orderedNew : Ordered (sample :: samples)) (excess : ¬Fits capacity horizon (head :: rest))
    (older : sample.stamp.toNat ≤ head.stamp.toNat) (longer : rest.length ≤ samples.length)
    (later : reach rest ≤ reach samples) : ¬Fits capacity horizon (sample :: samples) := by
  rw [fits_cons_iff ordered] at excess
  rw [fits_cons_iff orderedNew]
  omega

/-- A first sample that is about to go makes no difference to the placing of another one. -/
theorem trim_place_cons (ordered : Ordered (head :: rest))
    (excess : ¬Fits capacity horizon (head :: rest)) :
    trim capacity horizon (place sample (head :: rest)) =
      trim capacity horizon (place sample rest) := by
  have orderedNew := ordered.place sample
  by_cases later : head.stamp < sample.stamp
  · rw [History.place, if_pos later] at orderedNew ⊢
    have overNew : ¬Fits capacity horizon (head :: place sample rest) :=
      not_fits_of_longer ordered orderedNew excess (Nat.le_refl _)
        (length_le_length_place sample rest) (by rw [reach_place]; omega)
    exact trim_cons_of_not_fits orderedNew overNew
  · -- the new sample comes first, where it is let go of for the reason that `head` is
    have before : sample.stamp.toNat ≤ head.stamp.toNat := by
      rw [Duration.lt_iff_toNat] at later
      omega
    have front : place sample rest = sample :: rest := by
      apply place_of_older
      intro other member
      have gap := ordered.toNat_lt member
      omega
    rw [front]
    by_cases same : head.stamp = sample.stamp
    · rw [History.place, if_neg later, if_pos same]
    · rw [History.place, if_neg later, if_neg same] at orderedNew ⊢
      have orderedFront : Ordered (sample :: rest) := by
        rw [← front]
        exact ordered.of_cons.place sample
      have excessBoth : ¬Fits capacity horizon (sample :: head :: rest) :=
        not_fits_of_longer ordered orderedNew excess before (Nat.le_succ _)
          (by rw [reach_cons]; omega)
      have excessFront : ¬Fits capacity horizon (sample :: rest) :=
        not_fits_of_longer ordered orderedFront excess before (Nat.le_refl _) (Nat.le_refl _)
      rw [trim_cons_of_not_fits orderedNew excessBoth, trim_cons_of_not_fits ordered excess,
        trim_cons_of_not_fits orderedFront excessFront]

/-- Trimming before a sample is placed is undone by trimming after it. -/
theorem trim_place_trim {samples : List (Sample α)} (ordered : Ordered samples)
    (sample : Sample α) :
    trim capacity horizon (place sample (trim capacity horizon samples)) =
      trim capacity horizon (place sample samples) := by
  induction samples with
  | nil => simp [trim]
  | cons head rest ih =>
      rcases trim_cons capacity horizon ordered with ⟨_, kept⟩ | ⟨excess, cut⟩
      · rw [kept]
      · rw [cut, ih ordered.of_cons, trim_place_cons ordered excess]

end Insertion

/-- A stamp is refused past the horizon of the newest sample, and before the first sample of a full
history. -/
theorem refuses_iff {history : History α} {stamp : Stamp} :
    history.refuses stamp = true ↔
      stamp.toNat + history.horizon.toNat < reach history.samples ∨
        history.capacity ≤ history.samples.length ∧
          ∃ first ∈ history.samples.head?, stamp.toNat < first.stamp.toNat := by
  have ordered : Ordered history.samples := history.ordered
  unfold refuses span? earliest? latest?
  cases shape : history.samples with
  | nil => simp [reach]
  | cons first rest =>
      obtain ⟨newest, last⟩ : ∃ newest, (first :: rest).getLast? = some newest :=
        Option.isSome_iff_exists.1 (by simp)
      rw [shape] at ordered
      rw [reach_eq_getLast ordered last]
      simp [last, Duration.lt_iff_toNat, Nat.lt_sub_iff_add_lt]

theorem older_of_refuses {history : History α} {stamp : Stamp}
    (fits : Fits history.capacity history.horizon history.samples)
    (refused : history.refuses stamp = true) :
    ∀ other ∈ history.samples, stamp.toNat < other.stamp.toNat := by
  intro other member
  rcases refuses_iff.1 refused with aged | ⟨_, first, isFirst, older⟩
  · have age := fits.young other member
    omega
  · have ordered : Ordered history.samples := history.ordered
    obtain ⟨rest, shape⟩ := List.head?_eq_some_iff.1 isFirst
    rw [shape] at ordered member
    rcases List.mem_cons.1 member with rfl | later
    · exact older
    · have gap := ordered.toNat_lt later
      omega

/-- A refused sample would be trimmed away at once. -/
theorem trim_place_of_refuses {history : History α} {stamp : Stamp} {motion : Motion α}
    (fits : Fits history.capacity history.horizon history.samples)
    (refused : history.refuses stamp = true) :
    trim history.capacity history.horizon (place ⟨stamp, motion⟩ history.samples) =
      history.samples := by
  have ordered : Ordered history.samples := history.ordered
  have front : place ⟨stamp, motion⟩ history.samples = ⟨stamp, motion⟩ :: history.samples :=
    place_of_older (older_of_refuses fits refused)
  have orderedNew := ordered.place ⟨stamp, motion⟩
  rw [front] at orderedNew ⊢
  have excess : ¬Fits history.capacity history.horizon (⟨stamp, motion⟩ :: history.samples) := by
    rw [fits_cons_iff orderedNew]
    rcases refuses_iff.1 refused with aged | ⟨full, _⟩
    · exact fun both => absurd both.2 (Nat.not_le_of_lt aged)
    · exact fun both => absurd both.1 (Nat.not_lt_of_le full)
  rw [trim_cons_of_not_fits orderedNew excess, trim_of_fits ordered fits]

/-! ## Insertions -/

theorem trim_ne_nil {capacity : Nat} (positive : 0 < capacity) {horizon : Duration}
    {samples : List (Sample α)} (ordered : Ordered samples) (occupied : samples ≠ []) :
    trim capacity horizon samples ≠ [] := by
  induction samples with
  | nil => exact absurd rfl occupied
  | cons head rest ih =>
      rcases trim_cons capacity horizon ordered with ⟨_, kept⟩ | ⟨excess, cut⟩
      · rw [kept]
        exact occupied
      · rw [cut]
        refine ih ordered.of_cons fun alone => excess ?_
        subst alone
        exact (fits_cons_iff ordered).2 ⟨positive, Nat.zero_le _⟩

/-- The history holds no more than its limits allow. -/
def Trimmed (history : History α) : Prop :=
  Fits history.capacity history.horizon history.samples

theorem trimmed_empty (capacity : Nat) (horizon : Duration) :
    (empty (α := α) capacity horizon).Trimmed :=
  fits_nil _ _

section Insert

variable (history : History α) (sample : Sample α)

@[simp] theorem capacity_insert : (history.insert sample).2.capacity = history.capacity := by
  unfold insert
  split <;> rfl

@[simp] theorem horizon_insert : (history.insert sample).2.horizon = history.horizon := by
  unfold insert
  split <;> rfl

variable {history}

theorem samples_insert (trimmed : history.Trimmed) :
    (history.insert sample).2.samples =
      trim history.capacity history.horizon (place sample history.samples) := by
  unfold insert
  split
  case isTrue refused => exact (trim_place_of_refuses trimmed refused).symm
  case isFalse => rfl

theorem Trimmed.insert (trimmed : history.Trimmed) : (history.insert sample).2.Trimmed := by
  unfold Trimmed
  rw [capacity_insert, horizon_insert, samples_insert sample trimmed]
  exact fits_trim (Ordered.place history.ordered sample)

variable {sample} in
theorem samples_ne_nil_of_refuses (refused : history.refuses sample.stamp = true) :
    history.samples ≠ [] := by
  intro nothing
  have unknown : history.span? = none := by simp [span?, earliest?, nothing]
  simp [refuses, unknown] at refused

theorem samples_insert_ne_nil : (history.insert sample).2.samples ≠ [] := by
  unfold History.insert
  split
  case isTrue refused => exact samples_ne_nil_of_refuses refused
  case isFalse =>
    apply trim_ne_nil history.capacity_pos (Ordered.place history.ordered sample)
    cases history.samples with
    | nil => simp [History.place]
    | cons head rest =>
        unfold History.place
        split
        · simp
        · split <;> simp

theorem insert_eq_of_dropped (dropped : (history.insert sample).1 = .dropped) :
    (history.insert sample).2 = history ∧ history.samples ≠ [] := by
  unfold History.insert at dropped ⊢
  split at dropped
  case isTrue refused =>
    rw [if_pos refused]
    exact ⟨rfl, samples_ne_nil_of_refuses refused⟩
  case isFalse =>
    dsimp only at dropped
    split at dropped <;> cases dropped

end Insert

/-- The history after several insertions, whatever became of each sample. -/
def insertAll (history : History α) (samples : List (Sample α)) : History α :=
  samples.foldl (fun history sample => (history.insert sample).2) history

/-- All samples in the order of their stamps; of samples with one stamp only the last. -/
def gather (samples : List (Sample α)) : List (Sample α) :=
  samples.foldl (fun gathered sample => place sample gathered) []

/-- A history that starts empty holds the end of all its samples that fits. -/
theorem samples_insertAll_empty (capacity : Nat) (horizon : Duration)
    (samples : List (Sample α)) :
    ((empty capacity horizon).insertAll samples).samples =
      trim (max capacity 1) horizon (gather samples) := by
  -- `gathered` is everything inserted so far, also what is no longer held
  suffices general : ∀ (history : History α) (gathered : List (Sample α)), Ordered gathered →
      history.Trimmed →
        history.samples = trim history.capacity history.horizon gathered →
          (history.insertAll samples).samples = trim history.capacity history.horizon
            (samples.foldl (fun gathered sample => place sample gathered) gathered) from
    general (empty capacity horizon) [] ordered_nil (trimmed_empty _ _) (by simp [empty, trim])
  induction samples with
  | nil => exact fun _ _ _ _ held => held
  | cons sample rest ih =>
      intro history gathered ordered trimmed held
      have next : (history.insert sample).2.samples =
          trim (history.insert sample).2.capacity (history.insert sample).2.horizon
            (place sample gathered) := by
        rw [samples_insert sample trimmed, held, trim_place_trim ordered, capacity_insert,
          horizon_insert]
      have further := ih (history.insert sample).2 (place sample gathered) (ordered.place sample)
        (trimmed.insert sample) next
      rw [capacity_insert, horizon_insert] at further
      exact further

/-! ## Order of arrival -/

theorem place_perm {sample : Sample α} {samples : List (Sample α)}
    (fresh : ∀ other ∈ samples, other.stamp ≠ sample.stamp) :
    (place sample samples).Perm (sample :: samples) := by
  induction samples with
  | nil => exact .refl _
  | cons head rest ih =>
      unfold place
      split
      · exact ((ih fun other member => fresh other (List.mem_cons_of_mem _ member)).cons head).trans
          (.swap sample head rest)
      · rw [if_neg (fresh head List.mem_cons_self)]

theorem ordered_gather (samples : List (Sample α)) : Ordered (gather samples) := by
  suffices general : ∀ gathered : List (Sample α), Ordered gathered →
      Ordered (samples.foldl (fun gathered sample => place sample gathered) gathered) from
    general [] ordered_nil
  induction samples with
  | nil => exact fun _ ordered => ordered
  | cons sample rest ih => exact fun gathered ordered => ih _ (ordered.place sample)

theorem gather_perm_self {samples : List (Sample α)}
    (distinct : (samples.map Sample.stamp).Nodup) : (gather samples).Perm samples := by
  suffices general : ∀ gathered : List (Sample α), ((samples ++ gathered).map Sample.stamp).Nodup →
      (samples.foldl (fun gathered sample => place sample gathered) gathered).Perm
        (samples ++ gathered) by
    have whole := general [] (by simpa using distinct)
    rwa [List.append_nil] at whole
  clear distinct
  induction samples with
  | nil => exact fun gathered _ => .refl _
  | cons sample rest ih =>
      intro gathered distinct
      have fresh : ∀ other ∈ gathered, other.stamp ≠ sample.stamp := by
        intro other member same
        rw [List.cons_append, List.map_cons, List.nodup_cons] at distinct
        exact distinct.1 (List.mem_map.2 ⟨other, List.mem_append_right _ member, same⟩)
      have moved : (rest ++ place sample gathered).Perm (sample :: rest ++ gathered) :=
        ((place_perm fresh).append_left rest).trans List.perm_middle
      exact (ih _ ((moved.map _).nodup_iff.2 distinct)).trans moved

/-- Samples with distinct stamps leave the same history in whatever order they arrive. -/
theorem gather_eq_of_perm {left right : List (Sample α)} (perm : left.Perm right)
    (distinct : (left.map Sample.stamp).Nodup) : gather left = gather right := by
  have distinctRight := (perm.map Sample.stamp).nodup_iff.1 distinct
  have same : (gather left).Perm (gather right) :=
    (gather_perm_self distinct).trans (perm.trans (gather_perm_self distinctRight).symm)
  apply same.eq_of_pairwise _ (ordered_gather left) (ordered_gather right)
  intro first second _ _ before after
  rw [Duration.lt_iff_toNat] at before after
  omega

theorem limits_insertAll (history : History α) (samples : List (Sample α)) :
    (history.insertAll samples).capacity = history.capacity ∧
      (history.insertAll samples).horizon = history.horizon := by
  induction samples generalizing history with
  | nil => exact ⟨rfl, rfl⟩
  | cons sample rest ih =>
      obtain ⟨capacity, horizon⟩ := ih (history.insert sample).2
      exact ⟨capacity.trans (history.capacity_insert sample),
        horizon.trans (history.horizon_insert sample)⟩

theorem forgetHint_eq_iff {first second : History α} : first.forgetHint = second.forgetHint ↔
    first.samples = second.samples ∧ first.capacity = second.capacity ∧
      first.horizon = second.horizon := by
  simp [forgetHint]

/-- Also what was dropped in one order and let go of later in the other makes no difference. -/
theorem forgetHint_insertAll_of_perm (capacity : Nat) (horizon : Duration)
    {left right : List (Sample α)} (perm : left.Perm right)
    (distinct : (left.map Sample.stamp).Nodup) :
    ((empty capacity horizon).insertAll left).forgetHint =
      ((empty capacity horizon).insertAll right).forgetHint := by
  obtain ⟨leftCapacity, leftHorizon⟩ := limits_insertAll (empty capacity horizon) left
  obtain ⟨rightCapacity, rightHorizon⟩ := limits_insertAll (empty capacity horizon) right
  refine forgetHint_eq_iff.2 ⟨?_, leftCapacity.trans rightCapacity.symm,
    leftHorizon.trans rightHorizon.symm⟩
  rw [samples_insertAll_empty, samples_insertAll_empty, gather_eq_of_perm perm distinct]

end History

end FrameForest
