import FrameForest.Edge.Sample

/-!
# Histories

The retained samples of one edge, in ascending order of their stamps.  A history
keeps at most `capacity` samples, none older than the newest one by more than
`horizon`.  A query answers between the first and the last sample, and a given
tolerance beyond them, but never extrapolates.

Playback mostly moves forward, so a query first tries the pair of samples that
answered before.  That position is only a shortcut: it is checked before use.
-/

namespace FrameForest

/-- What became of an incoming sample. -/
inductive Insertion where
  | inserted
  /-- A sample with the same stamp was there and has been overwritten. -/
  | replaced
  /-- The sample is older than what is retained, and nothing was stored. -/
  | dropped
  deriving DecidableEq, Repr

structure History (α : Type) where
  samples : List (Sample α)
  capacity : Nat
  horizon : Duration
  /-- Position of the sample that started the last bracketing. -/
  hint : Nat
  capacity_pos : 0 < capacity
  ordered : samples.Pairwise fun earlier later => earlier.stamp < later.stamp

namespace History

variable {α : Type}

/-- An empty history; a capacity of zero counts as one. -/
def empty (capacity : Nat) (horizon : Duration) : History α where
  samples := []
  capacity := max capacity 1
  horizon := horizon
  hint := 0
  capacity_pos := by omega
  ordered := .nil

def earliest? (history : History α) : Option (Sample α) :=
  history.samples.head?

def latest? (history : History α) : Option (Sample α) :=
  history.samples.getLast?

/-- From the first stamp to the last. -/
def span? (history : History α) : Option TimeSpan := do
  let first ← history.earliest?
  let last ← history.latest?
  pure ⟨first.stamp, last.stamp⟩

def forgetHint (history : History α) : History α :=
  { history with hint := 0 }

/-- A sample at `stamp` would be the first to go: it is past the horizon, or older than all of a
full history. -/
def refuses (history : History α) (stamp : Stamp) : Bool :=
  match history.span? with
  | none => false
  | some span =>
    decide (stamp < span.stop.saturatingSub history.horizon) ||
      (decide (history.capacity ≤ history.samples.length) && decide (stamp < span.start))

/-- Puts a sample into its place by stamp, over a sample with the same stamp. -/
def place (sample : Sample α) : List (Sample α) → List (Sample α)
  | [] => [sample]
  | head :: rest =>
    if head.stamp < sample.stamp then head :: place sample rest
    else if head.stamp = sample.stamp then sample :: rest
    else sample :: head :: rest

/-- Lets go of the oldest samples above `capacity` and of those past the horizon of the newest. -/
def trim (capacity : Nat) (horizon : Duration) (samples : List (Sample α)) : List (Sample α) :=
  let recent := samples.drop (samples.length - capacity)
  match recent.getLast? with
  | none => recent
  | some newest =>
    recent.dropWhile fun sample => decide (sample.stamp < newest.stamp.saturatingSub horizon)

theorem trim_sublist (capacity : Nat) (horizon : Duration) (samples : List (Sample α)) :
    (trim capacity horizon samples).Sublist samples := by
  unfold trim
  dsimp only
  split
  · exact List.drop_sublist _ _
  · exact (List.dropWhile_sublist _).trans (List.drop_sublist _ _)

theorem mem_place {sample other : Sample α} {samples : List (Sample α)}
    (member : other ∈ place sample samples) : other = sample ∨ other ∈ samples := by
  induction samples with
  | nil => exact .inl (by simpa [place] using member)
  | cons head rest ih =>
      unfold place at member
      split at member
      · rcases List.mem_cons.1 member with rfl | later
        · exact .inr List.mem_cons_self
        · exact (ih later).imp id (List.mem_cons_of_mem _)
      · split at member
        · exact (List.mem_cons.1 member).imp id (List.mem_cons_of_mem _)
        · exact List.mem_cons.1 member

theorem ordered_place {samples : List (Sample α)} (sample : Sample α)
    (ordered : samples.Pairwise fun earlier later => earlier.stamp < later.stamp) :
    (place sample samples).Pairwise fun earlier later => earlier.stamp < later.stamp := by
  induction samples with
  | nil => simp [place]
  | cons head rest ih =>
      have ⟨first, others⟩ := List.pairwise_cons.1 ordered
      unfold place
      split
      case isTrue less =>
        refine List.pairwise_cons.2 ⟨fun other member => ?_, ih others⟩
        rcases mem_place member with rfl | old
        · exact less
        · exact first other old
      case isFalse notLess =>
        split
        case isTrue same =>
          exact List.pairwise_cons.2 ⟨fun other member => same ▸ first other member, others⟩
        case isFalse differ =>
          have before : sample.stamp < head.stamp := by
            rw [Duration.lt_iff_toNat] at notLess ⊢
            rw [Duration.eq_iff_toNat] at differ
            omega
          refine List.pairwise_cons.2 ⟨fun other member => ?_, ordered⟩
          rcases List.mem_cons.1 member with rfl | old
          · exact before
          · have after := first other old
            rw [Duration.lt_iff_toNat] at before after ⊢
            omega

/-- The history with one more sample, trimmed to what it may retain. -/
def insert (history : History α) (sample : Sample α) : Insertion × History α :=
  if history.refuses sample.stamp then (.dropped, history)
  else
    let samples := trim history.capacity history.horizon (place sample history.samples)
    let present := history.samples.any fun other => decide (other.stamp = sample.stamp)
    (if present then .replaced else .inserted,
      { history with
        samples := samples
        hint := if history.hint < samples.length then history.hint else 0
        ordered := (ordered_place sample history.ordered).sublist (trim_sublist _ _ _) })

/-- Two samples around a time, and the position of the first. -/
structure Bracket (α : Type) where
  before : Sample α
  after : Sample α
  position : Nat

/-- The samples at `position` and after it, if `time` lies between their stamps. -/
def bracketAt? (history : History α) (position : Nat) (time : Stamp) : Option (Bracket α) :=
  match history.samples.drop position with
  | before :: after :: _ =>
    if before.stamp ≤ time ∧ time ≤ after.stamp then some ⟨before, after, position⟩ else none
  | _ => none

/-- The last sample at or before `time` and its successor; the last sample of all is its own. -/
def bracketSearch? (history : History α) (time : Stamp) : Option (Bracket α) :=
  let position := (history.samples.takeWhile fun sample => decide (sample.stamp ≤ time)).length - 1
  match history.samples.drop position with
  | before :: after :: _ => if before.stamp ≤ time then some ⟨before, after, position⟩ else none
  | [last] => if last.stamp ≤ time then some ⟨last, last, position⟩ else none
  | [] => none

def bracket? (history : History α) (time : Stamp) : Option (Bracket α) :=
  (history.bracketAt? history.hint time).or (history.bracketSearch? time)

/-- The motion at `time`, and the history with its hint moved there.  Beyond the first and the last
sample these answer themselves, as long as they are within `tolerance`. -/
def query [Scalar α] (history : History α) (time : Stamp) (tolerance : Duration) :
    Option (Motion α) × History α :=
  match history.earliest?, history.latest? with
  | some first, some last =>
    if (TimeSpan.mk first.stamp last.stamp).containsWithin time tolerance = false then
      (none, history)
    else if time < first.stamp then (some first.motion, history)
    else if last.stamp < time then (some last.motion, history)
    else
      match history.bracket? time with
      | none => (none, history)
      | some bracket =>
        (if bracket.before.stamp = time then some bracket.before.motion
          else (bracket.before.interpolate bracket.after time).toOption,
          { history with hint := bracket.position })
  | _, _ => (none, history)

end History

end FrameForest
