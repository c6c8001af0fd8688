import FrameForest.Forest.Resolve
import FrameForest.Proofs.Edge.Bracketing
import FrameForest.Proofs.Edge.Retention

/-!
# Tables of edges

Queries move hints and nothing else, and hints change no answer: what a table
answers depends only on the edges that it holds once their hints are forgotten.
Tables that agree in this sense answer the same to whole lists of children.
-/

namespace FrameForest

namespace Table

variable {κ β : Type} [DecidableEq κ] {table : Table κ β} {key : κ} {value old : β}

omit [DecidableEq κ] in
theorem eq_of_bindings {left right : Table κ β} (same : left.bindings = right.bindings) :
    left = right := by
  cases left
  cases right
  cases same
  rfl

theorem bindings_insert_of_find? (found : table.find? key = some old) :
    (table.insert key value).bindings =
      table.bindings.map fun binding => if binding.1 = key then (key, value) else binding := by
  unfold insert
  split
  · rfl
  · rename_i absent
    rw [found] at absent
    cases absent

theorem bindings_insert_of_absent (absent : table.find? key = none) :
    (table.insert key value).bindings = table.bindings ++ [(key, value)] := by
  unfold insert
  split
  · rename_i found
    rw [absent] at found
    cases found
  · rfl

/-- What is bound already may be bound again. -/
theorem insert_eq_self (found : table.find? key = some value) : table.insert key value = table := by
  have unchanged : ∀ binding ∈ table.bindings,
      (if binding.1 = key then (key, value) else binding) = binding := by
    intro binding member
    split
    case isTrue here =>
      have bound : table.find? key = some binding.2 := find?_eq_some_iff.2 (here ▸ member)
      exact Prod.ext here.symm (Option.some.inj (found.symm.trans bound))
    case isFalse => rfl
  apply eq_of_bindings
  rw [bindings_insert_of_find? found]
  exact (List.map_congr_left unchanged).trans (List.map_id _)

omit [DecidableEq κ] in
theorem bindings_mapValues (f : β → β) (table : Table κ β) :
    (table.mapValues f).bindings = table.bindings.map fun binding => (binding.1, f binding.2) := rfl

theorem mapValues_insert (f : β → β) (table : Table κ β) (key : κ) (value : β) :
    (table.insert key value).mapValues f = (table.mapValues f).insert key (f value) := by
  have changed := find?_mapValues f table key
  apply eq_of_bindings
  rw [bindings_mapValues]
  cases found : table.find? key with
  | none =>
      rw [found, Option.map_none] at changed
      rw [bindings_insert_of_absent changed, bindings_insert_of_absent found, bindings_mapValues,
        List.map_append, List.map_singleton]
  | some held =>
      rw [found, Option.map_some] at changed
      rw [bindings_insert_of_find? changed, bindings_insert_of_find? found, bindings_mapValues,
        List.map_map, List.map_map]
      apply List.map_congr_left
      intro binding _
      by_cases here : binding.1 = key <;> simp [here]

theorem mapValues_erase (f : β → β) (table : Table κ β) (key : κ) :
    (table.erase key).mapValues f = (table.mapValues f).erase key := by
  apply eq_of_bindings
  simp [bindings_mapValues, erase, List.filter_map, Function.comp_def]

/-- Rebinding a key goes unnoticed by a change of values that does not tell the two apart. -/
theorem mapValues_insert_of_alike {f : β → β} (found : table.find? key = some old)
    (alike : f value = f old) : (table.insert key value).mapValues f = table.mapValues f := by
  rw [mapValues_insert, alike]
  apply insert_eq_self
  rw [find?_mapValues, found, Option.map_some]

omit [DecidableEq κ] in
theorem eq_empty_of_size (none : table.size = 0) : table = ∅ := by
  obtain ⟨bindings, distinct⟩ := table
  have nothing : bindings = [] := List.length_eq_zero_iff.1 none
  subst nothing
  rfl

theorem mem_values {table : Table κ β} {value : β} :
    value ∈ table.values ↔ ∃ key, table.find? key = some value := by
  simp only [values, List.mem_map, find?_eq_some_iff]
  constructor
  · rintro ⟨⟨key, value⟩, bound, rfl⟩
    exact ⟨key, bound⟩
  · rintro ⟨key, bound⟩
    exact ⟨(key, value), bound, rfl⟩

end Table

/-! ## Samples and hints -/

namespace History

variable {α : Type} {first second : History α}

theorem insert_congr (same : first.forgetHint = second.forgetHint) (sample : Sample α) :
    (first.insert sample).1 = (second.insert sample).1 ∧
      (first.insert sample).2.forgetHint = (second.insert sample).2.forgetHint := by
  obtain ⟨samples, capacity, horizon, hint, positive, ordered⟩ := first
  obtain ⟨_, _, _, other, _, _⟩ := second
  cases same
  have refusal : History.refuses ⟨samples, capacity, horizon, other, positive, ordered⟩ =
      History.refuses ⟨samples, capacity, horizon, hint, positive, ordered⟩ := rfl
  unfold insert
  rw [refusal]
  split
  · exact ⟨rfl, rfl⟩
  · exact ⟨rfl, rfl⟩

/-- A hint at the start stays there. -/
theorem forgetHint_insert {history : History α} (plain : history.forgetHint = history)
    (sample : Sample α) : (history.insert sample).2.forgetHint = (history.insert sample).2 := by
  have start : history.hint = 0 := (congrArg hint plain).symm
  unfold insert
  split
  · exact plain
  · simp [forgetHint, start]

end History

namespace Track

variable {α : Type} {first second : Track α}

theorem insert_congr (same : first.forgetHint = second.forgetHint) (sample : Sample α) :
    (first.insert sample).1 = (second.insert sample).1 ∧
      (first.insert sample).2.forgetHint = (second.insert sample).2.forgetHint := by
  cases first with
  | fixed motion =>
      cases second with
      | fixed other => exact ⟨rfl, rfl⟩
      | timed history => cases same
  | timed history =>
      cases second with
      | fixed motion => cases same
      | timed other =>
          have alike := History.insert_congr (timed.inj same) sample
          exact ⟨alike.1, congrArg timed alike.2⟩

theorem forgetHint_insert {track : Track α} (plain : track.forgetHint = track)
    (sample : Sample α) : (track.insert sample).2.forgetHint = (track.insert sample).2 := by
  cases track with
  | fixed motion => rfl
  | timed history => exact congrArg timed (History.forgetHint_insert (timed.inj plain) sample)

/-- The track after several insertions, whatever became of each sample. -/
def insertAll (track : Track α) (samples : List (Sample α)) : Track α :=
  samples.foldl (fun track sample => (track.insert sample).2) track

theorem insertAll_concat (track : Track α) (samples : List (Sample α)) (sample : Sample α) :
    track.insertAll (samples ++ [sample]) = ((track.insertAll samples).insert sample).2 :=
  List.foldl_append

theorem insertAll_timed (history : History α) (samples : List (Sample α)) :
    (timed history).insertAll samples = timed (history.insertAll samples) := by
  induction samples generalizing history with
  | nil => rfl
  | cons sample rest ih => exact ih _

theorem forgetHint_insertAll {track : Track α} (plain : track.forgetHint = track)
    (samples : List (Sample α)) :
    (track.insertAll samples).forgetHint = track.insertAll samples := by
  induction samples generalizing track with
  | nil => exact plain
  | cons sample rest ih => exact ih (forgetHint_insert plain sample)

@[simp] theorem isFixed_insert (track : Track α) (sample : Sample α) :
    (track.insert sample).2.isFixed = track.isFixed := by
  cases track <;> rfl

theorem samples_insert_ne_nil (track : Track α) (sample : Sample α) :
    (track.insert sample).2.samples ≠ [] := by
  cases track with
  | fixed motion => exact List.cons_ne_nil _ _
  | timed history => exact history.samples_insert_ne_nil sample

/-- Only a history that holds something drops a sample, and stays as it was. -/
theorem insert_eq_of_dropped {track : Track α} {sample : Sample α}
    (dropped : (track.insert sample).1 = .dropped) :
    (track.insert sample).2 = track ∧ track.isFixed = false ∧ track.samples ≠ [] := by
  cases track with
  | fixed motion => cases dropped
  | timed history =>
      have kept := History.insert_eq_of_dropped sample dropped
      exact ⟨congrArg timed kept.1, rfl, kept.2⟩

end Track

namespace Edge

variable {α : Type} {first second : Edge α}

theorem forgetHint_eq_iff : first.forgetHint = second.forgetHint ↔
    first.parent = second.parent ∧ first.child = second.child ∧
      first.track.forgetHint = second.track.forgetHint := by
  simp [forgetHint]

theorem insert_congr (same : first.forgetHint = second.forgetHint) (sample : Sample α) :
    (first.insert sample).1 = (second.insert sample).1 ∧
      (first.insert sample).2.forgetHint = (second.insert sample).2.forgetHint := by
  obtain ⟨sameParent, sameChild, sameTrack⟩ := forgetHint_eq_iff.1 same
  have alike := Track.insert_congr sameTrack sample
  exact ⟨alike.1, forgetHint_eq_iff.2 ⟨sameParent, sameChild, alike.2⟩⟩

theorem forgetHint_insert {edge : Edge α} (plain : edge.forgetHint = edge) (sample : Sample α) :
    (edge.insert sample).2.forgetHint = (edge.insert sample).2 := by
  have plainTrack : edge.track.forgetHint = edge.track := congrArg track plain
  have kept := Track.forgetHint_insert plainTrack sample
  exact congrArg (fun track => { edge with track }) kept

/-- The stamp at which the history of an edge starts. -/
def start? (edge : Edge α) : Option Stamp :=
  if edge.track.isFixed then none else edge.track.earliest?.map Sample.stamp

theorem start?_congr (same : first.forgetHint = second.forgetHint) :
    first.start? = second.start? := by
  have forgotten : ∀ edge : Edge α, edge.forgetHint.start? = edge.start? := by
    intro edge
    simp [start?, forgetHint, Track.earliest?]
  rw [← forgotten first, same, forgotten second]

end Edge

namespace EdgeTable

variable {α : Type}

/-- Every edge is kept under its own child. -/
def Keyed (edges : EdgeTable α) : Prop :=
  ∀ child edge, edges.find? child = some edge → edge.child = child

/-- The same edges, but for their hints. -/
def Agree (left right : EdgeTable α) : Prop :=
  ∀ child, (left.find? child).map Edge.forgetHint = (right.find? child).map Edge.forgetHint

theorem find?_forgetHints (edges : EdgeTable α) (child : String) :
    edges.forgetHints.find? child = (edges.find? child).map Edge.forgetHint :=
  Table.find?_mapValues _ _ _

@[simp] theorem forgetHints_forgetHints (edges : EdgeTable α) :
    edges.forgetHints.forgetHints = edges.forgetHints := by
  simp [forgetHints, Table.mapValues]

theorem agree_of_forgetHints_eq {left right : EdgeTable α}
    (same : left.forgetHints = right.forgetHints) : left.Agree right := by
  intro child
  rw [← find?_forgetHints, ← find?_forgetHints, same]

theorem agree_forgetHints (edges : EdgeTable α) : edges.Agree edges.forgetHints := by
  intro child
  rw [find?_forgetHints, Option.map_map]
  cases edges.find? child with
  | none => rfl
  | some edge => simp

theorem find?_put {edges : EdgeTable α} (edge : Edge α) (child : String) :
    (edges.put edge).find? child = if child = edge.child then some edge else edges.find? child :=
  Table.find?_insert _ _ _ _

theorem forgetHints_put (edges : EdgeTable α) (edge : Edge α) :
    (edges.put edge).forgetHints = edges.forgetHints.put edge.forgetHint :=
  Table.mapValues_insert _ _ _ _

theorem obtain_cases (edges : EdgeTable α) (parent child : String) (fresh : Track α) :
    (∃ edge, edges.find? child = some edge ∧
        (edge.parent = parent ∧ edge.track.isFixed = fresh.isFixed) ∧
          edges.obtain parent child fresh = edge) ∨
      (∀ edge, edges.find? child = some edge →
        ¬(edge.parent = parent ∧ edge.track.isFixed = fresh.isFixed)) ∧
        edges.obtain parent child fresh = ⟨parent, child, fresh⟩ := by
  unfold obtain
  cases found : edges.find? child with
  | none =>
      refine .inr ⟨fun edge held => ?_, rfl⟩
      cases held
  | some edge =>
      by_cases fits : edge.parent = parent ∧ edge.track.isFixed = fresh.isFixed
      · exact .inl ⟨edge, rfl, fits, if_pos fits⟩
      · refine .inr ⟨fun other held => ?_, if_neg fits⟩
        cases held
        exact fits

theorem parent_obtain (edges : EdgeTable α) (parent child : String) (fresh : Track α) :
    (edges.obtain parent child fresh).parent = parent := by
  rcases edges.obtain_cases parent child fresh with ⟨edge, _, fits, kept⟩ | ⟨_, renewed⟩
  · rw [kept, fits.1]
  · rw [renewed]

theorem Keyed.child_obtain {edges : EdgeTable α} (keyed : edges.Keyed) (parent child : String)
    (fresh : Track α) : (edges.obtain parent child fresh).child = child := by
  rcases edges.obtain_cases parent child fresh with ⟨edge, found, _, kept⟩ | ⟨_, renewed⟩
  · rw [kept, keyed child edge found]
  · rw [renewed]

theorem isFixed_obtain (edges : EdgeTable α) (parent child : String) (fresh : Track α) :
    (edges.obtain parent child fresh).track.isFixed = fresh.isFixed := by
  rcases edges.obtain_cases parent child fresh with ⟨edge, _, fits, kept⟩ | ⟨_, renewed⟩
  · rw [kept, fits.2]
  · rw [renewed]

namespace Agree

variable {left right : EdgeTable α} {child : String}

theorem symm (agree : left.Agree right) : right.Agree left :=
  fun child => (agree child).symm

theorem trans {other : EdgeTable α} (first : left.Agree right) (second : right.Agree other) :
    left.Agree other :=
  fun child => (first child).trans (second child)

theorem cases_find? (agree : left.Agree right) (child : String) :
    (left.find? child = none ∧ right.find? child = none) ∨
      ∃ first second, left.find? child = some first ∧ right.find? child = some second ∧
        first.forgetHint = second.forgetHint := by
  have same := agree child
  cases leftFound : left.find? child with
  | none =>
      cases rightFound : right.find? child with
      | none => exact .inl ⟨rfl, rfl⟩
      | some second => simp [leftFound, rightFound] at same
  | some first =>
      cases rightFound : right.find? child with
      | none => simp [leftFound, rightFound] at same
      | some second =>
          rw [leftFound, rightFound] at same
          exact .inr ⟨first, second, rfl, rfl, Option.some.inj same⟩

theorem keyed (agree : left.Agree right) (keyed : left.Keyed) : right.Keyed := by
  intro child edge found
  rcases agree.cases_find? child with ⟨_, absent⟩ | ⟨first, second, leftFound, rightFound, same⟩
  · rw [found] at absent
    cases absent
  · rw [found] at rightFound
    cases rightFound
    rw [← keyed child first leftFound]
    exact (congrArg Edge.child same).symm

theorem put (agree : left.Agree right) {first second : Edge α}
    (same : first.forgetHint = second.forgetHint) : (left.put first).Agree (right.put second) := by
  intro child
  have sameChild : first.child = second.child := (Edge.forgetHint_eq_iff.1 same).2.1
  rw [find?_put, find?_put, sameChild]
  split
  · exact congrArg some same
  · exact agree child

theorem erase (agree : left.Agree right) (key : String) :
    EdgeTable.Agree (left.erase key) (right.erase key) := by
  intro child
  rw [Table.find?_erase, Table.find?_erase]
  split
  · rfl
  · exact agree child

theorem obtain (agree : left.Agree right) (parent child : String) (fresh : Track α) :
    (left.obtain parent child fresh).forgetHint = (right.obtain parent child fresh).forgetHint := by
  unfold EdgeTable.obtain
  rcases agree.cases_find? child with
    ⟨leftAbsent, rightAbsent⟩ | ⟨first, second, leftFound, rightFound, same⟩
  · rw [leftAbsent, rightAbsent]
  · rw [leftFound, rightFound]
    have sameParent : first.parent = second.parent := (Edge.forgetHint_eq_iff.1 same).1
    have sameKind : first.track.isFixed = second.track.isFixed := by
      simpa [Edge.forgetHint] using congrArg (fun edge => edge.track.isFixed) same
    dsimp only
    rw [sameParent, sameKind]
    split
    · exact same
    · rfl

private theorem start?_of_agree (agree : left.Agree right) {stamp : Stamp}
    (member : stamp ∈ left.values.filterMap Edge.start?) :
    stamp ∈ right.values.filterMap Edge.start? := by
  obtain ⟨edge, present, early⟩ := List.mem_filterMap.1 member
  obtain ⟨child, found⟩ := Table.mem_values.1 present
  rcases agree.cases_find? child with ⟨absent, _⟩ | ⟨first, second, leftFound, rightFound, same⟩
  · rw [absent] at found
    cases found
  · rw [leftFound] at found
    cases found
    have held : second ∈ right.values := Table.mem_values.2 ⟨child, rightFound⟩
    exact List.mem_filterMap.2 ⟨second, held, (Edge.start?_congr same).symm.trans early⟩

/-- The earliest stamp is a matter of the samples, wherever their edges are listed. -/
theorem earliestTimed?_eq (agree : left.Agree right) :
    left.earliestTimed? = right.earliestTimed? := by
  have least : ∀ edges : EdgeTable α,
      edges.earliestTimed? = (edges.values.filterMap Edge.start?).min? := fun _ => rfl
  apply Option.ext
  intro stamp
  rw [least, least, List.min?_eq_some_iff, List.min?_eq_some_iff]
  constructor
  · rintro ⟨member, first⟩
    exact ⟨start?_of_agree agree member, fun other present =>
      first other (start?_of_agree agree.symm present)⟩
  · rintro ⟨member, first⟩
    exact ⟨start?_of_agree agree.symm member, fun other present =>
      first other (start?_of_agree agree present)⟩

end Agree

/-- The earliest timed stamp is where some history starts. -/
theorem exists_start_of_earliestTimed? {edges : EdgeTable α} {earliest : Stamp}
    (least : edges.earliestTimed? = some earliest) :
    ∃ child edge, edges.find? child = some edge ∧ edge.start? = some earliest := by
  have member : earliest ∈ edges.values.filterMap Edge.start? := List.min?_mem least
  obtain ⟨edge, present, starts⟩ := List.mem_filterMap.1 member
  obtain ⟨child, found⟩ := Table.mem_values.1 present
  exact ⟨child, edge, found, starts⟩

theorem exists_earliestTimed? {edges : EdgeTable α} {child : String} {edge : Edge α}
    {start : Stamp} (found : edges.find? child = some edge) (starts : edge.start? = some start) :
    ∃ earliest, edges.earliestTimed? = some earliest := by
  have member : start ∈ edges.values.filterMap Edge.start? :=
    List.mem_filterMap.2 ⟨edge, Table.mem_values.2 ⟨child, found⟩, starts⟩
  have least : edges.earliestTimed? ≠ none :=
    fun absent => List.ne_nil_of_mem member (List.min?_eq_none_iff.1 absent)
  exact Option.ne_none_iff_exists'.1 least

theorem keyed_empty : (∅ : EdgeTable α).Keyed := by
  intro child edge found
  cases found

section Query

variable [Scalar α] {edges left right : EdgeTable α}

theorem forgetHints_query (keyed : edges.Keyed) (parent child : String) (time : Stamp)
    (tolerance : Duration) :
    (edges.query parent child time tolerance).2.forgetHints = edges.forgetHints := by
  unfold query
  split
  case h_1 => rfl
  case h_2 edge found =>
    have kept := edge.forgetHint_query time tolerance
    have sameChild := congrArg Edge.child kept
    have key : (edge.query time tolerance).2.child = child :=
      sameChild.trans (keyed child edge found)
    show (edges.put (edge.query time tolerance).2).forgetHints = edges.forgetHints
    unfold put
    rw [key]
    exact Table.mapValues_insert_of_alike found kept

theorem fst_query_congr (agree : left.Agree right) (parent child : String) (time : Stamp)
    (tolerance : Duration) :
    (left.query parent child time tolerance).1 = (right.query parent child time tolerance).1 := by
  unfold query
  rcases agree.cases_find? child with
    ⟨leftAbsent, rightAbsent⟩ | ⟨first, second, leftFound, rightFound, same⟩
  · rw [leftAbsent, rightAbsent]
  · rw [leftFound, rightFound]
    show (first.query time tolerance).1 = (second.query time tolerance).1
    rw [← first.query_forgetHint, same, second.query_forgetHint]

theorem queryAll_cons (edges : EdgeTable α) (parentOf : String → String) (time : Stamp)
    (tolerance : Duration) (child : String) (rest : List String) :
    edges.queryAll parentOf time tolerance (child :: rest) =
      match edges.query (parentOf child) child time tolerance with
      | (.error failure, next) => (.error failure, next)
      | (.ok motion, next) =>
        ((next.queryAll parentOf time tolerance rest).1.map (motion :: ·),
          (next.queryAll parentOf time tolerance rest).2) := rfl

theorem forgetHints_queryAll (keyed : edges.Keyed) (parentOf : String → String) (time : Stamp)
    (tolerance : Duration) (children : List String) :
    (edges.queryAll parentOf time tolerance children).2.forgetHints = edges.forgetHints := by
  induction children generalizing edges with
  | nil => rfl
  | cons child rest ih =>
      have kept := forgetHints_query keyed (parentOf child) child time tolerance
      rw [queryAll_cons]
      generalize edges.query (parentOf child) child time tolerance = told at kept ⊢
      obtain ⟨found, next⟩ := told
      cases found with
      | error failure => exact kept
      | ok motion =>
          have nextKeyed := (agree_of_forgetHints_eq kept).symm.keyed keyed
          exact (ih nextKeyed).trans kept

theorem fst_queryAll_congr (agree : left.Agree right) (leftKeyed : left.Keyed)
    (parentOf : String → String) (time : Stamp) (tolerance : Duration) (children : List String) :
    (left.queryAll parentOf time tolerance children).1 =
      (right.queryAll parentOf time tolerance children).1 := by
  induction children generalizing left right with
  | nil => rfl
  | cons child rest ih =>
      have answer := fst_query_congr agree (parentOf child) child time tolerance
      have leftKept := forgetHints_query leftKeyed (parentOf child) child time tolerance
      have rightKept :=
        forgetHints_query (agree.keyed leftKeyed) (parentOf child) child time tolerance
      rw [queryAll_cons, queryAll_cons]
      generalize left.query (parentOf child) child time tolerance = leftTold at answer leftKept ⊢
      generalize right.query (parentOf child) child time tolerance = rightTold
        at answer rightKept ⊢
      obtain ⟨leftFound, leftNext⟩ := leftTold
      obtain ⟨rightFound, rightNext⟩ := rightTold
      dsimp only at answer
      subst answer
      cases leftFound with
      | error failure => rfl
      | ok motion =>
          have leftAgree := agree_of_forgetHints_eq leftKept
          have rightAgree := agree_of_forgetHints_eq rightKept
          have next := ih ((leftAgree.trans agree).trans rightAgree.symm)
            (leftAgree.symm.keyed leftKeyed)
          exact congrArg (Except.map (motion :: ·)) next

/-- The hints that one query moves do not show in the answers to the next. -/
theorem fst_queryAll (keyed : edges.Keyed) (parentOf : String → String) (time : Stamp)
    (tolerance : Duration) (children : List String) :
    (edges.queryAll parentOf time tolerance children).1 =
      children.mapM fun child => (edges.query (parentOf child) child time tolerance).1 := by
  induction children with
  | nil => rfl
  | cons child rest ih =>
      have kept := forgetHints_query keyed (parentOf child) child time tolerance
      rw [queryAll_cons, List.mapM_cons, ← ih]
      generalize edges.query (parentOf child) child time tolerance = told at kept ⊢
      obtain ⟨found, next⟩ := told
      cases found with
      | error failure => rfl
      | ok motion =>
          have agree := agree_of_forgetHints_eq kept
          dsimp only
          rw [fst_queryAll_congr agree (agree.symm.keyed keyed)]
          cases (edges.queryAll parentOf time tolerance rest).1 <;> rfl

end Query

end EdgeTable

end FrameForest
