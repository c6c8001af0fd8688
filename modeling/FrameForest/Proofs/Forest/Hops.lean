import FrameForest.Proofs.Forest.Lookups

/-!
# The edges along a route

A traversal asks every edge of its route and composes what they answer.  The
hints that one edge moves have no part in the answer of another, so that the
answers can be taken one by one.
-/

namespace FrameForest

theorem mapM_eq_ok_iff {ε β γ : Type} {answer : β → Except ε γ} (default : γ) {items : List β}
    {results : List γ} : items.mapM answer = .ok results ↔
      (∀ item ∈ items, (answer item).isOk) ∧
        (items.map fun item => (answer item).toOption.getD default) = results := by
  induction items generalizing results with
  | nil => simp [pure, Except.pure]
  | cons item rest ih =>
      rw [List.mapM_cons, List.forall_mem_cons, List.map_cons]
      cases answer item with
      | error failure => simp [bind, Except.bind, Except.isOk, Except.toBool]
      | ok result =>
          cases later : rest.mapM answer with
          | error failure =>
              have never : ¬∀ other ∈ rest, (answer other).isOk := by
                intro every
                have told := ih.2 ⟨every, rfl⟩
                rw [later] at told
                cases told
              simp [bind, Except.bind, never]
          | ok others =>
              obtain ⟨every, rfl⟩ := ih.1 later
              simpa [bind, Except.bind, pure, Except.pure, Except.isOk, Except.toBool,
                Except.toOption] using fun _ => every

section Failures

variable {ε β γ : Type} {answer : β → Except ε γ} {item : β} {items rest : List β} {failure : ε}

theorem mapM_congr {other : β → Except ε γ} (same : ∀ item ∈ items, answer item = other item) :
    items.mapM answer = items.mapM other := by
  induction items with
  | nil => rfl
  | cons head rest ih =>
      rw [List.mapM_cons, List.mapM_cons, same head List.mem_cons_self,
        ih fun item member => same item (List.mem_cons_of_mem _ member)]

/-- The first item that fails is the one that is told of. -/
theorem mapM_cons_eq_error_iff : (item :: rest).mapM answer = .error failure ↔
    answer item = .error failure ∨ (answer item).isOk ∧ rest.mapM answer = .error failure := by
  rw [List.mapM_cons]
  cases answer item with
  | error cause => simp [bind, Except.bind, Except.isOk, Except.toBool]
  | ok result =>
      cases rest.mapM answer <;>
        simp [bind, Except.bind, pure, Except.pure, Except.isOk, Except.toBool]

theorem exists_error_of_mapM (failed : items.mapM answer = .error failure) :
    ∃ item ∈ items, answer item = .error failure := by
  induction items with
  | nil => cases failed
  | cons head rest ih =>
      rcases mapM_cons_eq_error_iff.1 failed with first | ⟨_, later⟩
      · exact ⟨head, List.mem_cons_self, first⟩
      · obtain ⟨item, member, told⟩ := ih later
        exact ⟨item, List.mem_cons_of_mem _ member, told⟩

end Failures

namespace Forest

variable {α : Type} [Scalar α] {forest : Forest α} {time : Stamp}

/-- What the edge of `child` answers at `time`. -/
def motionOf (forest : Forest α) (time : Stamp) (child : String) : Except Failure (Motion α) :=
  (forest.edges.query ((forest.graph.parent? child).getD child) child time
    forest.settings.tolerance).1

theorem motionOf_of_find? {child : String} {edge : Edge α}
    (found : forest.edges.find? child = some edge) (time : Stamp) :
    forest.motionOf time child = (edge.query time forest.settings.tolerance).1 := by
  rw [motionOf, EdgeTable.query, found]
  rfl

theorem motionOf_of_absent {child : String} (absent : forest.edges.find? child = none)
    (time : Stamp) : forest.motionOf time child =
      .error (.unconnected child ((forest.graph.parent? child).getD child)) := by
  rw [motionOf, EdgeTable.query, absent]

/-- The motion from a frame up to its parent.  Where no edge answers, nothing moves. -/
def hop (forest : Forest α) (time : Stamp) (frame : String) : Motion α :=
  (forest.motionOf time frame).toOption.getD 1

theorem fst_traverse (keyed : forest.edges.Keyed) (route : Route) (time : Stamp) :
    (forest.traverse route time).1 =
      ((route.up ++ route.down).mapM (forest.motionOf time)).map fun motions =>
        compose (motions.take route.up.length) (motions.drop route.up.length) :=
  congrArg (Except.map _) (EdgeTable.fst_queryAll keyed _ _ _ _)

/-- Every edge along a route is asked, and the answers are composed. -/
theorem fst_traverse_eq_ok_iff (keyed : forest.edges.Keyed) {route : Route} {motion : Motion α} :
    (forest.traverse route time).1 = .ok motion ↔
      (∀ child ∈ route.up ++ route.down, (forest.motionOf time child).isOk) ∧
        compose (route.up.map (forest.hop time)) (route.down.map (forest.hop time)) = motion := by
  have answered : ∀ motions, (route.up ++ route.down).mapM (forest.motionOf time) = .ok motions ↔
      (∀ child ∈ route.up ++ route.down, (forest.motionOf time child).isOk) ∧
        (route.up ++ route.down).map (forest.hop time) = motions := fun _ => mapM_eq_ok_iff 1
  rw [fst_traverse keyed]
  constructor
  · intro told
    cases asked : (route.up ++ route.down).mapM (forest.motionOf time) with
    | error failure =>
        rw [asked] at told
        cases told
    | ok motions =>
        obtain ⟨every, rfl⟩ := (answered motions).1 asked
        rw [asked] at told
        exact ⟨every, by simpa [Except.map] using told⟩
  · rintro ⟨every, rfl⟩
    rw [(answered _).2 ⟨every, rfl⟩]
    simp [Except.map]

end Forest

end FrameForest
