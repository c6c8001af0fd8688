import FrameForest.Proofs.Forest.Calls

/-!
# Arrivals that leave no trace

Whether a parent is accepted is decided before anything changes, be its ends
registered or not.  A sample is dropped only where its edge is there already, and
then neither a frame was registered nor an edge moved or replaced on the way to
it.  Such an arrival leaves the very forest that it found: the frames in their
order, the links, the edges with their samples and hints, and the memo with its
entries and counts.
-/

namespace FrameForest

variable {α : Type}

/-- What is told of an arrival of which nothing was recorded. -/
inductive Recording.Void : Except Failure Recording → Prop
  | refused (failure : Failure) : Void (.error failure)
  | dropped : Void (.ok .dropped)

theorem ParentChange.eq_dropped_of_report {change : ParentChange} {insertion : Insertion}
    (told : change.report insertion = .dropped) : insertion = .dropped := by
  cases change <;> cases insertion <;> simp_all [report]

namespace Forest

theorem Consistent.recordIn_eq_self {forest : Forest α} (consistent : forest.Consistent)
    {arrival : Arrival α} (void : Recording.Void (arrival.recordIn forest).result.1) :
    (arrival.recordIn forest).result.2 = forest := by
  rw [recordIn_result] at void ⊢
  cases asked : forest.graph.setParent arrival.parent arrival.child forest.settings.reparenting with
  | error failure => rfl
  | ok accepted =>
      obtain ⟨change, next⟩ := accepted
      rw [asked] at void
      dsimp only at void
      generalize told : change.report (forest.take arrival change).1 = recording at void
      cases void with
      | dropped =>
          apply consistent.accept_eq_self (FrameGraph.accepts_of_setParent asked)
          exact ParentChange.eq_dropped_of_report told

variable [Scalar α]

/-- A refused or dropped arrival leaves the forest exactly as it was.  But for its own answer, a run
goes on as if the arrival had never come. -/
theorem void_arrival_leaves_no_trace (settings : Settings) (calls : List (Call α))
    (arrival : Arrival α)
    (void : Recording.Void (arrival.recordIn (after settings calls)).result.1) :
    (∀ failure, (arrival.recordIn (after settings calls)).result.1 = .error failure →
        (after settings calls).graph.Refuses arrival.parent arrival.child failure) ∧
      (arrival.recordIn (after settings calls)).result.2 = after settings calls ∧
      ∀ later : List (Call α),
        after settings (calls ++ .record arrival :: later) = after settings (calls ++ later) ∧
          ((Forest.empty settings).run (calls ++ .record arrival :: later)).1.eraseIdx
              calls.length =
            ((Forest.empty settings).run (calls ++ later)).1 := by
  have kept := (sound_after settings calls).consistent.recordIn_eq_self void
  refine ⟨fun failure refused => ?_, kept, fun later => ?_⟩
  · rw [recordIn_result] at refused
    split at refused
    case h_1 asked =>
      cases refused
      exact FrameGraph.refuses_of_setParent asked
    case h_2 => cases refused
  · have next : ((Call.record arrival).perform ((Forest.empty settings).run calls).2).2 =
        ((Forest.empty settings).run calls).2 := kept
    have told : ((Forest.empty settings).run calls).1.length = calls.length :=
      length_fst_run _ calls
    rw [after, after, run_append, run_append, run, next]
    refine ⟨rfl, ?_⟩
    rw [← told, List.eraseIdx_append_of_length_le (Nat.le_refl _), Nat.sub_self,
      List.eraseIdx_cons_zero]

/-- An old sample comes late to the only place of a robot's history. -/
theorem void_arrival_leaves_no_trace_robot :
    ((Arrival.timed (α := Float) ⟨"map", "robot", ⟨3⟩, 1⟩).recordIn
        (after { Settings.standard with samplesPerEdge := 1 }
          [.record (.timed ⟨"map", "robot", ⟨5⟩, 1⟩)])).result.2 =
      after { Settings.standard with samplesPerEdge := 1 }
        [.record (.timed ⟨"map", "robot", ⟨5⟩, 1⟩)] := by
  have told : ((Arrival.timed (α := Float) ⟨"map", "robot", ⟨3⟩, 1⟩).recordIn
      (after { Settings.standard with samplesPerEdge := 1 }
        [.record (.timed ⟨"map", "robot", ⟨5⟩, 1⟩)])).result.1 = .ok .dropped := by
    decide +kernel
  exact (void_arrival_leaves_no_trace _ _ _ (told ▸ .dropped)).2.1

end Forest

end FrameForest
