import FrameForest.Proofs.Edge.Answers
import FrameForest.Proofs.Edge.Holdings
import FrameForest.Proofs.Forest.Hops
import FrameForest.Proofs.Forest.Provenance
import FrameForest.Proofs.Frame.Routes

/-!
# Samples that are stored

The histories of a forest that calls have made hold no more than their limits
allow.  Such a history stores a sample exactly when it admits the stamp.  A stored
sample is what its edge answers at that stamp, on the way up and on the way down.
-/

namespace FrameForest

variable {α : Type}

/-! ## Reachable histories -/

/-- The history of the track, if it has one, holds no more than its limits allow. -/
def Track.Trimmed : Track α → Prop
  | fixed _ => True
  | timed history => history.Trimmed

theorem Track.Trimmed.insertAll {track : Track α} (trimmed : track.Trimmed)
    (samples : List (Sample α)) : (track.insertAll samples).Trimmed := by
  induction samples generalizing track with
  | nil => exact trimmed
  | cons sample rest ih =>
      apply ih
      cases track with
      | fixed motion => trivial
      | timed history => exact History.Trimmed.insert sample trimmed

namespace Arrival

theorem trimmed_freshTrack (settings : Settings) (arrival : Arrival α) :
    (arrival.freshTrack settings).Trimmed := by
  cases arrival with
  | timed stamped => exact History.trimmed_empty _ _
  | fixed stamped => trivial

theorem trimmed_build {settings : Settings} {child : String} {arrivals : List (Arrival α)}
    {edge : Edge α} (built : build settings child arrivals = some edge) : edge.track.Trimmed := by
  cases arrivals with
  | nil => cases built
  | cons first rest =>
      cases built
      exact (first.trimmed_freshTrack settings).insertAll _

end Arrival

namespace Forest

variable {forest : Forest α} {stamped : StampedMotion α}

theorem trimmed_after [Scalar α] (settings : Settings) (calls : List (Call α)) {child : String}
    {edge : Edge α} (found : (after settings calls).edges.find? child = some edge) :
    edge.track.Trimmed := by
  have traced := ((Traced.empty settings child).run (.empty settings) calls).edge
  change ((after settings calls).edges.find? child).map Edge.forgetHint = _ at traced
  rw [found, Option.map_some] at traced
  have trimmed := Arrival.trimmed_build traced.symm
  cases edge with
  | mk parent child track =>
      cases track with
      | fixed motion => trivial
      | timed history => exact trimmed

/-! ## Recording -/

/-- The sample is stored in the history of its edge. -/
def Stores (forest : Forest α) (stamped : StampedMotion α) : Prop :=
  ∃ history, forest.edges.find? stamped.child =
      some ⟨stamped.parent, stamped.child, .timed history⟩ ∧
    ⟨stamped.stamp, stamped.motion⟩ ∈ history.samples

theorem stores_iff_of_find? {history : History α}
    (found : forest.edges.find? stamped.child =
      some ⟨stamped.parent, stamped.child, .timed history⟩) :
    forest.Stores stamped ↔ ⟨stamped.stamp, stamped.motion⟩ ∈ history.samples := by
  unfold Stores
  rw [found]
  constructor
  · rintro ⟨_, same, member⟩
    cases same
    exact member
  · exact fun member => ⟨history, rfl, member⟩

section Accept

variable {change : ParentChange} {next : FrameGraph} {history : History α}
  (consistent : forest.Consistent)
  (accepted : forest.graph.Accepts (Arrival.timed stamped).parent (Arrival.timed stamped).child
    change next)
  (obtained : forest.edges.obtain stamped.parent stamped.child
    ((Arrival.timed stamped).freshTrack forest.settings) =
      ⟨stamped.parent, stamped.child, .timed history⟩)

include consistent accepted obtained

/-- An accepted sample goes into the history of its edge, be it an old or an empty one. -/
theorem Consistent.take_timed : forest.take (.timed stamped) change =
    (history.insert ⟨stamped.stamp, stamped.motion⟩).map id fun history =>
      ⟨stamped.parent, stamped.child, .timed history⟩ :=
  (consistent.take_eq accepted).trans (congrArg (Edge.insert · _) obtained)

theorem Consistent.stores_accept_iff (trimmed : history.Trimmed) :
    (forest.accept (.timed stamped) change next).Stores stamped ↔
      history.Admits stamped.stamp := by
  have stored := consistent.find?_accept accepted stamped.child
  rw [consistent.take_timed accepted obtained] at stored
  rw [stores_iff_of_find? (stored.trans (if_pos rfl))]
  exact History.mem_insert_iff trimmed

end Accept

section Record

variable [Scalar α]

/-- A sample for an edge that is there is stored if the history admits it, and lost without a trace
otherwise. -/
theorem Consistent.record_held (consistent : forest.Consistent) {history : History α}
    (found : forest.edges.find? stamped.child =
      some ⟨stamped.parent, stamped.child, .timed history⟩) (trimmed : history.Trimmed) :
    (((Call.record (.timed stamped)).perform forest).2.Stores stamped ↔
        history.Admits stamped.stamp) ∧
      (¬history.Admits stamped.stamp →
        ((Call.record (.timed stamped)).perform forest).2 = forest) := by
  have held : forest.graph.parent? stamped.child = some stamped.parent := by
    rw [← consistent.parents, found]
    rfl
  have asked : forest.graph.setParent (Arrival.timed stamped).parent (Arrival.timed stamped).child
      forest.settings.reparenting = .ok (.unchanged, forest.graph) :=
    consistent.isForest.accepts_held held _
  have accepted := FrameGraph.accepts_of_setParent asked
  have obtained : forest.edges.obtain stamped.parent stamped.child
      ((Arrival.timed stamped).freshTrack forest.settings) =
        ⟨stamped.parent, stamped.child, .timed history⟩ := by
    rw [EdgeTable.obtain, found]
    exact if_pos ⟨rfl, rfl⟩
  rw [perform_record_of_ok (.timed stamped) asked]
  refine ⟨consistent.stores_accept_iff accepted obtained trimmed, fun excluded => ?_⟩
  rw [History.admits_iff, not_not] at excluded
  apply consistent.accept_eq_self accepted
  rw [consistent.take_timed accepted obtained]
  exact (history.fst_insert _).trans (if_pos excluded)

/-- The first sample of all is stored. -/
theorem Consistent.record_first (consistent : forest.Consistent) (graph : forest.graph = ∅)
    (edges : forest.edges = ∅) (apart : stamped.parent ≠ stamped.child) :
    ((Call.record (.timed stamped)).perform forest).2.Stores stamped := by
  obtain ⟨change, next, asked⟩ := FrameGraph.accepts_first apart forest.settings.reparenting
  rw [← graph] at asked
  have obtained : forest.edges.obtain stamped.parent stamped.child
      ((Arrival.timed stamped).freshTrack forest.settings) =
        ⟨stamped.parent, stamped.child, (Arrival.timed stamped).freshTrack forest.settings⟩ := by
    rw [edges]
    rfl
  rw [perform_record_of_ok (.timed stamped) asked,
    consistent.stores_accept_iff (FrameGraph.accepts_of_setParent asked) obtained
      (History.trimmed_empty _ _)]
  exact ⟨by simp [History.empty], .inr (by simp [History.empty, History.earliest?])⟩

/-! ## Looking up -/

theorem Stores.motionOf (stores : forest.Stores stamped) :
    forest.motionOf stamped.stamp stamped.child = .ok stamped.motion := by
  obtain ⟨history, found, member⟩ := stores
  have answered : ((Track.timed history).query stamped.stamp forest.settings.tolerance).1 =
      some stamped.motion := History.fst_query_of_mem member _
  have told := Edge.fst_query ⟨stamped.parent, stamped.child, .timed history⟩ stamped.stamp
    forest.settings.tolerance
  dsimp only at told
  rw [answered] at told
  rw [Forest.motionOf, EdgeTable.query, found]
  exact told

omit [Scalar α] in
/-- The edge alone is the route between its ends. -/
theorem Consistent.route_of_parent? (consistent : forest.Consistent) {parent child : String}
    (held : forest.graph.parent? child = some parent) :
    forest.graph.route child parent = .ok ⟨parent, [child], []⟩ := by
  obtain ⟨parentKnown, childKnown⟩ := FrameGraph.mem_frames_of_parent? held
  obtain ⟨chain, climbed⟩ := consistent.isForest.exists_lineage parent
  have climbs := FrameGraph.climbs_of_climb climbed
  obtain ⟨upper, rfl⟩ := climbs.exists_cons
  apply consistent.isForest.route_eq_ok_iff.2
  exact ⟨childKnown, parentKnown, upper, .step held climbs, climbs, by simp⟩

theorem Stores.recompute_eq (consistent : forest.Consistent) (stores : forest.Stores stamped) :
    forest.recompute ⟨stamped.child, stamped.parent, stamped.stamp⟩ =
        .ok (compose [stamped.motion] []) ∧
      forest.recompute ⟨stamped.parent, stamped.child, stamped.stamp⟩ =
        .ok (compose [] [stamped.motion]) := by
  have held : forest.graph.parent? stamped.child = some stamped.parent := by
    obtain ⟨history, found, _⟩ := stores
    rw [← consistent.parents, found]
    rfl
  have answered := stores.motionOf
  have hop : forest.hop stamped.stamp stamped.child = stamped.motion := by
    rw [Forest.hop, answered]
    rfl
  have up := consistent.route_of_parent? held
  have down := consistent.isForest.route_reverse up
  rw [Forest.recompute_eq, Forest.recompute_eq]
  dsimp only
  rw [up, down]
  dsimp only [Route.reverse]
  rw [fst_traverse_bare consistent.keyed, fst_traverse_bare consistent.keyed]
  constructor
  · refine (fst_traverse_eq_ok_iff consistent.keyed).2 ⟨?_, ?_⟩
    · simp [answered, Except.isOk, Except.toBool]
    · simp [hop]
  · refine (fst_traverse_eq_ok_iff consistent.keyed).2 ⟨?_, ?_⟩
    · simp [answered, Except.isOk, Except.toBool]
    · simp [hop]

/-- At the stamp of a stored sample the lookup between the ends of its edge answers its motion. -/
theorem Stores.fst_lookup (sound : forest.Sound) (stores : forest.Stores stamped) :
    (forest.lookup stamped.child stamped.parent stamped.stamp).1 =
        .ok (compose [stamped.motion] []) ∧
      (forest.lookup stamped.parent stamped.child stamped.stamp).1 =
        .ok (compose [] [stamped.motion]) := by
  obtain ⟨_, up, _⟩ := sound.lookup ⟨stamped.child, stamped.parent, stamped.stamp⟩
  obtain ⟨_, down, _⟩ := sound.lookup ⟨stamped.parent, stamped.child, stamped.stamp⟩
  dsimp only at up down
  rw [up, down]
  exact stores.recompute_eq sound.consistent

end Record

end Forest

end FrameForest
