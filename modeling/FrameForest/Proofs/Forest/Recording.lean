import FrameForest.Proofs.Edge.EdgeTables
import FrameForest.Proofs.Frame.Hierarchy
import FrameForest.Session.Basic

/-!
# Recording samples

Recording asks the graph first, then the table of edges and at last the memo;
`recordIn_result` says what it leaves in each of them.  Graph and table are two
tellings of one hierarchy: in a consistent forest a child has an edge exactly
when it has a parent, and the edge starts at that parent.  Every recording keeps
a forest consistent, and one whose sample is dropped changes nothing at all.
-/

namespace FrameForest

namespace Arrival

variable {α : Type}

def stamped : Arrival α → StampedMotion α
  | timed stamped => stamped
  | fixed stamped => stamped

def parent (arrival : Arrival α) : String :=
  arrival.stamped.parent

def child (arrival : Arrival α) : String :=
  arrival.stamped.child

def isFixed : Arrival α → Bool
  | timed _ => false
  | fixed _ => true

/-- The sample as it is stored; a fixed motion counts from the start of the timeline. -/
def sample : Arrival α → Sample α
  | timed stamped => ⟨stamped.stamp, stamped.motion⟩
  | fixed stamped => ⟨0, stamped.motion⟩

/-- The track that a new edge starts with. -/
def freshTrack (settings : Settings) : Arrival α → Track α
  | timed _ => .timed (.empty settings.samplesPerEdge.toNat settings.storageTime)
  | fixed stamped => .fixed stamped.motion

theorem recordIn_eq (arrival : Arrival α) (forest : Forest α) :
    arrival.recordIn forest = forest.record arrival.parent arrival.child
      (arrival.freshTrack forest.settings) arrival.sample := by
  cases arrival <;> rfl

@[simp] theorem isFixed_freshTrack (settings : Settings) (arrival : Arrival α) :
    (arrival.freshTrack settings).isFixed = arrival.isFixed := by
  cases arrival <;> rfl

end Arrival

namespace ParentChange

variable {α : Type}

/-- The edges that a change leaves; a child that moves leaves its edge behind. -/
def prune (change : ParentChange) (child : String) (edges : EdgeTable α) : EdgeTable α :=
  match change with
  | reparented _ => edges.erase child
  | _ => edges

theorem forgetHints_prune (change : ParentChange) (child : String) (edges : EdgeTable α) :
    (change.prune child edges).forgetHints = change.prune child edges.forgetHints := by
  cases change with
  | reparented previous => exact Table.mapValues_erase _ _ _
  | unchanged => rfl
  | attached => rfl

/-- What is told of a sample once the parent is accepted. -/
def report (change : ParentChange) (insertion : Insertion) : Recording :=
  match change, insertion with
  | reparented previous, _ => .reparented previous
  | _, .inserted => .inserted
  | _, .replaced => .replaced
  | _, .dropped => .dropped

end ParentChange

namespace Forest

variable {α : Type}

/-- What the edge of an accepted arrival becomes. -/
def take (forest : Forest α) (arrival : Arrival α) (change : ParentChange) : Insertion × Edge α :=
  ((change.prune arrival.child forest.edges).obtain arrival.parent arrival.child
    (arrival.freshTrack forest.settings)).insert arrival.sample

/-- The forest after an accepted arrival. -/
def accept (forest : Forest α) (arrival : Arrival α) (change : ParentChange) (graph : FrameGraph) :
    Forest α :=
  { forest with
    graph
    edges := (change.prune arrival.child forest.edges).put (forest.take arrival change).2
    memo :=
      if (forest.take arrival change).1 = .dropped then forest.memo else forest.memo.forget }

theorem parent_take (forest : Forest α) (arrival : Arrival α) (change : ParentChange) :
    (forest.take arrival change).2.parent = arrival.parent :=
  EdgeTable.parent_obtain _ _ _ _

theorem result_invalidate (forest : Forest α) :
    forest.invalidate.result = { forest with memo := forest.memo.forget } := by
  unfold invalidate
  by_cases none : forest.memo.entries.size = 0
  · rw [if_pos none, Memo.forget, ← Table.eq_empty_of_size none]
    rfl
  · rw [if_neg none]
    rfl

theorem store_result (forest : Forest α) (parent child : String) (fresh : Track α)
    (sample : Sample α) :
    (forest.store parent child fresh sample).result =
      (((forest.edges.obtain parent child fresh).insert sample).1,
        { forest with
          edges := forest.edges.put ((forest.edges.obtain parent child fresh).insert sample).2
          memo :=
            if ((forest.edges.obtain parent child fresh).insert sample).1 = .dropped then
              forest.memo
            else forest.memo.forget }) := by
  unfold store
  cases (forest.edges.obtain parent child fresh).insert sample with
  | mk insertion edge =>
      by_cases dropped : insertion = .dropped
      · subst dropped
        rfl
      · simp only [if_neg dropped, Journaled.result_bind, Journaled.result_pure, result_invalidate]

private theorem report_of_stays {change : ParentChange}
    (stays : change = .unchanged ∨ change = .attached) (insertion : Insertion) :
    (match insertion with
      | .inserted => Recording.inserted
      | .replaced => .replaced
      | .dropped => .dropped) = change.report insertion := by
  rcases stays with rfl | rfl <;> cases insertion <;> rfl

/-- A refused arrival changes nothing, and an accepted one its edge. -/
theorem recordIn_result (forest : Forest α) (arrival : Arrival α) :
    (arrival.recordIn forest).result =
      match forest.graph.setParent arrival.parent arrival.child forest.settings.reparenting with
      | .error failure => (.error failure, forest)
      | .ok (change, graph) =>
        (.ok (change.report (forest.take arrival change).1),
          forest.accept arrival change graph) := by
  rw [Arrival.recordIn_eq]
  unfold record
  cases forest.graph.setParent arrival.parent arrival.child forest.settings.reparenting with
  | error failure => rfl
  | ok accepted =>
      obtain ⟨change, graph⟩ := accepted
      cases change with
      | reparented previous =>
          simp only [Journaled.result_bind, store_result]
          rfl
      | unchanged =>
          simp only [Journaled.result_bind, store_result]
          exact Prod.ext (congrArg Except.ok (report_of_stays (.inl rfl) _)) rfl
      | attached =>
          simp only [Journaled.result_bind, store_result]
          exact Prod.ext (congrArg Except.ok (report_of_stays (.inr rfl) _)) rfl

/-- The sample was accepted and not dropped. -/
def tookUp : Except Failure Recording → Bool
  | .error _ | .ok .dropped => false
  | .ok _ => true

/-- A child that moves starts a new edge, which drops nothing. -/
theorem take_reparented_ne_dropped (forest : Forest α) (arrival : Arrival α) (previous : String) :
    (forest.take arrival (.reparented previous)).1 ≠ .dropped := by
  have erased : EdgeTable.obtain (forest.edges.erase arrival.child) arrival.parent arrival.child
      (arrival.freshTrack forest.settings) =
        ⟨arrival.parent, arrival.child, arrival.freshTrack forest.settings⟩ := by
    rw [EdgeTable.obtain, Table.find?_erase_self]
  intro dropped
  unfold take ParentChange.prune at dropped
  rw [erased] at dropped
  obtain ⟨_, timed, held⟩ := Track.insert_eq_of_dropped dropped
  cases arrival with
  | timed stamped => exact held rfl
  | fixed stamped => cases timed

theorem report_take_eq_dropped_iff (forest : Forest α) (arrival : Arrival α)
    (change : ParentChange) :
    change.report (forest.take arrival change).1 = .dropped ↔
      (forest.take arrival change).1 = .dropped := by
  cases change with
  | reparented previous =>
      constructor
      · intro told
        cases told
      · intro dropped
        exact absurd dropped (forest.take_reparented_ne_dropped arrival previous)
  | unchanged => cases (forest.take arrival .unchanged).1 <;> simp [ParentChange.report]
  | attached => cases (forest.take arrival .attached).1 <;> simp [ParentChange.report]

/-- Recording drops what is remembered, unless the sample was not taken up. -/
theorem memo_recordIn (forest : Forest α) (arrival : Arrival α) :
    (arrival.recordIn forest).result.2.memo =
      if tookUp (arrival.recordIn forest).result.1 then forest.memo.forget else forest.memo := by
  have result := recordIn_result forest arrival
  cases told : forest.graph.setParent arrival.parent arrival.child forest.settings.reparenting with
  | error failure =>
      rw [told] at result
      rw [result]
      rfl
  | ok accepted =>
      obtain ⟨change, graph⟩ := accepted
      have report := forest.report_take_eq_dropped_iff arrival change
      rw [told] at result
      dsimp only at result
      rw [result, accept]
      dsimp only
      by_cases dropped : (forest.take arrival change).1 = .dropped
      · rw [if_pos dropped, report.2 dropped]
        rfl
      · have stays := mt report.1 dropped
        rw [if_neg dropped]
        cases outcome : change.report (forest.take arrival change).1 with
        | dropped => exact absurd outcome stays
        | inserted => rfl
        | replaced => rfl
        | reparented previous => rfl

/-! ## Consistency -/

/-- Graph and table tell the same hierarchy, and no edge is without samples. -/
structure Consistent (forest : Forest α) : Prop where
  isForest : forest.graph.IsForest
  keyed : forest.edges.Keyed
  parents : ∀ child, (forest.edges.find? child).map Edge.parent = forest.graph.parent? child
  occupied : ∀ child edge, forest.edges.find? child = some edge → edge.track.samples ≠ []

namespace Consistent

variable {forest : Forest α}

theorem empty (settings : Settings) : (Forest.empty (α := α) settings).Consistent where
  isForest := .empty
  keyed := EdgeTable.keyed_empty
  parents := fun _ => rfl
  occupied := fun _ _ found => by cases found

theorem register (consistent : forest.Consistent) (frame : String) :
    (forest.register frame).Consistent where
  isForest := consistent.isForest.register frame
  keyed := consistent.keyed
  parents := fun child => (consistent.parents child).trans
    (FrameGraph.parent?_register frame child).symm
  occupied := consistent.occupied

/-- Hints and the memo have no part in consistency. -/
theorem of_agree (consistent : forest.Consistent) {other : Forest α}
    (graph : forest.graph = other.graph) (agree : forest.edges.Agree other.edges) :
    other.Consistent where
  isForest := graph ▸ consistent.isForest
  keyed := agree.keyed consistent.keyed
  parents := by
    intro child
    rw [← graph, ← consistent.parents child]
    rcases agree.cases_find? child with ⟨first, second⟩ | ⟨edge, further, first, second, same⟩
    · rw [first, second]
    · rw [first, second]
      exact congrArg some (Edge.forgetHint_eq_iff.1 same).1.symm
  occupied := by
    intro child edge found
    rcases agree.cases_find? child with ⟨_, absent⟩ | ⟨former, further, first, second, same⟩
    · rw [absent] at found
      cases found
    · rw [second] at found
      cases found
      rw [← Track.samples_forgetHint, ← (Edge.forgetHint_eq_iff.1 same).2.2,
        Track.samples_forgetHint]
      exact consistent.occupied child former first

section Accept

variable {arrival : Arrival α} {change : ParentChange} {next : FrameGraph}

variable (consistent : forest.Consistent)
  (accepted : forest.graph.Accepts arrival.parent arrival.child change next)

include consistent accepted

/-- The edge that a moving child leaves behind would not have served the new parent anyway. -/
theorem take_eq : forest.take arrival change =
    (forest.edges.obtain arrival.parent arrival.child
      (arrival.freshTrack forest.settings)).insert arrival.sample := by
  cases accepted with
  | unchanged => rfl
  | attached => rfl
  | @reparented previous held moves =>
      have renewed : forest.edges.obtain arrival.parent arrival.child
          (arrival.freshTrack forest.settings) =
            ⟨arrival.parent, arrival.child, arrival.freshTrack forest.settings⟩ := by
        rcases forest.edges.obtain_cases arrival.parent arrival.child
            (arrival.freshTrack forest.settings) with ⟨edge, found, fits, _⟩ | ⟨_, renewed⟩
        · have parent := consistent.parents arrival.child
          rw [found, held] at parent
          exact absurd ((Option.some.inj parent).symm.trans fits.1) moves
        · exact renewed
      have erased : EdgeTable.obtain (forest.edges.erase arrival.child) arrival.parent
          arrival.child (arrival.freshTrack forest.settings) =
            ⟨arrival.parent, arrival.child, arrival.freshTrack forest.settings⟩ := by
        rw [EdgeTable.obtain, Table.find?_erase_self]
      unfold take ParentChange.prune
      rw [renewed, erased]

theorem child_take : (forest.take arrival change).2.child = arrival.child := by
  rw [consistent.take_eq accepted]
  exact consistent.keyed.child_obtain _ _ _

theorem isFixed_take : (forest.take arrival change).2.track.isFixed = arrival.isFixed := by
  rw [consistent.take_eq accepted, ← arrival.isFixed_freshTrack forest.settings]
  exact (Track.isFixed_insert _ _).trans (EdgeTable.isFixed_obtain _ _ _ _)

/-- An accepted arrival changes the edge of its child and no other. -/
theorem find?_accept (child : String) :
    (forest.accept arrival change next).edges.find? child =
      if child = arrival.child then some (forest.take arrival change).2
      else forest.edges.find? child := by
  have stored : (forest.accept arrival change next).edges =
      EdgeTable.put (change.prune arrival.child forest.edges) (forest.take arrival change).2 := rfl
  rw [stored, EdgeTable.find?_put, consistent.child_take accepted]
  by_cases same : child = arrival.child
  · rw [if_pos same, if_pos same]
  · rw [if_neg same, if_neg same]
    cases change with
    | reparented previous => exact (Table.find?_erase _ _ _).trans (if_neg same)
    | unchanged => rfl
    | attached => rfl

theorem accept : (forest.accept arrival change next).Consistent where
  isForest := accepted.isForest consistent.isForest
  keyed := by
    intro child edge found
    rw [consistent.find?_accept accepted] at found
    split at found
    case isTrue same =>
      cases found
      rw [consistent.child_take accepted, same]
    case isFalse => exact consistent.keyed child edge found
  parents := by
    intro child
    show _ = next.parent? child
    rw [consistent.find?_accept accepted, accepted.parent?_eq]
    split
    · exact congrArg some (forest.parent_take arrival change)
    · exact consistent.parents child
  occupied := by
    intro child edge found
    rw [consistent.find?_accept accepted] at found
    split at found
    · cases found
      exact Track.samples_insert_ne_nil _ _
    · exact consistent.occupied child edge found

/-- A dropped sample belongs to an edge that is there already, and leaves the forest as it is. -/
theorem accept_eq_self (dropped : (forest.take arrival change).1 = .dropped) :
    forest.accept arrival change next = forest := by
  have taken := consistent.take_eq accepted
  rw [taken] at dropped
  obtain ⟨kept, timed, held⟩ := Track.insert_eq_of_dropped dropped
  rcases forest.edges.obtain_cases arrival.parent arrival.child
      (arrival.freshTrack forest.settings) with ⟨edge, found, fits, same⟩ | ⟨_, renewed⟩
  · rw [same] at kept dropped taken
    have unmoved : (edge.insert arrival.sample).2 = edge :=
      congrArg (fun track => { edge with track }) kept
    have parent := consistent.parents arrival.child
    rw [found, Option.map_some, fits.1] at parent
    cases accepted with
    | unchanged =>
        have stored : forest.edges.put edge = forest.edges := by
          apply Table.insert_eq_self
          rw [consistent.keyed arrival.child edge found, found]
        rw [Forest.accept, taken, unmoved, dropped, if_pos rfl]
        exact congrArg (fun edges => { forest with edges }) stored
    | attached root => simp [root] at parent
    | reparented held moves =>
        rw [held] at parent
        exact absurd (Option.some.inj parent).symm moves
  · -- a new edge starts without timed samples, and what is fixed is never dropped
    rw [renewed] at held timed
    cases arrival with
    | timed stamped => exact absurd rfl held
    | fixed stamped => cases timed

end Accept

end Consistent

end Forest

end FrameForest
