import FrameForest.Proofs.Forest.Storing

/-!
# What is told of an arrival

What an accepted arrival has done shows in the forests before and after it: its
child has moved, the motion that its edge held at the stamp is overwritten, there
was none and now there is, or there still is none.  `Outcome` lists these cases,
and exactly one of them holds.

The answer to the arrival names this case, but for one exception.  A new fixed
edge starts with the motion that brought it about, so the same motion is then
told to have replaced itself.
-/

namespace FrameForest

variable {α : Type}

/-! ## Motions at a stamp -/

namespace Track

/-- The motion of the sample with the stamp, not of one nearby. -/
def motionAt? (track : Track α) (stamp : Stamp) : Option (Motion α) :=
  (track.samples.find? fun sample => sample.stamp = stamp).map Sample.motion

variable {track : Track α} {sample : Sample α} {stamp : Stamp}

theorem motionAt?_eq_none_iff :
    track.motionAt? stamp = none ↔ stamp ∉ track.samples.map Sample.stamp := by
  simp [motionAt?]

theorem eq_of_stamp_eq {other : Sample α} (member : sample ∈ track.samples)
    (otherMember : other ∈ track.samples) (same : sample.stamp = other.stamp) : sample = other := by
  cases track with
  | fixed motion => rw [List.mem_singleton.1 member, List.mem_singleton.1 otherMember]
  | timed history => exact History.Ordered.eq_of_stamp_eq history.ordered member otherMember same

theorem motionAt?_of_mem (member : sample ∈ track.samples) :
    track.motionAt? sample.stamp = some sample.motion := by
  obtain ⟨other, found⟩ : ∃ other, (track.samples.find? fun other => other.stamp = sample.stamp) =
      some other := by
    apply Option.isSome_iff_exists.1
    rw [List.find?_isSome]
    exact ⟨sample, member, decide_eq_true rfl⟩
  have same : other.stamp = sample.stamp := by simpa using List.find?_some found
  rw [motionAt?, found, eq_of_stamp_eq (List.mem_of_find?_eq_some found) member same]
  rfl

/-- What is told of an insertion into a track, by the motions that it holds at the stamp before and
after. -/
theorem Trimmed.tells (trimmed : track.Trimmed) (start : track.isFixed = true → sample.stamp = 0) :
    ((track.insert sample).1 = .replaced ↔ track.motionAt? sample.stamp ≠ none) ∧
      ((track.insert sample).1 ≠ .dropped →
        (track.insert sample).2.motionAt? sample.stamp = some sample.motion) := by
  cases track with
  | fixed motion =>
      have stamp : sample.stamp = 0 := start rfl
      rw [stamp]
      constructor
      · simp [Track.insert, motionAt?, samples]
      · simp [Track.insert, motionAt?, samples]
  | timed history =>
      have told := History.Trimmed.tells trimmed sample
      constructor
      · rw [Ne, motionAt?_eq_none_iff, not_not]
        exact told.replaced
      · intro taken
        apply motionAt?_of_mem
        apply History.mem_insert_of_not_refuses trimmed
        intro refused
        exact taken ((history.fst_insert sample).trans (if_pos refused))

end Track

/-! ## Outcomes -/

namespace Forest

/-- The motion that the edge of the arrival holds at its stamp, if the edge is there and of the kind
of the arrival. -/
def held? (forest : Forest α) (arrival : Arrival α) : Option (Motion α) :=
  (forest.edges.find? arrival.child).bind fun edge =>
    if edge.parent = arrival.parent ∧ edge.track.isFixed = arrival.isFixed then
      edge.track.motionAt? arrival.sample.stamp
    else none

/-- The child of the arrival has no parent but the one that the arrival names. -/
def Stays (forest : Forest α) (arrival : Arrival α) : Prop :=
  ∀ previous ∈ forest.graph.parent? arrival.child, previous = arrival.parent

/-- What an arrival has done to a forest from which it made another one. -/
inductive Outcome (forest next : Forest α) (arrival : Arrival α) : Recording → Prop
  | reparented {previous : String} (held : forest.graph.parent? arrival.child = some previous)
      (moves : previous ≠ arrival.parent)
      (stored : next.held? arrival = some arrival.sample.motion) :
      Outcome forest next arrival (.reparented previous)
  | replaced (stays : forest.Stays arrival) (present : forest.held? arrival ≠ none)
      (stored : next.held? arrival = some arrival.sample.motion) :
      Outcome forest next arrival .replaced
  | inserted (stays : forest.Stays arrival) (absent : forest.held? arrival = none)
      (stored : next.held? arrival = some arrival.sample.motion) :
      Outcome forest next arrival .inserted
  | dropped (stays : forest.Stays arrival) (absent : forest.held? arrival = none)
      (kept : next = forest) :
      Outcome forest next arrival .dropped

/-- An arrival has done one thing only. -/
theorem Outcome.unique {forest next : Forest α} {arrival : Arrival α} {first second : Recording}
    (outcome : forest.Outcome next arrival first) (other : forest.Outcome next arrival second) :
    second = first := by
  cases outcome with
  | reparented held moves stored =>
      cases other with
      | reparented otherHeld _ _ => rw [Option.some.inj (held.symm.trans otherHeld)]
      | replaced stays _ _ => exact absurd (stays _ held) moves
      | inserted stays _ _ => exact absurd (stays _ held) moves
      | dropped stays _ _ => exact absurd (stays _ held) moves
  | replaced stays present stored =>
      cases other with
      | reparented held moves _ => exact absurd (stays _ held) moves
      | replaced _ _ _ => rfl
      | inserted _ absent _ => exact absurd absent present
      | dropped _ absent _ => exact absurd absent present
  | inserted stays absent stored =>
      cases other with
      | reparented held moves _ => exact absurd (stays _ held) moves
      | replaced _ present _ => exact absurd absent present
      | inserted _ _ _ => rfl
      | dropped _ _ kept => simp [kept, absent] at stored
  | dropped stays absent kept =>
      cases other with
      | reparented held moves _ => exact absurd (stays _ held) moves
      | replaced _ present _ => exact absurd absent present
      | inserted _ _ stored => simp [kept, absent] at stored
      | dropped _ _ _ => rfl

/-- A fixed motion for a child that has none yet, and no other parent to leave. -/
structure Mounts (forest : Forest α) (arrival : Arrival α) : Prop where
  isFixed : arrival.isFixed = true
  stays : forest.Stays arrival
  first : ∀ edge, forest.edges.find? arrival.child = some edge → edge.track.isFixed = false

section Accept

variable {forest : Forest α} {arrival : Arrival α} {change : ParentChange} {next : FrameGraph}

theorem held?_of_find? {edge : Edge α} (found : forest.edges.find? arrival.child = some edge)
    (fits : edge.parent = arrival.parent ∧ edge.track.isFixed = arrival.isFixed) :
    forest.held? arrival = edge.track.motionAt? arrival.sample.stamp := by
  rw [held?, found, Option.bind_some, if_pos fits]

theorem held?_eq_none (unfit : ∀ edge, forest.edges.find? arrival.child = some edge →
    ¬(edge.parent = arrival.parent ∧ edge.track.isFixed = arrival.isFixed)) :
    forest.held? arrival = none := by
  unfold held?
  cases found : forest.edges.find? arrival.child with
  | none => rfl
  | some edge => exact if_neg (unfit edge found)

/-- The track that takes the arrival. -/
def trackFor (forest : Forest α) (arrival : Arrival α) : Track α :=
  (forest.edges.obtain arrival.parent arrival.child (arrival.freshTrack forest.settings)).track

@[simp] theorem isFixed_trackFor (forest : Forest α) (arrival : Arrival α) :
    (forest.trackFor arrival).isFixed = arrival.isFixed :=
  (EdgeTable.isFixed_obtain _ _ _ _).trans (arrival.isFixed_freshTrack _)

theorem trackFor_of_mounts (mounts : forest.Mounts arrival) :
    forest.held? arrival = none ∧ (forest.trackFor arrival).isFixed = true := by
  have unfit : ∀ edge, forest.edges.find? arrival.child = some edge →
      ¬(edge.parent = arrival.parent ∧ edge.track.isFixed = arrival.isFixed) := by
    intro edge found fits
    have timed := mounts.first edge found
    rw [fits.2, mounts.isFixed] at timed
    cases timed
  exact ⟨held?_eq_none unfit, (isFixed_trackFor forest arrival).trans mounts.isFixed⟩

theorem start_of_trackFor (fixed : (forest.trackFor arrival).isFixed = true) :
    arrival.sample.stamp = 0 := by
  rw [isFixed_trackFor] at fixed
  cases arrival with
  | timed stamped => cases fixed
  | fixed stamped => rfl

theorem stays_or_moves (accepted : forest.graph.Accepts arrival.parent arrival.child change next) :
    forest.Stays arrival ∧
        (∀ insertion, change.report insertion = ParentChange.unchanged.report insertion) ∨
      ∃ previous, change = .reparented previous ∧
        forest.graph.parent? arrival.child = some previous ∧ previous ≠ arrival.parent := by
  cases accepted with
  | unchanged held =>
      refine .inl ⟨fun previous isParent => ?_, fun _ => rfl⟩
      exact Option.some.inj (isParent.symm.trans held)
  | attached root free =>
      refine .inl ⟨fun previous isParent => ?_, fun insertion => by cases insertion <;> rfl⟩
      rw [root] at isParent
      cases isParent
  | reparented held moves free => exact .inr ⟨_, rfl, held, moves⟩

variable (consistent : forest.Consistent)

include consistent

/-- But for a mounted motion, the track that takes the arrival holds what its edge held. -/
theorem Consistent.held?_eq (stays : forest.Stays arrival) (held : ¬forest.Mounts arrival) :
    forest.held? arrival = (forest.trackFor arrival).motionAt? arrival.sample.stamp := by
  unfold trackFor
  rcases forest.edges.obtain_cases arrival.parent arrival.child
      (arrival.freshTrack forest.settings) with ⟨edge, found, fits, same⟩ | ⟨unfit, renewed⟩
  · rw [Arrival.isFixed_freshTrack] at fits
    rw [same]
    exact held?_of_find? found fits
  · rw [Arrival.isFixed_freshTrack] at unfit
    rw [renewed, held?_eq_none unfit]
    cases arrival with
    | timed stamped => rfl
    | fixed stamped =>
        -- the edge does not fit, and not on account of its parent, so it is not fixed
        refine absurd ⟨rfl, stays, fun edge found => ?_⟩ held
        have parent := consistent.parents stamped.child
        rw [show forest.edges.find? stamped.child = some edge from found] at parent
        have fits := stays edge.parent parent.symm
        exact Bool.eq_false_iff.2 fun fixed => unfit edge found ⟨fits, fixed⟩

variable (accepted : forest.graph.Accepts arrival.parent arrival.child change next)

include accepted

theorem Consistent.fst_take :
    (forest.take arrival change).1 = ((forest.trackFor arrival).insert arrival.sample).1 :=
  congrArg Prod.fst (consistent.take_eq accepted)

theorem Consistent.held?_accept : (forest.accept arrival change next).held? arrival =
    ((forest.trackFor arrival).insert arrival.sample).2.motionAt? arrival.sample.stamp := by
  have found := (consistent.find?_accept accepted arrival.child).trans (if_pos rfl)
  rw [held?_of_find? found ⟨forest.parent_take arrival change, consistent.isFixed_take accepted⟩,
    consistent.take_eq accepted]
  rfl

variable (trimmed : (forest.trackFor arrival).Trimmed)

include trimmed

theorem Consistent.stored (taken : (forest.take arrival change).1 ≠ .dropped) :
    (forest.accept arrival change next).held? arrival = some arrival.sample.motion := by
  rw [consistent.fst_take accepted] at taken
  rw [consistent.held?_accept accepted]
  exact (trimmed.tells start_of_trackFor).2 taken

/-- What is told of an arrival is what it has done, unless it is a mounted motion. -/
theorem Consistent.outcome (held : ¬forest.Mounts arrival) :
    forest.Outcome (forest.accept arrival change next) arrival
      (change.report (forest.take arrival change).1) := by
  have stored := consistent.stored accepted trimmed
  rcases stays_or_moves accepted with ⟨stays, report⟩ | ⟨previous, rfl, isParent, moves⟩
  · have before := consistent.held?_eq stays held
    have told := (trimmed.tells start_of_trackFor).1
    rw [← before, ← consistent.fst_take accepted] at told
    rw [report]
    cases taken : (forest.take arrival change).1 with
    | replaced => exact .replaced stays (told.1 taken) (stored (by simp [taken]))
    | inserted =>
        have absent : forest.held? arrival = none := by simpa [taken] using told
        exact .inserted stays absent (stored (by simp [taken]))
    | dropped =>
        have absent : forest.held? arrival = none := by simpa [taken] using told
        exact .dropped stays absent (consistent.accept_eq_self accepted taken)
  · have taken := forest.take_reparented_ne_dropped arrival previous
    exact .reparented isParent moves (stored taken)

/-- A mounted motion is the first that its edge holds, and is told to have replaced one. -/
theorem Consistent.outcome_of_mounts (mounts : forest.Mounts arrival) :
    change.report (forest.take arrival change).1 = .replaced ∧
      forest.Outcome (forest.accept arrival change next) arrival .inserted := by
  obtain ⟨absent, fixed⟩ := trackFor_of_mounts mounts
  have taken : (forest.take arrival change).1 = .replaced := by
    rw [consistent.fst_take accepted]
    generalize forest.trackFor arrival = track at fixed
    cases track with
    | fixed motion => rfl
    | timed history => cases fixed
  have stored := consistent.stored accepted trimmed (by simp [taken])
  refine ⟨?_, .inserted mounts.stays absent stored⟩
  rcases stays_or_moves accepted with ⟨_, report⟩ | ⟨previous, _, isParent, moves⟩
  · rw [report, taken]
    rfl
  · exact absurd (mounts.stays _ isParent) moves

end Accept

theorem trimmed_trackFor [Scalar α] (settings : Settings) (calls : List (Call α))
    (arrival : Arrival α) : ((after settings calls).trackFor arrival).Trimmed := by
  unfold trackFor
  rcases (after settings calls).edges.obtain_cases arrival.parent arrival.child
      (arrival.freshTrack (after settings calls).settings) with
    ⟨edge, found, _, same⟩ | ⟨_, renewed⟩
  · rw [same]
    exact trimmed_after settings calls found
  · rw [renewed]
    exact arrival.trimmed_freshTrack _

/-- Of an accepted arrival exactly one outcome holds.  It is the one that is told, unless the arrival
mounts a child: this inserts a motion and is told to have replaced one. -/
theorem reports_truly_after [Scalar α] (settings : Settings) (calls : List (Call α))
    (arrival : Arrival α) {recording : Recording}
    (accepted : (arrival.recordIn (after settings calls)).result.1 = .ok recording) :
    ∃ outcome,
      (∀ other, (after settings calls).Outcome (arrival.recordIn (after settings calls)).result.2
        arrival other ↔ other = outcome) ∧
      (recording = outcome ↔ ¬(after settings calls).Mounts arrival) ∧
      ((after settings calls).Mounts arrival → recording = .replaced ∧ outcome = .inserted) := by
  have consistent := (sound_after settings calls).consistent
  have trimmed := trimmed_trackFor settings calls arrival
  rw [recordIn_result] at accepted ⊢
  generalize after settings calls = forest at *
  cases asked : forest.graph.setParent arrival.parent arrival.child forest.settings.reparenting with
  | error failure =>
      rw [asked] at accepted
      cases accepted
  | ok granted =>
      obtain ⟨change, next⟩ := granted
      rw [asked] at accepted
      cases accepted
      have accepts := FrameGraph.accepts_of_setParent asked
      by_cases mounts : forest.Mounts arrival
      · obtain ⟨told, outcome⟩ := consistent.outcome_of_mounts accepts trimmed mounts
        refine ⟨.inserted, fun other => ⟨outcome.unique, fun same => same ▸ outcome⟩, ?_,
          fun _ => ⟨told, rfl⟩⟩
        rw [told]
        exact iff_of_false Recording.noConfusion (not_not_intro mounts)
      · have outcome := consistent.outcome accepts trimmed mounts
        exact ⟨_, fun other => ⟨outcome.unique, fun same => same ▸ outcome⟩, iff_of_true rfl mounts,
          fun mounted => absurd mounted mounts⟩

/-- The same sight of a robot comes twice. -/
theorem reports_truly_after_robot :
    let sight : Arrival Float := .timed ⟨"map", "robot", ⟨5⟩, 1⟩
    let forest := after .standard [.record sight]
    (sight.recordIn forest).result.1 = .ok .replaced ∧
      forest.Outcome (sight.recordIn forest).result.2 sight .replaced := by
  intro sight forest
  have told : (sight.recordIn forest).result.1 = .ok .replaced := by decide +kernel
  obtain ⟨outcome, only, truly, _⟩ :=
    reports_truly_after .standard [.record sight] sight told
  have same : .replaced = outcome := truly.2 fun mounts => nomatch mounts.isFixed
  exact ⟨told, (only .replaced).2 same⟩

/-- A robot is mounted on the map, which has no frame yet. -/
theorem first_mount_misreported :
    let mount : Arrival Float := .fixed ⟨"map", "robot", 0, 1⟩
    let forest : Forest Float := after .standard []
    (mount.recordIn forest).result.1 = .ok .replaced ∧ forest.edges.find? "robot" = none ∧
      ¬forest.Outcome (mount.recordIn forest).result.2 mount .replaced := by
  intro mount forest
  have told : (mount.recordIn forest).result.1 = .ok .replaced := by decide +kernel
  refine ⟨told, rfl, fun outcome => ?_⟩
  cases outcome with
  | replaced stays present stored => exact present rfl

end Forest

end FrameForest
