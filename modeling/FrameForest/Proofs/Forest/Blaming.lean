import FrameForest.Diagnosis.Reason
import FrameForest.Proofs.Forest.Determination

/-!
# Which frame is to blame

A resolution asks for two motions, from the source to the fixed frame and on to
the destination.  When it fails it names one of the three frames: the first that
is not registered, or else the outer end of the half that failed.  A frame may
play two of the roles at once; the rules below are ordered, so that exactly one
of them applies.
-/

namespace FrameForest

/-- The cause that a failure of each kind is reported under. -/
inductive MissingCause.Names : MissingCause → Failure → Prop
  | unknownFrame (frame : String) : Names .unknownFrame (.unknownFrame frame)
  | unconnected (source target : String) : Names .unconnected (.unconnected source target)
  | outsideHistory (parent child : String) (time earliest latest : Stamp) :
      Names .outsideHistory (.outsideHistory parent child time earliest latest)

/-- How a lookup between registered frames can fail. -/
inductive Failure.Between (source target : String) (time : Stamp) : Failure → Prop
  | unconnected : Between source target time (.unconnected source target)
  | outsideHistory (parent child : String) (earliest latest : Stamp) :
      Between source target time (.outsideHistory parent child time earliest latest)

theorem Failure.Between.ne_unknownFrame {source target : String} {time : Stamp} {cause : Failure}
    (between : cause.Between source target time) (frame : String) : cause ≠ .unknownFrame frame := by
  cases between <;> simp

namespace Forest

section Blame

variable {cause : Failure} {own fixed : String} {role : Role}

theorem blame_fixed (apart : own ≠ fixed) :
    blame (.unknownFrame fixed) own role fixed = ⟨.fixed, fixed, .unknownFrame fixed⟩ :=
  if_pos ⟨rfl, apart⟩

theorem blame_own (other : cause ≠ .unknownFrame fixed) :
    blame cause own role fixed = ⟨role, own, cause⟩ :=
  if_neg fun both => other both.1

/-- The own frame comes first, also where it is the fixed one. -/
theorem blame_unknown_own : blame (.unknownFrame own) own role fixed =
    ⟨role, own, .unknownFrame own⟩ :=
  if_neg fun both => both.2 (Failure.unknownFrame.inj both.1)

end Blame

variable {α : Type} [Scalar α] {forest : Forest α}

section Lookup

variable {source target : String} {time : Stamp}

/-- Why a lookup fails, by rules of which the earlier ones come first. -/
inductive LookupFails (forest : Forest α) (source target : String) (time : Stamp) : Failure → Prop
  | source (unknown : source ∉ forest.graph.frames) :
      LookupFails forest source target time (.unknownFrame source)
  | target (known : source ∈ forest.graph.frames) (unknown : target ∉ forest.graph.frames) :
      LookupFails forest source target time (.unknownFrame target)
  | between {cause : Failure} (sourceKnown : source ∈ forest.graph.frames)
      (targetKnown : target ∈ forest.graph.frames) (between : cause.Between source target time) :
      LookupFails forest source target time cause

theorem Sound.lookupFails (sound : forest.Sound) {cause : Failure}
    (failed : (forest.lookup source target time).1 = .error cause) :
    forest.LookupFails source target time cause := by
  have told := sound.toldByRoute source target time
  cases routed : forest.graph.route source target with
  | error unrouted =>
      rw [told.unrouted unrouted routed] at failed
      cases failed
      cases sound.consistent.isForest.unrouted_of_route routed with
      | source unknown => exact .source unknown
      | target known unknown => exact .target known unknown
      | apart sourceKnown targetKnown => exact .between sourceKnown targetKnown .unconnected
  | ok route =>
      obtain ⟨sourceKnown, targetKnown, _⟩ :=
        sound.consistent.isForest.exists_route_iff.1 ⟨route, routed⟩
      obtain ⟨parent, child, earliest, latest, rfl⟩ :=
        ((told.blamed route routed cause).1 failed).outsideHistory
      exact .between sourceKnown targetKnown (.outsideHistory parent child earliest latest)

theorem Sound.known_of_lookup (sound : forest.Sound) {motion : Motion α}
    (found : (forest.lookup source target time).1 = .ok motion) :
    source ∈ forest.graph.frames ∧ target ∈ forest.graph.frames := by
  cases routed : forest.graph.route source target with
  | error failure =>
      rw [(sound.toldByRoute source target time).unrouted failure routed] at found
      cases found
  | ok route =>
      obtain ⟨sourceKnown, targetKnown, _⟩ :=
        sound.consistent.isForest.exists_route_iff.1 ⟨route, routed⟩
      exact ⟨sourceKnown, targetKnown⟩

theorem Sound.lookup_of_unknown_source (sound : forest.Sound)
    (unknown : source ∉ forest.graph.frames) :
    (forest.lookup source target time).1 = .error (.unknownFrame source) := by
  cases told : (forest.lookup source target time).1 with
  | ok motion => exact absurd (sound.known_of_lookup told).1 unknown
  | error cause =>
      cases sound.lookupFails told with
      | source => rfl
      | target known => exact absurd known unknown
      | between known => exact absurd known unknown

theorem Sound.lookup_of_unknown_target (sound : forest.Sound)
    (known : source ∈ forest.graph.frames) (unknown : target ∉ forest.graph.frames) :
    (forest.lookup source target time).1 = .error (.unknownFrame target) := by
  cases told : (forest.lookup source target time).1 with
  | ok motion => exact absurd (sound.known_of_lookup told).2 unknown
  | error cause =>
      cases sound.lookupFails told with
      | source unknown => exact absurd known unknown
      | target => rfl
      | between _ known => exact absurd known unknown

end Lookup

variable {pose : Pose α} {resolution : Resolution}

/-- The lookup from the source to the fixed frame. -/
def firstHalf (forest : Forest α) (resolution : Resolution) : Except Failure (Motion α) :=
  (forest.lookup resolution.source resolution.fixed resolution.sourceTime).1

/-- The lookup from the fixed frame to the destination. -/
def secondHalf (forest : Forest α) (resolution : Resolution) : Except Failure (Motion α) :=
  (forest.lookup resolution.fixed resolution.destination resolution.destinationTime).1

/-- What a resolution comes to, once its two halves are looked up in the same forest. -/
theorem Sound.fst_resolve (sound : forest.Sound) (pose : Pose α)
    (moves : resolution.source ≠ resolution.destination) :
    (forest.resolve pose resolution).1 =
      match forest.firstHalf resolution, forest.secondHalf resolution with
      | .error cause, _ => .error (blame cause resolution.source .source resolution.fixed)
      | .ok _, .error cause =>
        .error (blame cause resolution.destination .destination resolution.fixed)
      | .ok sourceToFixed, .ok fixedToDestination =>
        .ok (fixedToDestination * sourceToFixed * pose).normalized := by
  have keyed := sound.consistent.keyed
  have first := fst_lookup keyed sound.coherent
    ⟨resolution.source, resolution.fixed, resolution.sourceTime⟩
  have second := fst_lookup keyed sound.coherent
    ⟨resolution.fixed, resolution.destination, resolution.destinationTime⟩
  obtain ⟨next, told, _⟩ := sound.resolve pose resolution
  rw [told, placed, if_neg moves, ← first, ← second, firstHalf, secondHalf]
  cases (forest.lookup resolution.source resolution.fixed resolution.sourceTime).1 with
  | error cause => rfl
  | ok sourceToFixed =>
      cases (forest.lookup resolution.fixed resolution.destination
        resolution.destinationTime).1 <;> rfl

/-- Which frame a failed resolution names, by rules of which the earlier ones come first. -/
inductive FrameAtFault (forest : Forest α) (resolution : Resolution) : ResolutionFailure → Prop
  | source (unknown : resolution.source ∉ forest.graph.frames) :
      FrameAtFault forest resolution
        ⟨.source, resolution.source, .unknownFrame resolution.source⟩
  | fixed (known : resolution.source ∈ forest.graph.frames)
      (unknown : resolution.fixed ∉ forest.graph.frames) :
      FrameAtFault forest resolution ⟨.fixed, resolution.fixed, .unknownFrame resolution.fixed⟩
  | firstHalf {cause : Failure} (sourceKnown : resolution.source ∈ forest.graph.frames)
      (fixedKnown : resolution.fixed ∈ forest.graph.frames)
      (failed : forest.firstHalf resolution = .error cause)
      (between : cause.Between resolution.source resolution.fixed resolution.sourceTime) :
      FrameAtFault forest resolution ⟨.source, resolution.source, cause⟩
  | destination {motion : Motion α} (found : forest.firstHalf resolution = .ok motion)
      (unknown : resolution.destination ∉ forest.graph.frames) :
      FrameAtFault forest resolution
        ⟨.destination, resolution.destination, .unknownFrame resolution.destination⟩
  | secondHalf {motion : Motion α} {cause : Failure}
      (found : forest.firstHalf resolution = .ok motion)
      (failed : forest.secondHalf resolution = .error cause)
      (between : cause.Between resolution.fixed resolution.destination
        resolution.destinationTime) :
      FrameAtFault forest resolution ⟨.destination, resolution.destination, cause⟩

namespace FrameAtFault

variable {failure : ResolutionFailure}

/-- Only a frame that is missing is ever called unknown, and it is the one that is named. -/
theorem unknown (fault : forest.FrameAtFault resolution failure) {frame : String}
    (told : failure.cause = .unknownFrame frame) :
    failure.frame = frame ∧ frame ∉ forest.graph.frames := by
  cases fault with
  | source unknown =>
      cases told
      exact ⟨rfl, unknown⟩
  | fixed known unknown =>
      cases told
      exact ⟨rfl, unknown⟩
  | destination found unknown =>
      cases told
      exact ⟨rfl, unknown⟩
  | firstHalf _ _ failed between => exact absurd told (between.ne_unknownFrame frame)
  | secondHalf found failed between => exact absurd told (between.ne_unknownFrame frame)

theorem names (fault : forest.FrameAtFault resolution failure) :
    (MissingCause.ofFailure failure.cause).Names failure.cause := by
  have named : ∀ {source target : String} {time : Stamp} {cause : Failure},
      cause.Between source target time → (MissingCause.ofFailure cause).Names cause := by
    intro source target time cause between
    cases between with
    | unconnected => exact .unconnected source target
    | outsideHistory parent child earliest latest =>
        exact .outsideHistory parent child time earliest latest
  cases fault with
  | source unknown => exact .unknownFrame _
  | fixed known unknown => exact .unknownFrame _
  | destination found unknown => exact .unknownFrame _
  | firstHalf _ _ failed between => exact named between
  | secondHalf found failed between => exact named between

end FrameAtFault

section Faults

variable (sound : forest.Sound) (moves : resolution.source ≠ resolution.destination)

include sound moves

theorem Sound.resolve_eq_ok_iff {placed : Pose α} :
    (forest.resolve pose resolution).1 = .ok placed ↔
      ∃ sourceToFixed fixedToDestination, forest.firstHalf resolution = .ok sourceToFixed ∧
        forest.secondHalf resolution = .ok fixedToDestination ∧
          placed = (fixedToDestination * sourceToFixed * pose).normalized := by
  rw [sound.fst_resolve pose moves]
  cases forest.firstHalf resolution with
  | error cause => simp
  | ok sourceToFixed =>
      cases forest.secondHalf resolution with
      | error cause => simp
      | ok fixedToDestination => simp [eq_comm]

theorem Sound.resolve_eq_error_iff {failure : ResolutionFailure} :
    (forest.resolve pose resolution).1 = .error failure ↔
      forest.FrameAtFault resolution failure := by
  rw [sound.fst_resolve pose moves]
  constructor
  · intro told
    cases first : forest.firstHalf resolution with
    | error cause =>
        rw [first] at told
        cases told
        cases sound.lookupFails first with
        | source unknown =>
            rw [blame_unknown_own]
            exact .source unknown
        | target known unknown =>
            rw [blame_fixed (ne_of_mem_of_not_mem known unknown)]
            exact .fixed known unknown
        | between sourceKnown fixedKnown between =>
            rw [blame_own (between.ne_unknownFrame _)]
            exact .firstHalf sourceKnown fixedKnown first between
    | ok motion =>
        cases second : forest.secondHalf resolution with
        | ok other =>
            rw [first, second] at told
            cases told
        | error cause =>
            rw [first, second] at told
            cases told
            cases sound.lookupFails second with
            | source unknown => exact absurd (sound.known_of_lookup first).2 unknown
            | target known unknown =>
                rw [blame_unknown_own]
                exact .destination first unknown
            | between _ _ between =>
                rw [blame_own (between.ne_unknownFrame _)]
                exact .secondHalf first second between
  · intro fault
    cases fault with
    | source unknown =>
        rw [firstHalf, sound.lookup_of_unknown_source unknown]
        exact congrArg Except.error blame_unknown_own
    | fixed known unknown =>
        rw [firstHalf, sound.lookup_of_unknown_target known unknown]
        exact congrArg Except.error (blame_fixed (ne_of_mem_of_not_mem known unknown))
    | firstHalf _ _ failed between =>
        rw [failed]
        exact congrArg Except.error (blame_own (between.ne_unknownFrame _))
    | destination found unknown =>
        have fixedKnown := (sound.known_of_lookup found).2
        rw [found, secondHalf, sound.lookup_of_unknown_target fixedKnown unknown]
        exact congrArg Except.error blame_unknown_own
    | secondHalf found failed between =>
        rw [found, failed]
        exact congrArg Except.error (blame_own (between.ne_unknownFrame _))

end Faults

/-- What a resolution answers, and what is made known of its failure. -/
structure BlamesRightly (forest : Forest α) (pose : Pose α) (resolution : Resolution) : Prop where
  /-- In its own frame a pose stays as it is, whether the frame is registered or not. -/
  same : resolution.source = resolution.destination →
    (forest.resolve pose resolution).1 = .ok pose
  placed_iff : resolution.source ≠ resolution.destination → ∀ placed,
    (forest.resolve pose resolution).1 = .ok placed ↔
      ∃ sourceToFixed fixedToDestination, forest.firstHalf resolution = .ok sourceToFixed ∧
        forest.secondHalf resolution = .ok fixedToDestination ∧
          placed = (fixedToDestination * sourceToFixed * pose).normalized
  failed_iff : resolution.source ≠ resolution.destination → ∀ failure,
    (forest.resolve pose resolution).1 = .error failure ↔ forest.FrameAtFault resolution failure
  unknown : ∀ failure, (forest.resolve pose resolution).1 = .error failure →
    ∀ frame, failure.cause = .unknownFrame frame →
      failure.frame = frame ∧ frame ∉ forest.graph.frames
  reason : ∀ failure, (forest.resolve pose resolution).1 = .error failure →
    ∀ source target, (MissingReason.ofFailure failure source target).cause.Names failure.cause

/-- Whatever was called before, and whichever of the three frames are one. -/
theorem blames_rightly_after (settings : Settings) (calls : List (Call α)) (pose : Pose α)
    (resolution : Resolution) : (after settings calls).BlamesRightly pose resolution := by
  have sound := sound_after settings calls
  have same : resolution.source = resolution.destination →
      ((after settings calls).resolve pose resolution).1 = .ok pose := by
    intro here
    rw [resolve, if_pos here]
  have atFault : ∀ failure, ((after settings calls).resolve pose resolution).1 = .error failure →
      (after settings calls).FrameAtFault resolution failure := by
    intro failure failed
    by_cases here : resolution.source = resolution.destination
    · rw [same here] at failed
      cases failed
    · exact (sound.resolve_eq_error_iff here).1 failed
  constructor
  case same => exact same
  case placed_iff => exact fun moves _ => sound.resolve_eq_ok_iff moves
  case failed_iff => exact fun moves _ => sound.resolve_eq_error_iff moves
  case unknown => exact fun failure failed _ told => (atFault failure failed).unknown told
  case reason => exact fun failure failed _ _ => (atFault failure failed).names

end Forest

end FrameForest
