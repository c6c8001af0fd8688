import FrameForest.Proofs.Session.Calls
import Mathlib.Data.List.Induction

/-!
# What a clearing leaves of the placements

A scene is a session together with its placements, each of which may or may not
take part in a tick.  After a clearing only the next tick forgets poses, and only
those of the placements that it takes along.  A placement that stays away from
that tick keeps the pose of the cleared forest, and shows it as stale when a
later tick fails to resolve it.
-/

namespace FrameForest

variable {α σ : Type}

/-- The placements that one tick takes along, in order. -/
structure Selection where
  names : List String
  distinct : names.Nodup

structure Scene (α σ : Type) where
  session : Session α
  cast : String → Placement α
  sink : σ

inductive SceneCall (α σ : Type) where
  /-- A call that has no part in the cast. -/
  | apart (call : SessionCall α σ)
  | tick (selection : Selection) (renderFrame fixedFrame : String)

/-- The cast with new placements under the given names. -/
def Scene.recast (cast : String → Placement α) (names : List String)
    (placements : List (Placement α)) : String → Placement α :=
  fun name => ((names.zip placements).lookup name).getD (cast name)

namespace SceneCall

/-- The call is a tick that takes the placement along. -/
def Takes (name : String) : SceneCall α σ → Prop
  | apart _ => False
  | tick selection _ _ => name ∈ selection.names

instance (name : String) : DecidablePred (Takes (α := α) (σ := σ) name)
  | apart _ => inferInstanceAs (Decidable False)
  | tick selection _ _ => inferInstanceAs (Decidable (name ∈ selection.names))

def ticks : SceneCall α σ → Bool
  | apart call => call.ticks
  | tick _ _ _ => true

variable [Scalar α] [DiagnosisSink σ]

def perform (call : SceneCall α σ) (scene : Scene α σ) : Scene α σ :=
  match call with
  | apart call => { scene with session := (call.perform scene.session).2 }
  | tick selection renderFrame fixedFrame =>
    let (_, updated, session, sink) := (scene.session.tick (selection.names.map scene.cast)
      renderFrame fixedFrame scene.sink).result
    ⟨session, Scene.recast scene.cast selection.names updated, sink⟩

/-- The call makes the session forget everything it holds. -/
def Clears (call : SceneCall α σ) (scene : Scene α σ) : Prop :=
  match call with
  | apart call => (call.event scene.session).clears
  | tick _ _ _ => False

instance (call : SceneCall α σ) (scene : Scene α σ) : Decidable (call.Clears scene) :=
  match call with
  | apart call => inferInstanceAs (Decidable ((call.event scene.session).clears = true))
  | tick _ _ _ => inferInstanceAs (Decidable False)

end SceneCall

/-- An item of a list with one more at the end is this last one or was there before. -/
private theorem cases_of_concat {γ : Type} {items before after : List γ} {last item : γ}
    (split : items ++ [last] = before ++ item :: after) :
    (after = [] ∧ items = before ∧ last = item) ∨
      ∃ others, after = others ++ [last] ∧ items = before ++ item :: others := by
  rcases after.eq_nil_or_concat' with rfl | ⟨others, final, rfl⟩
  · obtain ⟨same, ends⟩ := List.append_inj' split rfl
    exact .inl ⟨rfl, same, List.singleton_inj.1 ends⟩
  · rw [← List.cons_append, ← List.append_assoc] at split
    obtain ⟨same, ends⟩ := List.append_inj' split rfl
    exact .inr ⟨others, by rw [List.singleton_inj.1 ends], same⟩

namespace Scene

theorem recast_map_of_mem (cast : String → Placement α) (update : Placement α → Placement α)
    {names : List String} {name : String} (member : name ∈ names) :
    recast cast names ((names.map cast).map update) name = update (cast name) := by
  have found : (names.zip ((names.map cast).map update)).lookup name =
      some (update (cast name)) := by
    induction names with
    | nil => cases member
    | cons head rest ih =>
        rw [List.map_cons, List.map_cons, List.zip_cons_cons, List.lookup_cons]
        by_cases here : name = head
        · simp [here]
        · rw [beq_false_of_ne here]
          exact ih ((List.mem_cons.1 member).resolve_left here)
  rw [recast, found]
  rfl

theorem recast_of_not_mem (cast : String → Placement α) {names : List String}
    (placements : List (Placement α)) {name : String} (absent : name ∉ names) :
    recast cast names placements name = cast name := by
  have missing : (names.zip placements).lookup name = none := by
    apply List.lookup_eq_none_iff.2
    intro binding member
    have present : binding.1 ∈ names := (List.of_mem_zip member).1
    have other : name ≠ binding.1 := fun same => absent (same ▸ present)
    simpa using other
  rw [recast, missing]
  rfl

variable [Scalar α] [DiagnosisSink σ]

/-- The scene after several calls. -/
def run (scene : Scene α σ) (calls : List (SceneCall α σ)) : Scene α σ :=
  calls.foldl (fun scene call => call.perform scene) scene

theorem run_concat (scene : Scene α σ) (calls : List (SceneCall α σ)) (call : SceneCall α σ) :
    scene.run (calls ++ [call]) = call.perform (scene.run calls) :=
  List.foldl_concat _ _ _ _

/-! ## Single calls -/

section Perform

variable {scene : Scene α σ} {name : String}

theorem session_perform_tick (scene : Scene α σ) (selection : Selection)
    (renderFrame fixedFrame : String) :
    ((SceneCall.tick selection renderFrame fixedFrame).perform scene).session =
      ((SessionCall.tick (selection.names.map scene.cast) renderFrame fixedFrame scene.sink).perform
        scene.session).2 := rfl

theorem sound_perform (sound : scene.session.forest.Sound) (call : SceneCall α σ) :
    (call.perform scene).session.forest.Sound := by
  cases call with
  | apart call => exact Session.sound_perform sound call
  | tick selection renderFrame fixedFrame =>
      rw [session_perform_tick]
      exact Session.sound_perform sound _

theorem placementsOutdated_perform_iff (call : SceneCall α σ) :
    (call.perform scene).session.placementsOutdated = true ↔
      call.Clears scene ∨ call.ticks = false ∧ scene.session.placementsOutdated = true := by
  cases call with
  | apart call =>
      have next := Session.placementsOutdated_perform scene.session call
      rw [SceneCall.perform, next]
      simp [SceneCall.Clears, SceneCall.ticks]
  | tick selection renderFrame fixedFrame =>
      rw [session_perform_tick, Session.placementsOutdated_perform]
      simp [SceneCall.Clears, SceneCall.ticks, SessionCall.ticks, SessionCall.event,
        SessionEvent.clears]

theorem cast_perform_of_not_takes {call : SceneCall α σ} (away : ¬call.Takes name) :
    (call.perform scene).cast name = scene.cast name := by
  cases call with
  | apart call => rfl
  | tick selection renderFrame fixedFrame => exact recast_of_not_mem _ _ away

theorem cast_perform_of_takes (sound : scene.session.forest.Sound) {call : SceneCall α σ}
    (takes : call.Takes name) :
    ∃ told, (call.perform scene).cast name =
      ((scene.cast name).renew scene.session.placementsOutdated).settle told := by
  cases call with
  | apart call => exact takes.elim
  | tick selection renderFrame fixedFrame =>
      obtain ⟨forest, told, ticked, _⟩ := Session.result_tick sound
        (selection.names.map scene.cast) renderFrame fixedFrame scene.sink
      rw [SceneCall.perform, ticked]
      exact ⟨_, recast_map_of_mem scene.cast _ takes⟩

end Perform

/-! ## Runs -/

/-- Nothing was cleared so far. -/
structure Fresh (scene : Scene α σ) : Prop where
  sound : scene.session.forest.Sound
  current : scene.session.placementsOutdated = false

/-- The scene before any call, of an empty session. -/
def enter (settings : Settings) (cast : String → Placement α) (sink : σ) : Scene α σ :=
  ⟨.empty settings, cast, sink⟩

omit [DiagnosisSink σ] in
theorem fresh_enter (settings : Settings) (cast : String → Placement α) (sink : σ) :
    (enter settings cast sink).Fresh :=
  ⟨.empty settings, rfl⟩

theorem Fresh.sound_run {scene : Scene α σ} (fresh : scene.Fresh) (calls : List (SceneCall α σ)) :
    (scene.run calls).session.forest.Sound := by
  induction calls using List.reverseRecOn with
  | nil => exact fresh.sound
  | append_singleton calls call ih =>
      rw [run_concat]
      exact sound_perform ih call

/-- The session was cleared and no tick came since. -/
def Unheeded (scene : Scene α σ) (calls : List (SceneCall α σ)) : Prop :=
  ∃ before clearing rest, calls = before ++ clearing :: rest ∧
    clearing.Clears (scene.run before) ∧ ∀ call ∈ rest, call.ticks = false

theorem unheeded_concat_iff (scene : Scene α σ) (calls : List (SceneCall α σ))
    (call : SceneCall α σ) : scene.Unheeded (calls ++ [call]) ↔
      call.Clears (scene.run calls) ∨ call.ticks = false ∧ scene.Unheeded calls := by
  constructor
  · rintro ⟨before, clearing, rest, split, clears, quiet⟩
    rcases cases_of_concat split with ⟨rfl, rfl, rfl⟩ | ⟨others, rfl, rfl⟩
    · exact .inl clears
    · exact .inr ⟨quiet call (by simp), before, clearing, others, rfl, clears,
        fun other member => quiet other (by simp [member])⟩
  · rintro (clears | ⟨still, before, clearing, rest, rfl, clears, quiet⟩)
    · exact ⟨calls, call, [], rfl, clears, by simp⟩
    · refine ⟨before, clearing, rest ++ [call], by simp, clears, fun other member => ?_⟩
      rcases List.mem_append.1 member with old | new
      · exact quiet other old
      · rw [List.mem_singleton.1 new, still]

theorem Fresh.placementsOutdated_run_iff {scene : Scene α σ} (fresh : scene.Fresh)
    (calls : List (SceneCall α σ)) :
    (scene.run calls).session.placementsOutdated = true ↔ scene.Unheeded calls := by
  induction calls using List.reverseRecOn with
  | nil => simp [Unheeded, run, fresh.current]
  | append_singleton calls call ih =>
      rw [run_concat, placementsOutdated_perform_iff, unheeded_concat_iff, ih]

/-! ## Poses of a cleared forest -/

/-- Some tick of `later` takes the placement along as the first tick after a clearing. -/
def Forgets (scene : Scene α σ) (name : String) (earlier later : List (SceneCall α σ)) : Prop :=
  ∃ before tick after, later = before ++ tick :: after ∧ tick.Takes name ∧
    scene.Unheeded (earlier ++ before)

/-- No tick of `later` that takes the placement along resolves it. -/
def Misses (scene : Scene α σ) (name : String) (earlier later : List (SceneCall α σ)) : Prop :=
  ∀ before tick after, later = before ++ tick :: after → tick.Takes name →
    ((scene.run (earlier ++ before ++ [tick])).cast name).state ≠ .resolved

section Poses

variable {scene : Scene α σ} {name : String} {earlier later : List (SceneCall α σ)}
  {call : SceneCall α σ}

theorem forgets_concat_iff : scene.Forgets name earlier (later ++ [call]) ↔
    scene.Forgets name earlier later ∨ call.Takes name ∧ scene.Unheeded (earlier ++ later) := by
  constructor
  · rintro ⟨before, tick, after, split, takes, unheeded⟩
    rcases cases_of_concat split with ⟨rfl, rfl, rfl⟩ | ⟨others, rfl, rfl⟩
    · exact .inr ⟨takes, unheeded⟩
    · exact .inl ⟨before, tick, others, rfl, takes, unheeded⟩
  · rintro (⟨before, tick, after, rfl, takes, unheeded⟩ | ⟨takes, unheeded⟩)
    · exact ⟨before, tick, after ++ [call], by simp, takes, unheeded⟩
    · exact ⟨later, call, [], rfl, takes, unheeded⟩

theorem misses_cons_iff : scene.Misses name earlier (call :: later) ↔
    (call.Takes name → ((scene.run (earlier ++ [call])).cast name).state ≠ .resolved) ∧
      scene.Misses name (earlier ++ [call]) later := by
  constructor
  · intro missed
    constructor
    · simpa using missed [] call later rfl
    · rintro before tick after rfl
      simpa using missed (call :: before) tick after rfl
  · rintro ⟨first, others⟩ before tick after split takes
    cases before with
    | nil =>
        obtain ⟨rfl, rfl⟩ := List.cons.inj split
        simpa using first takes
    | cons head before =>
        obtain ⟨rfl, rfl⟩ := List.cons.inj split
        simpa using others before tick after rfl takes

theorem misses_nil : scene.Misses name earlier [] := by
  intro before tick after split
  simp at split

instance decidableMisses (scene : Scene α σ) (name : String) :
    ∀ earlier later, Decidable (scene.Misses name earlier later)
  | _, [] => .isTrue misses_nil
  | earlier, call :: later =>
    have := decidableMisses scene name (earlier ++ [call]) later
    decidable_of_iff _ misses_cons_iff.symm

theorem Misses.of_concat (missed : scene.Misses name earlier (later ++ [call])) :
    scene.Misses name earlier later ∧
      (call.Takes name →
        ((scene.run (earlier ++ later ++ [call])).cast name).state ≠ .resolved) := by
  refine ⟨?_, missed later call [] rfl⟩
  rintro before tick after rfl
  exact missed before tick (after ++ [call]) (by simp)

variable (fresh : scene.Fresh)

include fresh

/-- A tick that does not resolve a placement fails it, or forgets its pose before it does. -/
theorem Fresh.cast_run_of_missed {calls : List (SceneCall α σ)} (takes : call.Takes name)
    (missed : ((scene.run (calls ++ [call])).cast name).state ≠ .resolved) :
    (scene.run (calls ++ [call])).cast name =
      (((scene.run calls).cast name).renew
        (scene.run calls).session.placementsOutdated).fail := by
  obtain ⟨told, next⟩ := cast_perform_of_takes (fresh.sound_run calls) takes
  rw [run_concat, next] at missed ⊢
  cases told with
  | ok pose => exact absurd rfl missed
  | error failure => rfl

/-- Once its pose is gone, a placement stays without one until it is resolved again. -/
theorem Fresh.unresolved_of_misses (missed : scene.Misses name earlier later)
    (gone : ((scene.run earlier).cast name).state = .unresolved ∨
      scene.Forgets name earlier later) :
    ((scene.run (earlier ++ later)).cast name).state = .unresolved := by
  induction later using List.reverseRecOn with
  | nil =>
      rw [List.append_nil]
      exact gone.resolve_right (by simp [Forgets])
  | append_singleton later call ih =>
      obtain ⟨before, last⟩ := missed.of_concat
      rw [forgets_concat_iff, ← fresh.placementsOutdated_run_iff] at gone
      rw [← List.append_assoc]
      by_cases takes : call.Takes name
      · rw [fresh.cast_run_of_missed takes (last takes)]
        cases outdated : (scene.run (earlier ++ later)).session.placementsOutdated with
        | true => rfl  -- the tick itself forgets the pose
        | false =>
            apply Placement.state_fail_of_unresolved
            apply ih before
            exact gone.imp_right fun forgets => forgets.resolve_right (by simp [outdated])
      · rw [run_concat, cast_perform_of_not_takes takes]
        apply ih before
        exact gone.imp_right fun forgets => forgets.resolve_right (by simp [takes])

/-- A placement that is spared keeps its pose. -/
theorem Fresh.stale_of_misses (missed : scene.Misses name earlier later)
    (seen : ((scene.run earlier).cast name).state ≠ .unresolved)
    (spared : ¬scene.Forgets name earlier later) :
    ((scene.run (earlier ++ later)).cast name).state ≠ .unresolved ∧
      ((scene.run (earlier ++ later)).cast name).lastPose =
        ((scene.run earlier).cast name).lastPose ∧
      ((∃ call ∈ later, call.Takes name) →
        ((scene.run (earlier ++ later)).cast name).state = .stale) := by
  induction later using List.reverseRecOn with
  | nil =>
      rw [List.append_nil]
      exact ⟨seen, rfl, by simp⟩
  | append_singleton later call ih =>
      obtain ⟨before, last⟩ := missed.of_concat
      rw [forgets_concat_iff, ← fresh.placementsOutdated_run_iff, not_or] at spared
      obtain ⟨kept, pose, stale⟩ := ih before spared.1
      rw [← List.append_assoc]
      by_cases takes : call.Takes name
      · -- another tick has used up the clearing
        have current : (scene.run (earlier ++ later)).session.placementsOutdated = false := by
          simpa [takes] using spared.2
        have failed := Placement.state_fail_of_seen kept
        rw [fresh.cast_run_of_missed takes (last takes), current]
        refine ⟨?_, pose, fun _ => failed⟩
        exact failed.trans_ne (by decide)
      · rw [run_concat, cast_perform_of_not_takes takes]
        refine ⟨kept, pose, ?_⟩
        rintro ⟨other, member, took⟩
        rcases List.mem_append.1 member with old | new
        · exact stale ⟨other, old, took⟩
        · exact absurd (List.mem_singleton.1 new ▸ took) takes

end Poses

/-- After a clearing, a placement that later ticks fail to resolve is unresolved and shows nothing
if it was unresolved before, or if one of these ticks was the first one after a clearing.  Otherwise
it is stale, and its last pose is that of the cleared forest. -/
theorem pose_after_clearing (settings : Settings) (cast : String → Placement α) (sink : σ)
    {earlier later : List (SceneCall α σ)} {clearing : SceneCall α σ} {name : String}
    (clears : clearing.Clears ((enter settings cast sink).run earlier))
    (taken : ∃ call ∈ later, call.Takes name)
    (missed : (enter settings cast sink).Misses name (earlier ++ [clearing]) later) :
    let former := ((enter settings cast sink).run (earlier ++ [clearing])).cast name
    let latter := ((enter settings cast sink).run (earlier ++ [clearing] ++ later)).cast name
    let forgets := (enter settings cast sink).Forgets name (earlier ++ [clearing]) later
    (former.state = .unresolved ∨ forgets →
        latter.state = .unresolved ∧ latter.displayedPose = none) ∧
      (former.state ≠ .unresolved → ¬forgets →
        latter.state = .stale ∧ latter.lastPose = former.lastPose) ∧
      ∀ before tick after, later = before ++ tick :: after →
        (∀ call ∈ before, call.ticks = false) → tick.Takes name → forgets := by
  intro former latter forgets
  have fresh := fresh_enter settings cast sink
  refine ⟨fun gone => ?_, fun seen spared => ?_, ?_⟩
  · have state : latter.state = .unresolved := fresh.unresolved_of_misses missed gone
    exact ⟨state, by rw [Placement.displayedPose, state]⟩
  · obtain ⟨_, pose, stale⟩ := fresh.stale_of_misses missed seen spared
    exact ⟨stale taken, pose⟩
  · rintro before tick after rfl quiet takes
    exact ⟨before, tick, after, rfl, takes, earlier, clearing, before, by simp, clears, quiet⟩

/-- A robot and a lamp, each placed by its own frame. -/
def hall : Scene Float Board :=
  enter .standard (fun name => .create name ⟨[name]⟩ 1 ⟨5⟩) .empty

/-- The robot is seen on the map at the time of its only sample. -/
def visit : List (SceneCall Float Board) :=
  [.apart (.enqueue (.timed ⟨"map", "robot", ⟨5⟩, 1⟩)), .apart (.setTime ⟨5⟩ false),
    .tick ⟨["robot"], by simp⟩ "map" "map"]

/-- The robot takes part in the first tick after a reset. -/
theorem pose_after_clearing_robot :
    let latter := (hall.run (visit ++ [.apart .reset] ++
      [.tick ⟨["lamp", "robot"], by simp⟩ "map" "map"])).cast "robot"
    latter.state = .unresolved ∧ latter.displayedPose = none := by
  have clears : (SceneCall.apart .reset).Clears (hall.run visit) := by decide +kernel
  have missed : hall.Misses "robot" (visit ++ [.apart .reset])
      [.tick ⟨["lamp", "robot"], by simp⟩ "map" "map"] := by decide +kernel
  have told := pose_after_clearing _ _ _ clears ⟨_, List.mem_singleton_self _, by decide⟩ missed
  exact told.1 (.inr (told.2.2 [] _ [] rfl (by simp) (by decide)))

/-- The robot stays away from the first tick after a reset, and the next tick shows it where it was
seen before. -/
theorem pose_outlives_clearing :
    let later : List (SceneCall Float Board) :=
      [.tick ⟨["lamp"], by simp⟩ "map" "map", .tick ⟨["robot"], by simp⟩ "map" "map"]
    let latter := (hall.run (visit ++ [.apart .reset] ++ later)).cast "robot"
    (SceneCall.apart .reset).Clears (hall.run visit) ∧
      hall.Misses "robot" (visit ++ [.apart .reset]) later ∧
      latter.state = .stale ∧ latter.isVisible = true := by
  decide +kernel

end Scene

end FrameForest
