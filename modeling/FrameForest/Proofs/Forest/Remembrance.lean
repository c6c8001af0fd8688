import FrameForest.Proofs.Forest.Calls
import FrameForest.Proofs.Forest.Inquiries
import FrameForest.Proofs.Frame.Routes

/-!
# What a forest remembers

The calls of a run bring a history of events to the memo.  Every lookup asks it,
also the two that a resolution makes, and a call that changes an edge or jumps
makes it forget.  What a forest remembers, and how often it did, can be read off
this history; the order in which its table happens to be searched plays no part.
-/

namespace FrameForest

variable {α : Type}

namespace Forest.Resolution

/-- The lookup that takes the source to the fixed frame. -/
def toFixed (resolution : Resolution) : Lookup :=
  ⟨resolution.source, resolution.fixed, resolution.sourceTime⟩

/-- The lookup that takes the fixed frame to the destination. -/
def fromFixed (resolution : Resolution) : Lookup :=
  ⟨resolution.fixed, resolution.destination, resolution.destinationTime⟩

end Forest.Resolution

variable [Scalar α]

namespace Forest

/-- A lookup as it is met by the forest. -/
def inquire (forest : Forest α) (question : Lookup) : Inquiry α where
  question
  linked :=
    (forest.graph.route question.source question.target).isOk &&
      decide (question.source ≠ question.target)
  answer := forest.recompute question

/-- The forest after several lookups. -/
def askAll (forest : Forest α) (questions : List Lookup) : Forest α :=
  questions.foldl
    (fun forest question => (forest.lookup question.source question.target question.time).2) forest

end Forest

namespace Call

/-- The lookups that a call makes.  A resolution does not go on after a failure. -/
def questions (call : Call α) (forest : Forest α) : List Lookup :=
  match call with
  | lookup question => [question]
  | resolve _ resolution =>
    if resolution.source = resolution.destination then []
    else
      resolution.toFixed ::
        if (forest.recompute resolution.toFixed).isOk then [resolution.fromFixed] else []
  | _ => []

/-- The call makes the forest drop what it remembers. -/
def forgets (call : Call α) (forest : Forest α) : Bool :=
  match call with
  | record arrival => Forest.tookUp (arrival.recordIn forest).result.1
  | forgetLookups | jump _ | reset => true
  | register _ | lookup _ | resolve _ _ => false

/-- What a call brings to the memo. -/
def events (call : Call α) (forest : Forest α) : List (MemoEvent α) :=
  if call.forgets forest then [.forgotten]
  else (call.questions forest).map fun question => .asked (forest.inquire question)

end Call

namespace Forest

/-- What a run brings to the memo. -/
def history (forest : Forest α) : List (Call α) → List (MemoEvent α)
  | [] => []
  | call :: rest => call.events forest ++ (call.perform forest).2.history rest

variable {forest : Forest α}

/-! ## Lookups as inquiries -/

theorem isOk_route_of_recompute {question : Lookup}
    (answered : (forest.recompute question).isOk = true) :
    (forest.graph.route question.source question.target).isOk = true := by
  rw [recompute_eq] at answered
  cases found : forest.graph.route question.source question.target with
  | ok route => rfl
  | error failure =>
      rw [found] at answered
      cases answered

theorem succeeds_inquire (forest : Forest α) (question : Lookup) :
    (forest.inquire question).succeeds =
      ((forest.inquire question).linked && (forest.inquire question).answer.isOk) := by
  unfold Inquiry.succeeds inquire
  dsimp only
  cases answered : (forest.recompute question).isOk with
  | false => rw [Bool.false_and, Bool.and_false]
  | true => rw [isOk_route_of_recompute answered, Bool.true_and, Bool.true_and, Bool.and_true]

theorem linked_inquire_iff (isForest : forest.graph.IsForest) {question : Lookup} :
    (forest.inquire question).linked = true ↔
      question.source ≠ question.target ∧
        forest.graph.Connected question.source question.target := by
  rw [← isForest.exists_route_iff, inquire]
  dsimp only
  rw [Bool.and_eq_true, decide_eq_true_iff, and_comm]
  apply and_congr_right'
  cases forest.graph.route question.source question.target <;> simp [Except.isOk, Except.toBool]

theorem inquire_of_bare_eq {next : Forest α} (same : next.bare = forest.bare) :
    next.inquire = forest.inquire := by
  funext question
  rw [inquire, graph_eq_of_bare_eq same, recompute_of_bare_eq same, inquire]

/-- A lookup does to the memo what its inquiry does. -/
theorem Sound.memo_lookup (sound : forest.Sound) (question : Lookup) :
    (forest.lookup question.source question.target question.time).2.memo =
      forest.memo.attend (forest.inquire question) := by
  rw [lookup_eq]
  cases found : forest.graph.route question.source question.target with
  | error failure =>
      have off : (forest.inquire question).linked = false := by
        rw [inquire, found]
        rfl
      rw [Memo.attend_of_not_linked off]
  | ok route =>
      have trivial := sound.consistent.isForest.isTrivial_iff found
      dsimp only
      by_cases here : question.source = question.target
      · have off : (forest.inquire question).linked = false := by simp [inquire, here]
        rw [if_pos (trivial.2 here), Memo.attend_of_not_linked off]
      · have linked : (forest.inquire question).linked = true := by
          simp [inquire, found, here, Except.isOk, Except.toBool]
        have computed : (forest.inquire question).answer =
            (forest.traverse route question.time).1 := by
          rw [inquire, recompute_eq, found, ← fst_traverse_bare sound.consistent.keyed]
          exact if_neg fun direct => here (trivial.1 direct)
        have asked : (forest.inquire question).question = question := rfl
        rw [if_neg fun direct => here (trivial.1 direct), Memo.attend, if_pos linked, computed,
          asked]
        cases forest.memo.remembered? question <;> rfl

theorem askAll_cons (forest : Forest α) (question : Lookup) (rest : List Lookup) :
    forest.askAll (question :: rest) =
      (forest.lookup question.source question.target question.time).2.askAll rest := rfl

theorem Sound.memo_askAll (sound : forest.Sound) (questions : List Lookup) :
    (forest.askAll questions).memo =
      (questions.map fun question => MemoEvent.asked (forest.inquire question)).foldl Memo.undergo
        forest.memo := by
  induction questions generalizing forest with
  | nil => rfl
  | cons question rest ih =>
      obtain ⟨next, told, kept, nextSound⟩ := sound.lookup question
      have attended := sound.memo_lookup question
      rw [told] at attended
      rw [askAll_cons, told, ih nextSound, List.map_cons, List.foldl_cons, inquire_of_bare_eq kept,
        attended]
      rfl

/-! ## Calls as events -/

theorem Sound.snd_resolve (sound : forest.Sound) (pose : Pose α) (resolution : Resolution) :
    (forest.resolve pose resolution).2 =
      forest.askAll ((Call.resolve pose resolution).questions forest) := by
  unfold Forest.resolve Call.questions
  dsimp only
  by_cases here : resolution.source = resolution.destination
  · rw [if_pos here, if_pos here]
    rfl
  · obtain ⟨next, first, _, _⟩ := sound.lookup resolution.toFixed
    rw [if_neg here, if_neg here, askAll_cons, first]
    cases answered : forest.recompute resolution.toFixed with
    | error cause =>
        rw [answered] at first
        dsimp only [Resolution.toFixed] at first
        rw [first]
        rfl
    | ok sourceToFixed =>
        rw [answered] at first
        dsimp only [Resolution.toFixed] at first
        rw [first]
        show _ = next.askAll [resolution.fromFixed]
        rw [askAll_cons]
        dsimp only [Resolution.fromFixed]
        cases next.lookup resolution.fixed resolution.destination resolution.destinationTime with
        | mk answer last => cases answer <;> rfl

/-- A call makes the memo forget or asks it. -/
theorem Sound.memo_perform (sound : forest.Sound) (call : Call α) :
    (call.perform forest).2.memo =
      if call.forgets forest then forest.memo.forget
      else (forest.askAll (call.questions forest)).memo := by
  cases call with
  | register frame => rfl
  | record arrival => exact forest.memo_recordIn arrival
  | lookup question => rfl
  | resolve pose resolution => exact congrArg memo (sound.snd_resolve pose resolution)
  | forgetLookups => rfl
  | jump previous => exact congrArg memo (result_jump forest previous)
  | reset => exact congrArg memo (result_reset forest)

theorem Sound.memo_perform_eq_foldl (sound : forest.Sound) (call : Call α) :
    (call.perform forest).2.memo = (call.events forest).foldl Memo.undergo forest.memo := by
  rw [sound.memo_perform, Call.events]
  split
  · rfl
  · exact sound.memo_askAll _

/-! ## The memo after a run -/

section Reflects

variable {capacity : Nat} {events : List (MemoEvent α)}

/-- What is remembered is answered again. -/
theorem Sound.succeeds_of_recent (sound : forest.Sound)
    (reflects : forest.memo.Reflects capacity events) {question : Lookup}
    (recent : question ∈ MemoEvent.recent capacity events) :
    (forest.inquire question).succeeds = true := by
  obtain ⟨entry, found⟩ := Option.isSome_iff_exists.1 ((reflects.ranks.member question).1 recent)
  have computed : forest.recompute question = .ok entry.motion := by
    apply sound.coherent
    rw [Memo.remembered?, found]
    rfl
  have answered : (forest.inquire question).answer.isOk = true := by
    rw [inquire, computed]
    rfl
  rw [Inquiry.succeeds, answered, Bool.true_and]
  exact decide_eq_true (MemoEvent.ends_ne_of_mem_recent recent)

theorem Sound.reflects_lookup (sound : forest.Sound)
    (reflects : forest.memo.Reflects capacity events) (question : Lookup) :
    (forest.lookup question.source question.target question.time).2.memo.Reflects capacity
      (events ++ [.asked (forest.inquire question)]) := by
  rw [sound.memo_lookup question]
  exact reflects.attend (forest.succeeds_inquire question) (sound.succeeds_of_recent reflects)

theorem Sound.reflects_askAll (sound : forest.Sound)
    (reflects : forest.memo.Reflects capacity events) (questions : List Lookup) :
    (forest.askAll questions).memo.Reflects capacity
      (events ++ questions.map fun question => .asked (forest.inquire question)) := by
  induction questions generalizing forest events with
  | nil =>
      rw [List.map_nil, List.append_nil]
      exact reflects
  | cons question rest ih =>
      obtain ⟨next, told, kept, nextSound⟩ := sound.lookup question
      have attended := sound.reflects_lookup reflects question
      rw [told] at attended
      rw [askAll_cons, told, List.map_cons, List.append_cons, ← inquire_of_bare_eq kept]
      rw [← inquire_of_bare_eq kept] at attended
      exact ih nextSound attended

theorem Sound.reflects_perform (sound : forest.Sound)
    (reflects : forest.memo.Reflects capacity events) (call : Call α) :
    (call.perform forest).2.memo.Reflects capacity (events ++ call.events forest) := by
  rw [sound.memo_perform, Call.events]
  split
  · exact reflects.forget
  · exact sound.reflects_askAll reflects _

theorem Sound.reflects_run (sound : forest.Sound)
    (reflects : forest.memo.Reflects capacity events) (calls : List (Call α)) :
    (forest.run calls).2.memo.Reflects capacity (events ++ forest.history calls) := by
  induction calls generalizing forest events with
  | nil =>
      rw [history, List.append_nil]
      exact reflects
  | cons call rest ih =>
      rw [history, ← List.append_assoc]
      exact ih (sound.perform call) (sound.reflects_perform reflects call)

theorem reflects_after (settings : Settings) (calls : List (Call α)) :
    (after settings calls).memo.Reflects settings.memoCapacity.toNat
      ((Forest.empty settings).history calls) :=
  (Sound.empty settings).reflects_run (.empty _) calls

end Reflects

/-! ## The order of the table -/

/-- A run in which the memo may come in another order before every call. -/
inductive RunsTo : Forest α → List (Call α) → List (Answer α) → Forest α → Prop where
  | done (forest : Forest α) : RunsTo forest [] [] forest
  | step {forest last : Forest α} {memo : Memo α} {call : Call α} {calls : List (Call α)}
      {answers : List (Answer α)} (reordered : forest.memo.Reorders memo)
      (rest : RunsTo (call.perform { forest with memo }).2 calls answers last) :
      RunsTo forest (call :: calls) ((call.perform { forest with memo }).1 :: answers) last

theorem Sound.of_reorders (sound : forest.Sound) {memo : Memo α}
    (reordered : forest.memo.Reorders memo) : ({ forest with memo } : Forest α).Sound where
  consistent := sound.consistent.of_bare_eq rfl
  coherent := by
    intro question motion recalled
    rw [← reordered.remembered?_eq] at recalled
    exact sound.coherent question motion recalled

theorem questions_of_bare_eq {left right : Forest α} (same : left.bare = right.bare)
    (call : Call α) : call.questions left = call.questions right := by
  unfold Call.questions
  rw [recompute_of_bare_eq same]

theorem events_of_bare_eq {left right : Forest α} (same : left.bare = right.bare)
    (call : Call α) : call.events left = call.events right := by
  have questions := questions_of_bare_eq same call
  have forgets : call.forgets left = call.forgets right := by
    cases call with
    | record arrival => exact congrArg tookUp (recordIn_of_bare_eq same arrival).1
    | register frame => rfl
    | lookup question => rfl
    | resolve pose resolution => rfl
    | forgetLookups => rfl
    | jump previous => rfl
    | reset => rfl
  rw [Call.events, questions, forgets, inquire_of_bare_eq same, Call.events]

/-- In whatever order the memo comes, the answers are the same, and so is the memo but for its
order. -/
theorem RunsTo.agrees {calls : List (Call α)} {answers : List (Answer α)} {start last : Forest α}
    (runs : start.RunsTo calls answers last) (startSound : start.Sound) (sound : forest.Sound)
    (same : forest.bare = start.bare) (memo : forest.memo.Reorders start.memo)
    (ranked : forest.memo.Ranked) :
    answers = (forest.run calls).1 ∧ (forest.run calls).2.bare = last.bare ∧
      (forest.run calls).2.memo.Reorders last.memo := by
  induction runs generalizing forest with
  | done start => exact ⟨rfl, same, memo⟩
  | @step start last shuffled call calls answers reordered rest ih =>
      have shuffledSound := startSound.of_reorders reordered
      have same : forest.bare = ({ start with memo := shuffled } : Forest α).bare := same
      have told := ((alike_of_bare_eq same).perform shuffledSound sound call).1
      have further := bare_perform_of_bare_eq same sound shuffledSound call
      have order := (memo.trans reordered).foldl_undergo ranked (call.events forest)
      have rankedOn := ranked.foldl_undergo (call.events forest)
      have events : call.events forest = call.events { start with memo := shuffled } :=
        events_of_bare_eq same call
      rw [← sound.memo_perform_eq_foldl] at order rankedOn
      rw [events, ← shuffledSound.memo_perform_eq_foldl] at order
      obtain ⟨answers, bare, memos⟩ :=
        ih (shuffledSound.perform call) (sound.perform call) further order rankedOn
      exact ⟨List.cons_eq_cons.2 ⟨told, answers⟩, bare, memos⟩

/-! ## The lookups used last are remembered -/

/-- The forest remembers the lookups used last, as far as the events tell. -/
structure RemembersLatest (forest : Forest α) (capacity : Nat) (events : List (MemoEvent α)) :
    Prop where
  keys : forest.memo.entries.keys.Perm (MemoEvent.recent capacity events)
  size_le : forest.memo.entries.size ≤ capacity
  hits : forest.memo.hits = MemoEvent.recalled capacity events
  counted : forest.memo.hits + forest.memo.misses = MemoEvent.linkedCount events
  ticks : forest.memo.clock = MemoEvent.linkedCount events
  distinct : (forest.memo.entries.values.map MemoEntry.lastUse).Nodup
  /-- One entry was used least recently, and any search finds it. -/
  oldest : ∀ entries, forest.memo.entries.Reorders entries →
    { forest.memo with entries }.oldest? = (MemoEvent.recent capacity events).head?
  linked_iff : ∀ question, (forest.inquire question).linked = true ↔
    question.source ≠ question.target ∧ forest.graph.Connected question.source question.target
  answered : ∀ question : Lookup,
    (forest.lookup question.source question.target question.time).1 =
      (forest.inquire question).answer
  /-- A further lookup is a hit if it is remembered. -/
  recalls : ∀ question : Lookup,
    (forest.lookup question.source question.target question.time).2.memo.hits =
      forest.memo.hits + if question ∈ MemoEvent.recent capacity events then 1 else 0
  /-- What is not answered is not remembered either. -/
  unanswered : ∀ question : Lookup, (forest.inquire question).answer.isOk = false →
    question ∉ forest.memo.entries.keys ∧
      (forest.lookup question.source question.target question.time).2.memo.entries =
        forest.memo.entries

theorem Sound.entries_lookup_of_failure (sound : forest.Sound) {question : Lookup}
    (failed : (forest.inquire question).answer.isOk = false) :
    question ∉ forest.memo.entries.keys ∧
      (forest.lookup question.source question.target question.time).2.memo.entries =
        forest.memo.entries := by
  have absent : forest.memo.entries.find? question = none := by
    cases found : forest.memo.entries.find? question with
    | none => rfl
    | some entry =>
        have computed : forest.recompute question = .ok entry.motion := by
          apply sound.coherent
          rw [Memo.remembered?, found]
          rfl
        rw [inquire, computed] at failed
        cases failed
  constructor
  · exact Table.find?_eq_none_iff.1 absent
  · rw [sound.memo_lookup]
    cases linked : (forest.inquire question).linked with
    | false => rw [Memo.attend_of_not_linked linked]
    | true =>
        rw [Memo.attend_of_absent linked absent]
        cases answer : (forest.inquire question).answer with
        | error failure => rfl
        | ok motion =>
            rw [answer] at failed
            cases failed

theorem Sound.remembersLatest (sound : forest.Sound) {capacity : Nat}
    {events : List (MemoEvent α)} (reflects : forest.memo.Reflects capacity events) :
    forest.RemembersLatest capacity events where
  keys := reflects.ranks.perm_keys.symm
  size_le := by
    rw [← reflects.ranks.length_eq]
    exact length_latest_le _ _
  hits := reflects.hits
  counted := reflects.counted
  ticks := reflects.ticks
  distinct := reflects.ranks.nodup_lastUses
  oldest := fun _ reordered => (reflects.ranks.of_reorders reordered).oldest?_eq
  linked_iff := fun _ => linked_inquire_iff sound.consistent.isForest
  answered := fun question => fst_lookup sound.consistent.keyed sound.coherent question
  recalls := by
    intro question
    rw [(sound.reflects_lookup reflects question).hits, MemoEvent.recalled_asked, reflects.hits]
    rfl
  unanswered := fun _ => sound.entries_lookup_of_failure

/-- After every run the lookups used last are remembered, and nothing about the run depends on the
order in which the memo is kept. -/
theorem remembers_latest_after (settings : Settings) (calls : List (Call α)) :
    (after settings calls).RemembersLatest settings.memoCapacity.toNat
        ((Forest.empty settings).history calls) ∧
      ∀ (answers : List (Answer α)) (last : Forest α),
        (Forest.empty settings).RunsTo calls answers last →
          answers = ((Forest.empty settings).run calls).1 ∧
            (after settings calls).bare = last.bare ∧
            (after settings calls).memo.Reorders last.memo := by
  have start : (Forest.empty (α := α) settings).Sound := .empty settings
  constructor
  · exact (sound_after settings calls).remembersLatest (reflects_after settings calls)
  · intro answers last runs
    exact runs.agrees start start rfl (.refl _) ⟨[], .empty _⟩

end Forest

end FrameForest
