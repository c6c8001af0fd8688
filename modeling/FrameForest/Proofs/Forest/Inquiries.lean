import FrameForest.Proofs.Forest.Lookups
import FrameForest.Proofs.Forest.Recency
import FrameForest.Proofs.Histories

/-!
# What befalls a memo

A memo is asked questions and told to forget.  Its entries and its counts can be
read off the list of these events: it holds the lookups that succeeded last since
it was told to forget, and a question is a hit when it is one of them.  The order
of its table has no part in this.
-/

namespace FrameForest

variable {α : Type}

/-- A lookup that is asked for, by itself or on the way to a resolution. -/
structure Inquiry (α : Type) where
  question : Lookup
  /-- A route leads from the source to the target, and they are not the same frame. -/
  linked : Bool
  /-- What the samples tell at that moment. -/
  answer : Except Failure (Motion α)

namespace Inquiry

/-- The lookup finds where the source lies, and not merely that it is the target. -/
def succeeds (inquiry : Inquiry α) : Bool :=
  inquiry.answer.isOk && decide (inquiry.question.source ≠ inquiry.question.target)

end Inquiry

inductive MemoEvent (α : Type) where
  | asked (inquiry : Inquiry α)
  /-- All answers were dropped. -/
  | forgotten

namespace MemoEvent

def inquiry? : MemoEvent α → Option (Inquiry α)
  | asked inquiry => some inquiry
  | forgotten => none

/-- The lookup of a successful inquiry. -/
def success? : MemoEvent α → Option Lookup
  | asked inquiry => if inquiry.succeeds then some inquiry.question else none
  | forgotten => none

def forgets : MemoEvent α → Bool
  | forgotten => true
  | asked _ => false

/-- The lookups that succeeded since the answers were dropped. -/
def successes (events : List (MemoEvent α)) : List Lookup :=
  (since forgets events).filterMap success?

/-- The last `capacity` lookups among those that succeeded since the answers were dropped. -/
def recent (capacity : Nat) (events : List (MemoEvent α)) : List Lookup :=
  latest capacity (successes events)

/-- How many lookups were asked between different frames with a route. -/
def linkedCount (events : List (MemoEvent α)) : Nat :=
  (events.filterMap inquiry?).countP Inquiry.linked

/-- How many lookups were among the recent ones when they were asked. -/
def recalled (capacity : Nat) (events : List (MemoEvent α)) : Nat :=
  countAlong (fun earlier event =>
    event.inquiry?.any fun inquiry => inquiry.question ∈ recent capacity earlier) events

variable (capacity : Nat) (events : List (MemoEvent α)) (inquiry : Inquiry α)

theorem recent_nil : recent (α := α) capacity [] = [] :=
  List.rtake_nil _

theorem successes_forgotten : successes (events ++ [.forgotten]) = [] := by
  rw [successes, since_concat_of_stops _ rfl]
  rfl

theorem recent_forgotten : recent capacity (events ++ [.forgotten]) = [] := by
  rw [recent, successes_forgotten]
  exact List.rtake_nil _

theorem successes_asked :
    successes (events ++ [asked inquiry]) =
      successes events ++ (success? (asked inquiry)).toList := by
  rw [successes, since_concat _ rfl, filterMap_concat, successes]

variable {inquiry} in
theorem recent_of_failure (failed : inquiry.succeeds = false) :
    recent capacity (events ++ [asked inquiry]) = recent capacity events := by
  rw [recent, successes_asked, success?, failed]
  exact congrArg (latest capacity) (List.append_nil _)

variable {capacity inquiry} in
theorem recent_of_success (room : 0 < capacity) (succeeds : inquiry.succeeds = true) :
    recent capacity (events ++ [asked inquiry]) =
      spared capacity (recent capacity events) inquiry.question ++ [inquiry.question] := by
  rw [recent, successes_asked, success?, if_pos succeeds]
  exact latest_concat room _ _

theorem recent_zero : recent 0 events = [] :=
  latest_zero _

variable {capacity events} in
theorem ends_ne_of_mem_recent {question : Lookup} (member : question ∈ recent capacity events) :
    question.source ≠ question.target := by
  obtain ⟨event, _, told⟩ := List.mem_filterMap.1 (mem_of_mem_latest member)
  cases event with
  | forgotten => cases told
  | asked inquiry =>
      rw [success?] at told
      split at told
      case isTrue succeeds =>
        cases told
        simpa using (Bool.and_eq_true_iff.1 succeeds).2
      case isFalse => cases told

theorem linkedCount_forgotten : linkedCount (events ++ [.forgotten]) = linkedCount events := by
  simp [linkedCount, inquiry?]

theorem linkedCount_asked :
    linkedCount (events ++ [asked inquiry]) =
      linkedCount events + if inquiry.linked then 1 else 0 := by
  simp [linkedCount, inquiry?, List.countP_append, List.countP_singleton]

theorem recalled_forgotten :
    recalled capacity (events ++ [.forgotten]) = recalled capacity events :=
  countAlong_concat _ events .forgotten

theorem recalled_asked :
    recalled capacity (events ++ [asked inquiry]) =
      recalled capacity events + if inquiry.question ∈ recent capacity events then 1 else 0 := by
  rw [recalled, countAlong_concat, recalled]
  simp [inquiry?]

/-! ## Events in another order -/

/-- The same lookups succeeded, though perhaps in another order, and as many were linked. -/
structure Alike (left right : List (MemoEvent α)) : Prop where
  successes : (successes left).Perm (successes right)
  linked : linkedCount left = linkedCount right

theorem successes_append_asked (inquiries : List (Inquiry α)) :
    successes (events ++ inquiries.map asked) =
      successes events ++ (inquiries.map asked).filterMap success? := by
  induction inquiries using List.reverseRecOn with
  | nil => simp
  | append_singleton earlier inquiry ih =>
      rw [List.map_append, List.map_singleton, ← List.append_assoc, successes_asked, ih,
        List.append_assoc, filterMap_concat]

theorem linkedCount_append_asked (inquiries : List (Inquiry α)) :
    linkedCount (events ++ inquiries.map asked) =
      linkedCount events + inquiries.countP Inquiry.linked := by
  have every : inquiries.filterMap (inquiry? ∘ asked) = inquiries :=
    List.filterMap_some
  rw [linkedCount, List.filterMap_append, List.filterMap_map, List.countP_append, every,
    linkedCount]

variable {left right : List (MemoEvent α)}

theorem Alike.concat (alike : Alike left right) (event : MemoEvent α) :
    Alike (left ++ [event]) (right ++ [event]) := by
  cases event with
  | forgotten =>
      constructor
      · rw [successes_forgotten, successes_forgotten]
      · rw [linkedCount_forgotten, linkedCount_forgotten]
        exact alike.linked
  | asked inquiry =>
      constructor
      · rw [successes_asked, successes_asked]
        exact alike.successes.append_right _
      · rw [linkedCount_asked, linkedCount_asked, alike.linked]

theorem Alike.append (alike : Alike left right) (events : List (MemoEvent α)) :
    Alike (left ++ events) (right ++ events) := by
  induction events generalizing left right with
  | nil =>
      rw [List.append_nil, List.append_nil]
      exact alike
  | cons event rest ih =>
      rw [List.append_cons, List.append_cons right]
      exact ih (alike.concat event)

variable {events} in
/-- The order of inquiries does not matter. -/
theorem alike_of_perm {first second : List (Inquiry α)} (perm : first.Perm second) :
    Alike (events ++ first.map asked) (events ++ second.map asked) where
  successes := by
    rw [successes_append_asked, successes_append_asked]
    exact ((perm.map asked).filterMap success?).append_left _
  linked := by
    rw [linkedCount_append_asked, linkedCount_append_asked, perm.countP_eq]

end MemoEvent

namespace Memo

variable {memo : Memo α} {inquiry : Inquiry α}

/-- The memo after an inquiry; one that is not linked does not come to it. -/
def attend (memo : Memo α) (inquiry : Inquiry α) : Memo α :=
  if inquiry.linked then
    match memo.remembered? inquiry.question with
    | some _ => (memo.consult inquiry.question).2
    | none => (memo.consult inquiry.question).2.note inquiry.question inquiry.answer
  else memo

/-- The memo once it was asked in vain. -/
def missed (memo : Memo α) : Memo α :=
  { memo with clock := memo.clock + 1, misses := memo.misses + 1 }

@[simp] theorem capacity_missed (memo : Memo α) : memo.missed.capacity = memo.capacity := rfl

def undergo (memo : Memo α) : MemoEvent α → Memo α
  | .asked inquiry => memo.attend inquiry
  | .forgotten => memo.forget

theorem attend_of_not_linked (off : inquiry.linked = false) : memo.attend inquiry = memo := by
  rw [attend, off]
  rfl

theorem consult_of_find? {question : Lookup} {entry : MemoEntry α}
    (found : memo.entries.find? question = some entry) :
    (memo.consult question).2 =
      { memo with
        entries := memo.entries.insert question ⟨entry.motion, memo.clock + 1⟩
        clock := memo.clock + 1
        hits := memo.hits + 1 } := by
  rw [consult, found]

theorem consult_of_absent {question : Lookup} (absent : memo.entries.find? question = none) :
    (memo.consult question).2 = memo.missed := by
  rw [consult, absent]
  rfl

theorem attend_of_find? (linked : inquiry.linked = true) {entry : MemoEntry α}
    (found : memo.entries.find? inquiry.question = some entry) :
    memo.attend inquiry =
      { memo with
        entries := memo.entries.insert inquiry.question ⟨entry.motion, memo.clock + 1⟩
        clock := memo.clock + 1
        hits := memo.hits + 1 } := by
  rw [attend, if_pos linked, remembered?, found, ← consult_of_find? found]
  rfl

theorem attend_of_absent (linked : inquiry.linked = true)
    (absent : memo.entries.find? inquiry.question = none) :
    memo.attend inquiry = memo.missed.note inquiry.question inquiry.answer := by
  rw [attend, if_pos linked, remembered?, absent, ← consult_of_absent absent]
  rfl

/-- Noting an answer changes the entries and none of the counts. -/
theorem note_eq (memo : Memo α) (question : Lookup) (answer : Except Failure (Motion α)) :
    memo.note question answer =
      { memo with entries := (memo.note question answer).entries } := by
  cases answer with
  | error failure => rfl
  | ok motion =>
      rw [note, remember]
      by_cases room : memo.capacity = 0
      · rw [if_pos room]
      · rw [if_neg room]

/-! ## The order of last uses through all events -/

/-- The entries are ranked by their last uses. -/
def Ranked (memo : Memo α) : Prop :=
  ∃ ranking, Ranks memo.entries ranking memo.clock

theorem Ranks.attend_of_find? {ranking : List Lookup}
    (ranks : Ranks memo.entries ranking memo.clock) (linked : inquiry.linked = true)
    {entry : MemoEntry α} (found : memo.entries.find? inquiry.question = some entry) :
    Ranks (memo.attend inquiry).entries (ranking.erase inquiry.question ++ [inquiry.question])
      (memo.attend inquiry).clock := by
  rw [Memo.attend_of_find? linked found]
  exact ranks.renew (Nat.lt_succ_self _) _ _

theorem Ranks.attend_of_absent {ranking : List Lookup}
    (ranks : Ranks memo.entries ranking memo.clock) (linked : inquiry.linked = true)
    (absent : memo.entries.find? inquiry.question = none) :
    Ranks (memo.attend inquiry).entries
      (if inquiry.answer.isOk ∧ memo.capacity ≠ 0 then
        spared memo.capacity ranking inquiry.question ++ [inquiry.question]
      else ranking) (memo.attend inquiry).clock := by
  have off : inquiry.question ∉ ranking := by
    rw [ranks.member, absent]
    exact Bool.false_ne_true
  rw [Memo.attend_of_absent linked absent]
  cases inquiry.answer with
  | error failure =>
      rw [if_neg (by simp [Except.isOk, Except.toBool])]
      exact ranks.later (Nat.le_succ _)
  | ok motion =>
      by_cases room : memo.capacity = 0
      · rw [if_neg (by simp [room]), note, Memo.remember, capacity_missed, if_pos room]
        exact ranks.later (Nat.le_succ _)
      · rw [if_pos ⟨rfl, room⟩]
        have same : Ranks memo.missed.entries ranking memo.clock := ranks
        have clock : (memo.missed.remember inquiry.question motion).clock = memo.missed.clock := by
          rw [Memo.remember]
          split <;> rfl
        rw [note, clock]
        exact same.remember (Nat.lt_succ_self _) room off motion

theorem Ranked.undergo (ranked : memo.Ranked) (event : MemoEvent α) :
    (memo.undergo event).Ranked := by
  obtain ⟨ranking, ranks⟩ := ranked
  cases event with
  | forgotten => exact ⟨[], .empty _⟩
  | asked inquiry =>
      cases linked : inquiry.linked with
      | false =>
          rw [Memo.undergo, attend_of_not_linked linked]
          exact ⟨ranking, ranks⟩
      | true =>
          cases found : memo.entries.find? inquiry.question with
          | some entry => exact ⟨_, ranks.attend_of_find? linked found⟩
          | none => exact ⟨_, ranks.attend_of_absent linked found⟩

theorem Ranked.foldl_undergo (ranked : memo.Ranked) (events : List (MemoEvent α)) :
    (events.foldl Memo.undergo memo).Ranked := by
  induction events generalizing memo with
  | nil => exact ranked
  | cons event rest ih => exact ih (ranked.undergo event)

/-! ## Entries and counts -/

/-- The memo is what the events make of an empty one. -/
structure Reflects (memo : Memo α) (capacity : Nat) (events : List (MemoEvent α)) : Prop where
  limit : memo.capacity = capacity
  ranks : Ranks memo.entries (MemoEvent.recent capacity events) memo.clock
  hits : memo.hits = MemoEvent.recalled capacity events
  counted : memo.hits + memo.misses = MemoEvent.linkedCount events
  ticks : memo.clock = MemoEvent.linkedCount events

namespace Reflects

variable {capacity : Nat} {events : List (MemoEvent α)}

theorem empty (capacity : Nat) : (Memo.empty (α := α) capacity).Reflects capacity [] where
  limit := rfl
  ranks := by
    rw [MemoEvent.recent_nil]
    exact .empty _
  hits := rfl
  counted := rfl
  ticks := rfl

theorem forget (reflects : memo.Reflects capacity events) :
    memo.forget.Reflects capacity (events ++ [.forgotten]) where
  limit := reflects.limit
  ranks := by
    rw [MemoEvent.recent_forgotten]
    exact .empty _
  hits := by
    rw [MemoEvent.recalled_forgotten]
    exact reflects.hits
  counted := by
    rw [MemoEvent.linkedCount_forgotten]
    exact reflects.counted
  ticks := by
    rw [MemoEvent.linkedCount_forgotten]
    exact reflects.ticks

/-- What is remembered is as much as the capacity and the lookups allow. -/
theorem size_eq (reflects : memo.Reflects capacity events) :
    memo.entries.size = min capacity (MemoEvent.successes events).dedup.length := by
  rw [← reflects.ranks.length_eq]
  exact length_latest _ _

private theorem attend_off (reflects : memo.Reflects capacity events)
    (off : inquiry.linked = false) (fails : inquiry.succeeds = false)
    (absent : inquiry.question ∉ MemoEvent.recent capacity events) :
    (memo.attend inquiry).Reflects capacity (events ++ [.asked inquiry]) := by
  have count := MemoEvent.linkedCount_asked events inquiry
  rw [off, if_neg Bool.false_ne_true] at count
  rw [attend_of_not_linked off]
  constructor
  case limit => exact reflects.limit
  case ranks =>
    rw [MemoEvent.recent_of_failure _ _ fails]
    exact reflects.ranks
  case hits =>
    rw [MemoEvent.recalled_asked, if_neg absent]
    exact reflects.hits
  case counted => exact reflects.counted.trans count.symm
  case ticks => exact reflects.ticks.trans count.symm

private theorem attend_hit (reflects : memo.Reflects capacity events)
    (linked : inquiry.linked = true) (succeeds : inquiry.succeeds = true)
    (recent : inquiry.question ∈ MemoEvent.recent capacity events) :
    (memo.attend inquiry).Reflects capacity (events ++ [.asked inquiry]) := by
  obtain ⟨entry, found⟩ := Option.isSome_iff_exists.1 ((reflects.ranks.member _).1 recent)
  have room : 0 < capacity := by
    apply Nat.pos_of_ne_zero
    intro none
    rw [none, MemoEvent.recent_zero] at recent
    cases recent
  have renewed := reflects.ranks.attend_of_find? linked found
  have count := MemoEvent.linkedCount_asked events inquiry
  rw [linked, if_pos rfl] at count
  rw [Memo.attend_of_find? linked found] at renewed ⊢
  constructor
  case limit => exact reflects.limit
  case ranks =>
    rw [MemoEvent.recent_of_success _ room succeeds, spared, if_pos recent]
    exact renewed
  case hits =>
    rw [MemoEvent.recalled_asked, if_pos recent]
    exact congrArg (· + 1) reflects.hits
  case counted =>
    have before := reflects.counted
    rw [count]
    dsimp only
    omega
  case ticks =>
    rw [count]
    exact congrArg (· + 1) reflects.ticks

private theorem attend_miss (reflects : memo.Reflects capacity events)
    (linked : inquiry.linked = true) (apt : inquiry.succeeds = inquiry.answer.isOk)
    (missing : inquiry.question ∉ MemoEvent.recent capacity events) :
    (memo.attend inquiry).Reflects capacity (events ++ [.asked inquiry]) := by
  obtain rfl := reflects.limit
  have absent : memo.entries.find? inquiry.question = none := by
    rw [← Option.not_isSome_iff_eq_none, ← reflects.ranks.member]
    exact missing
  have ranked := reflects.ranks.attend_of_absent linked absent
  have count := MemoEvent.linkedCount_asked events inquiry
  rw [linked, if_pos rfl] at count
  rw [Memo.attend_of_absent linked absent, note_eq] at ranked ⊢
  constructor
  case limit => rfl
  case ranks =>
    cases succeeds : inquiry.succeeds with
    | false =>
        rw [MemoEvent.recent_of_failure _ _ succeeds]
        rw [if_neg (by simp [← apt, succeeds])] at ranked
        exact ranked
    | true =>
        by_cases room : memo.capacity = 0
        · rw [if_neg (by simp [room]), room, MemoEvent.recent_zero] at ranked
          rw [room, MemoEvent.recent_zero]
          exact ranked
        · rw [if_pos ⟨by rw [← apt, succeeds], room⟩] at ranked
          rw [MemoEvent.recent_of_success _ (Nat.pos_of_ne_zero room) succeeds]
          exact ranked
  case hits =>
    rw [MemoEvent.recalled_asked, if_neg missing]
    exact reflects.hits
  case counted =>
    rw [count]
    exact congrArg (· + 1) reflects.counted
  case ticks =>
    rw [count]
    exact congrArg (· + 1) reflects.ticks

/-- Only linked inquiries succeed, and a recent lookup succeeds again. -/
theorem attend (reflects : memo.Reflects capacity events)
    (apt : inquiry.succeeds = (inquiry.linked && inquiry.answer.isOk))
    (again : inquiry.question ∈ MemoEvent.recent capacity events → inquiry.succeeds = true) :
    (memo.attend inquiry).Reflects capacity (events ++ [.asked inquiry]) := by
  cases linked : inquiry.linked with
  | false =>
      have fails : inquiry.succeeds = false := by rw [apt, linked, Bool.false_and]
      exact reflects.attend_off linked fails fun recent => by simp [again recent] at fails
  | true =>
      rw [linked, Bool.true_and] at apt
      by_cases recent : inquiry.question ∈ MemoEvent.recent capacity events
      · exact reflects.attend_hit linked (again recent) recent
      · exact reflects.attend_miss linked apt recent

end Reflects

/-! ## The order of the table -/

/-- Memos that differ in nothing but the order of their tables. -/
structure Reorders (left right : Memo α) : Prop where
  entries : left.entries.Reorders right.entries
  capacity : left.capacity = right.capacity
  clock : left.clock = right.clock
  hits : left.hits = right.hits
  misses : left.misses = right.misses

namespace Reorders

variable {left right : Memo α}

theorem refl (memo : Memo α) : memo.Reorders memo :=
  ⟨.refl _, rfl, rfl, rfl, rfl⟩

theorem trans {last : Memo α} (first : left.Reorders right) (second : right.Reorders last) :
    left.Reorders last :=
  ⟨first.entries.trans second.entries, first.capacity.trans second.capacity,
    first.clock.trans second.clock, first.hits.trans second.hits,
    first.misses.trans second.misses⟩

theorem remembered?_eq (same : left.Reorders right) (question : Lookup) :
    left.remembered? question = right.remembered? question :=
  congrArg (Option.map MemoEntry.motion) (same.entries.find?_eq question)

/-- Either table loses the entry that was used least recently. -/
theorem remember (same : left.Reorders right) {ranking : List Lookup} {now : Nat}
    (ranks : Ranks left.entries ranking now) (question : Lookup) (motion : Motion α) :
    (left.remember question motion).Reorders (right.remember question motion) := by
  have oldest : left.oldest? = right.oldest? := by
    rw [ranks.oldest?_eq, (ranks.of_reorders same.entries).oldest?_eq]
  have room : (left.makeRoom question).Reorders (right.makeRoom question) := by
    unfold makeRoom
    rw [← same.capacity, ← same.entries.size_eq, ← same.entries.contains_eq, ← oldest]
    split
    · cases left.oldest? with
      | none => exact same.entries
      | some least => exact same.entries.erase least
    · exact same.entries
  unfold Memo.remember
  rw [← same.capacity, ← same.clock, ← same.hits, ← same.misses]
  by_cases none : left.capacity = 0
  · rw [if_pos none, if_pos none]
    exact same
  · rw [if_neg none, if_neg none]
    exact ⟨room.insert _ _, rfl, rfl, rfl, rfl⟩

theorem attend (same : left.Reorders right) (ranked : left.Ranked) (inquiry : Inquiry α) :
    (left.attend inquiry).Reorders (right.attend inquiry) := by
  obtain ⟨ranking, ranks⟩ := ranked
  have further := same.entries.find?_eq inquiry.question
  cases linked : inquiry.linked with
  | false =>
      rw [attend_of_not_linked linked, attend_of_not_linked linked]
      exact same
  | true =>
      cases found : left.entries.find? inquiry.question with
      | some entry =>
          rw [attend_of_find? linked found, attend_of_find? linked (further.symm.trans found),
            ← same.clock, ← same.hits]
          exact ⟨same.entries.insert _ _, same.capacity, rfl, rfl, same.misses⟩
      | none =>
          have missed : left.missed.Reorders right.missed :=
            ⟨same.entries, same.capacity, congrArg (· + 1) same.clock, same.hits,
              congrArg (· + 1) same.misses⟩
          rw [attend_of_absent linked found, attend_of_absent linked (further.symm.trans found)]
          cases inquiry.answer with
          | error failure => exact missed
          | ok motion => exact missed.remember ranks _ _

theorem undergo (same : left.Reorders right) (ranked : left.Ranked) (event : MemoEvent α) :
    (left.undergo event).Reorders (right.undergo event) := by
  cases event with
  | asked inquiry => exact same.attend ranked inquiry
  | forgotten => exact ⟨.refl _, same.capacity, same.clock, same.hits, same.misses⟩

theorem foldl_undergo (same : left.Reorders right) (ranked : left.Ranked)
    (events : List (MemoEvent α)) :
    (events.foldl Memo.undergo left).Reorders (events.foldl Memo.undergo right) := by
  induction events generalizing left right with
  | nil => exact same
  | cons event rest ih => exact ih (same.undergo ranked event) (ranked.undergo event)

end Reorders

end Memo

end FrameForest
