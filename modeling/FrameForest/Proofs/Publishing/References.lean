import FrameForest.Publishing.Advertisements
import FrameForest.Proofs.Histories
import FrameForest.Proofs.Table.Reordering

/-!
# References and what the transport hears

A call does one of five things to a topic: nothing, open it with a first
reference, add a reference, give one back, or close it.  The transport hears of
the second and the last only, so its announcements of a topic alternate, and
the references that are held can be counted off the calls since it was last
told of a release.
-/

namespace FrameForest

namespace Announcement

def opens : Announcement → Bool
  | advertise _ _ => true
  | release _ => false

/-- What is announced of one topic. -/
def about (topic : String) (announcements : List Announcement) : List Announcement :=
  announcements.filter fun announcement => announcement.topic = topic

/-- An advertisement comes first, and then releases and advertisements by turns. -/
def Alternates (announcements : List Announcement) : Prop :=
  Changing false (announcements.map opens)

theorem mem_about {topic : String} {announcements : List Announcement}
    {announcement : Announcement} :
    announcement ∈ about topic announcements ↔
      announcement ∈ announcements ∧ announcement.topic = topic := by
  rw [about, List.mem_filter, decide_eq_true_iff]

end Announcement

open Announcement (about opens Alternates)

inductive AdvertisementCall where
  | advertise (topic schema : String)
  | release (topic : String)
  | releaseAll
  deriving DecidableEq, Repr

namespace AdvertisementCall

/-- The topic of a call; all topics have none. -/
def topic? : AdvertisementCall → Option String
  | advertise topic _ => some topic
  | release topic => some topic
  | releaseAll => none

/-- What the call tells the transport, and the advertisements that it leaves. -/
def perform (call : AdvertisementCall) (held : Advertisements) :
    List Announcement × Advertisements :=
  match call with
  | advertise topic schema =>
    let outcome := (held.advertise topic schema).result
    (outcome.announcements, outcome.advertisements)
  | release topic =>
    let outcome := (held.release topic).result
    (outcome.announcements, outcome.advertisements)
  | releaseAll => held.releaseAll

end AdvertisementCall

/-! ## One call -/

namespace Advertisements

variable (held : Advertisements) (topic schema : String)

theorem advertisements_advertise :
    (held.advertise topic schema).result.advertisements =
      ⟨held.references.insert topic (held.count topic + 1)⟩ := by
  unfold advertise
  dsimp only
  split <;> rfl

theorem count_advertise (other : String) :
    (held.advertise topic schema).result.advertisements.count other =
      if other = topic then held.count topic + 1 else held.count other := by
  rw [advertisements_advertise, count, Table.find?_insert]
  split <;> rfl

theorem announcements_advertise :
    (held.advertise topic schema).result.announcements =
      if held.count topic = 0 then [.advertise topic schema] else [] := by
  unfold advertise
  dsimp only
  split <;> rfl

variable {held topic}

theorem count_of_find? {count : Nat} (found : held.references.find? topic = some count) :
    held.count topic = count := by
  rw [Advertisements.count, found, Option.getD_some]

theorem result_release_of_absent (absent : held.references.find? topic = none) :
    (held.release topic).result = ⟨0, [], held⟩ := by
  rw [release, absent]
  rfl

theorem result_release_of_found {count : Nat} (found : held.references.find? topic = some count) :
    (held.release topic).result =
      if count - 1 = 0 then ⟨0, [.release topic], ⟨held.references.erase topic⟩⟩
      else ⟨count - 1, [], ⟨held.references.insert topic (count - 1)⟩⟩ := by
  rw [release, found]
  dsimp only
  split <;> rfl

theorem count_release_of_ne {other : String} (apart : other ≠ topic) :
    (held.release topic).result.advertisements.count other = held.count other := by
  cases found : held.references.find? topic with
  | none => rw [result_release_of_absent found]
  | some count =>
      rw [result_release_of_found found]
      unfold Advertisements.count
      split
      case isTrue => rw [Table.find?_erase, if_neg apart]
      case isFalse => rw [Table.find?_insert, if_neg apart]

theorem perm_releaseAll (held : Advertisements) :
    held.releaseAll.1.Perm (held.references.keys.map Announcement.release) := by
  rw [releaseAll, Table.keys, List.map_map]
  exact (List.mergeSort_perm _ _).map _

/-- All that is held is released, each topic once. -/
theorem about_releaseAll (held : Advertisements) (topic : String) :
    about topic held.releaseAll.1 =
      if held.isAdvertised topic then [.release topic] else [] := by
  have order : (about topic held.releaseAll.1).Perm
      ((held.references.keys.filter fun key => key = topic).map .release) := by
    have released := (perm_releaseAll held).filter fun announcement =>
      decide (announcement.topic = topic)
    rwa [List.filter_map] at released
  have once : held.references.keys.filter (fun key => key = topic) =
      if held.isAdvertised topic then [topic] else [] := by
    have present : held.isAdvertised topic = true ↔ topic ∈ held.references.keys :=
      Table.isSome_find?_iff
    have distinct : held.references.keys.Nodup := held.references.distinct
    rw [List.filter_eq, distinct.count]
    by_cases shown : held.isAdvertised topic = true
    · rw [if_pos shown, if_pos (present.1 shown)]
      rfl
    · rw [if_neg shown, if_neg fun member => shown (present.2 member)]
      rfl
  rw [once] at order
  split at order
  case isTrue present =>
    rw [if_pos present]
    exact List.perm_singleton.1 order
  case isFalse absent =>
    rw [if_neg absent]
    exact order.eq_nil

/-- A call about one topic tells of that topic. -/
theorem topic_of_told {call : AdvertisementCall} (single : call ≠ .releaseAll)
    {announcement : Announcement} (told : announcement ∈ (call.perform held).1) :
    call.topic? = some announcement.topic := by
  cases call with
  | advertise target schema =>
      have told : announcement ∈ (held.advertise target schema).result.announcements := told
      rw [announcements_advertise] at told
      split at told
      · cases List.mem_singleton.1 told
        rfl
      · cases told
  | release target =>
      have told : announcement ∈ (held.release target).result.announcements := told
      cases found : held.references.find? target with
      | none =>
          rw [result_release_of_absent found] at told
          cases told
      | some count =>
          rw [result_release_of_found found] at told
          split at told
          · cases List.mem_singleton.1 told
            rfl
          · cases told
  | releaseAll => exact absurd rfl single

/-- No reference count is kept at zero. -/
def Positive (held : Advertisements) : Prop :=
  ∀ topic count, held.references.find? topic = some count → 0 < count

namespace Positive

theorem empty : Advertisements.empty.Positive := by
  rintro topic count ⟨⟩

theorem isAdvertised_iff (positive : held.Positive) :
    held.isAdvertised topic = true ↔ 0 < held.count topic := by
  unfold isAdvertised Table.contains Advertisements.count
  cases found : held.references.find? topic with
  | none => simp
  | some count => simpa using positive topic count found

theorem insert (positive : held.Positive) (topic : String) {count : Nat} (some : 0 < count) :
    (⟨held.references.insert topic count⟩ : Advertisements).Positive := by
  intro other kept found
  rw [Table.find?_insert] at found
  split at found
  · cases found
    exact some
  · exact positive other kept found

theorem erase (positive : held.Positive) (topic : String) :
    (⟨held.references.erase topic⟩ : Advertisements).Positive := by
  intro other kept found
  rw [Table.find?_erase] at found
  split at found
  · cases found
  · exact positive other kept found

theorem perform (positive : held.Positive) (call : AdvertisementCall) :
    (call.perform held).2.Positive := by
  cases call with
  | advertise topic schema =>
      show (held.advertise topic schema).result.advertisements.Positive
      rw [advertisements_advertise]
      exact positive.insert topic (Nat.succ_pos _)
  | release topic =>
      show (held.release topic).result.advertisements.Positive
      cases found : held.references.find? topic with
      | none => rwa [result_release_of_absent found]
      | some count =>
          rw [result_release_of_found found]
          split
          case isTrue => exact positive.erase topic
          case isFalse more => exact positive.insert topic (Nat.pos_of_ne_zero more)
  | releaseAll => exact empty

end Positive

/-- A call about one topic leaves all others as they are. -/
theorem count_perform_of_other {call : AdvertisementCall} (single : call ≠ .releaseAll)
    (other : call.topic? ≠ some topic) : (call.perform held).2.count topic = held.count topic := by
  cases call with
  | advertise target schema =>
      have apart : topic ≠ target := fun same => other (congrArg some same.symm)
      exact (count_advertise held target schema topic).trans (if_neg apart)
  | release target =>
      have apart : topic ≠ target := fun same => other (congrArg some same.symm)
      exact count_release_of_ne apart
  | releaseAll => exact absurd rfl single

end Advertisements

/-- A call, what was advertised before it, and what the transport was told. -/
structure AdvertisementEvent where
  call : AdvertisementCall
  held : Advertisements
  told : List Announcement

namespace AdvertisementEvent

variable (topic : String)

/-- The call asks for a reference to the topic. -/
def takes (event : AdvertisementEvent) : Bool :=
  match event.call with
  | .advertise target _ => target = topic
  | _ => false

/-- The call gives back a reference to the topic, which was held. -/
def returns (event : AdvertisementEvent) : Bool :=
  match event.call with
  | .release target => target = topic && event.held.isAdvertised topic
  | _ => false

theorem takes_advertise (target schema : String) (held : Advertisements)
    (told : List Announcement) :
    takes topic ⟨.advertise target schema, held, told⟩ = decide (target = topic) := rfl

theorem returns_release (target : String) (held : Advertisements) (told : List Announcement) :
    returns topic ⟨.release target, held, told⟩ =
      (decide (target = topic) && held.isAdvertised topic) := rfl

/-- The transport is told to release the topic. -/
def frees (event : AdvertisementEvent) : Bool :=
  Announcement.release topic ∈ event.told

/-- What happened since the topic was last released. -/
def sinceFreed (events : List AdvertisementEvent) : List AdvertisementEvent :=
  since (frees topic) events

/-- What the transport heard of the topic. -/
def heard (events : List AdvertisementEvent) : List Announcement :=
  about topic (events.flatMap told)

/-- The transport heard last that the topic is advertised. -/
def isOnAir (events : List AdvertisementEvent) : Bool :=
  ((heard topic events).map opens).getLast?.getD false

theorem heard_concat (events : List AdvertisementEvent) (event : AdvertisementEvent) :
    heard topic (events ++ [event]) = heard topic events ++ about topic event.told := by
  rw [heard, List.flatMap_append, List.flatMap_singleton, about, List.filter_append]
  rfl

theorem frees_eq (event : AdvertisementEvent) :
    event.frees topic = decide (Announcement.release topic ∈ about topic event.told) := by
  rw [frees]
  apply decide_eq_decide.2
  rw [Announcement.mem_about]
  exact (and_iff_left rfl).symm

/-- What a call does to a topic, by the references that are held on it before and afterwards. -/
inductive Turn (event : AdvertisementEvent) : Nat → Nat → Prop where
  | rests {count : Nat} (takes : event.takes topic = false) (returns : event.returns topic = false)
      (silent : about topic event.told = []) : Turn event count count
  | opens {schema : String} (takes : event.takes topic = true)
      (returns : event.returns topic = false)
      (told : about topic event.told = [.advertise topic schema]) : Turn event 0 1
  | joins {count : Nat} (takes : event.takes topic = true) (returns : event.returns topic = false)
      (silent : about topic event.told = []) : Turn event (count + 1) (count + 2)
  | leaves {count : Nat} (takes : event.takes topic = false) (returns : event.returns topic = true)
      (silent : about topic event.told = []) : Turn event (count + 2) (count + 1)
  | closes {count : Nat} (told : about topic event.told = [.release topic]) :
      Turn event (count + 1) 0

/-- The references on a topic agree with what happened to it and with what was heard of it. -/
structure Tallies (events : List AdvertisementEvent) (count : Nat) : Prop where
  balance : count + (sinceFreed topic events).countP (returns topic) =
    (sinceFreed topic events).countP (takes topic)
  onAir : isOnAir topic events = decide (0 < count)
  alternates : Alternates (heard topic events)

namespace Tallies

variable {topic} {events : List AdvertisementEvent} {event : AdvertisementEvent}
  {before after : Nat}

theorem nil : Tallies topic [] 0 :=
  ⟨rfl, rfl, .nil false⟩

/-- A call that does not free the topic is added to the balance. -/
theorem balance_concat (tallies : Tallies topic events before) (goes : event.frees topic = false)
    (balance : after + (if event.returns topic then 1 else 0) =
      before + if event.takes topic then 1 else 0) :
    after + (sinceFreed topic (events ++ [event])).countP (returns topic) =
      (sinceFreed topic (events ++ [event])).countP (takes topic) := by
  have earlier := tallies.balance
  have later : sinceFreed topic (events ++ [event]) = sinceFreed topic events ++ [event] :=
    since_concat events goes
  rw [later, List.countP_append, List.countP_append, List.countP_singleton, List.countP_singleton]
  omega

/-- What is not announced shows in the balance only. -/
theorem silent (tallies : Tallies topic events before) (silent : about topic event.told = [])
    (balance : after + (if event.returns topic then 1 else 0) =
      before + if event.takes topic then 1 else 0)
    (still : 0 < before ↔ 0 < after) : Tallies topic (events ++ [event]) after := by
  have same : heard topic (events ++ [event]) = heard topic events := by
    rw [heard_concat, silent, List.append_nil]
  have goes : event.frees topic = false := by
    rw [frees_eq, silent]
    rfl
  constructor
  case balance => exact tallies.balance_concat goes balance
  case onAir =>
    rw [isOnAir, same, ← decide_eq_decide.2 still]
    exact tallies.onAir
  case alternates =>
    rw [same]
    exact tallies.alternates

/-- An announcement has to differ from the one before it. -/
theorem announced (tallies : Tallies topic events before) {announcement : Announcement}
    (told : about topic event.told = [announcement])
    (differs : decide (0 < before) ≠ announcement.opens) :
    isOnAir topic (events ++ [event]) = announcement.opens ∧
      Alternates (heard topic (events ++ [event])) := by
  rw [isOnAir, heard_concat, told, Alternates, List.map_append, List.map_singleton,
    List.getLast?_concat]
  constructor
  · rfl
  · apply tallies.alternates.concat
    rwa [← isOnAir, tallies.onAir]

theorem turn (tallies : Tallies topic events before) (turn : Turn topic event before after) :
    Tallies topic (events ++ [event]) after := by
  cases turn with
  | rests takes returns silent =>
      apply tallies.silent silent _ Iff.rfl
      rw [takes, returns]
  | joins takes returns silent =>
      apply tallies.silent silent
      · rw [takes, returns]
        rfl
      · omega
  | leaves takes returns silent =>
      apply tallies.silent silent
      · rw [takes, returns]
        rfl
      · omega
  | opens takes returns told =>
      obtain ⟨onAir, alternates⟩ := tallies.announced told (by simp [opens])
      have goes : event.frees topic = false := by
        rw [frees_eq, told]
        simp
      refine ⟨tallies.balance_concat goes ?_, onAir, alternates⟩
      rw [takes, returns]
      rfl
  | closes told =>
      obtain ⟨onAir, alternates⟩ := tallies.announced told (by simp [opens])
      have stops : event.frees topic = true := by
        rw [frees_eq, told]
        simp
      refine ⟨?_, onAir, alternates⟩
      rw [sinceFreed, since_concat_of_stops events stops]
      rfl

end Tallies

variable {topic}

theorem about_singleton (announcement : Announcement) :
    about topic [announcement] = if announcement.topic = topic then [announcement] else [] := by
  rw [about, List.filter_singleton]
  simp

/-- What is told of one topic at a time is told in one order only. -/
theorem about_eq_of_perm {told announcements : List Announcement} (order : told.Perm announcements)
    (few : (about topic announcements).length ≤ 1) :
    about topic told = about topic announcements := by
  have own : (about topic told).Perm (about topic announcements) := order.filter _
  match same : about topic announcements, few with
  | [], _ =>
      rw [same] at own
      exact own.eq_nil
  | [announcement], _ =>
      rw [same] at own
      exact List.perm_singleton.1 own

namespace Turn

variable {call : AdvertisementCall} {held : Advertisements} {told announcements : List Announcement}
  {before after : Nat}

theorem reorder (turn : Turn topic ⟨call, held, announcements⟩ before after)
    (order : told.Perm announcements) : Turn topic ⟨call, held, told⟩ before after := by
  have few : (about topic announcements).length ≤ 1 := by
    cases turn <;> simp_all
  have same := about_eq_of_perm order few
  cases turn with
  | rests takes returns silent => exact .rests takes returns (same.trans silent)
  | opens takes returns told => exact .opens takes returns (same.trans told)
  | joins takes returns silent => exact .joins takes returns (same.trans silent)
  | leaves takes returns silent => exact .leaves takes returns (same.trans silent)
  | closes told => exact .closes (same.trans told)

theorem advertise (held : Advertisements) (topic schema : String) :
    Turn topic ⟨.advertise topic schema, held, (held.advertise topic schema).result.announcements⟩
      (held.count topic) (held.count topic + 1) := by
  have takes : ∀ told, takes topic ⟨.advertise topic schema, held, told⟩ = true := by
    intro told
    rw [takes_advertise, decide_eq_true rfl]
  rw [held.announcements_advertise]
  cases held.count topic with
  | zero => exact .opens (takes _) rfl ((about_singleton _).trans (if_pos rfl))
  | succ count => exact .joins (takes _) rfl rfl

theorem release {held : Advertisements} (positive : held.Positive) (topic : String) :
    Turn topic ⟨.release topic, held, (held.release topic).result.announcements⟩
      (held.count topic) ((held.release topic).result.advertisements.count topic) := by
  cases found : held.references.find? topic with
  | none =>
      have absent : held.isAdvertised topic = false :=
        Option.isSome_eq_false_iff.2 (Option.isNone_iff_eq_none.2 found)
      rw [Advertisements.result_release_of_absent found]
      apply Turn.rests rfl _ rfl
      rw [returns_release, absent, Bool.and_false]
  | some count =>
      have present : held.isAdvertised topic = true := Option.isSome_of_mem found
      have returns : ∀ told, returns topic ⟨.release topic, held, told⟩ = true := by
        intro told
        rw [returns_release, present, decide_eq_true rfl, Bool.and_true]
      rw [Advertisements.count_of_find? found, Advertisements.result_release_of_found found]
      match count, positive topic count found with
      | 1, _ =>
          have closed : (⟨held.references.erase topic⟩ : Advertisements).count topic = 0 := by
            rw [Advertisements.count, Table.find?_erase_self, Option.getD_none]
          simp only [Nat.sub_self, if_true, closed]
          exact .closes ((about_singleton _).trans (if_pos rfl))
      | count + 2, _ =>
          have left : (⟨held.references.insert topic (count + 1)⟩ : Advertisements).count topic =
              count + 1 := by
            rw [Advertisements.count, Table.find?_insert_self, Option.getD_some]
          simp only [Nat.add_one_sub_one, Nat.add_one_ne_zero, if_false, left]
          exact .leaves rfl (returns _) rfl

theorem releaseAll {held : Advertisements} (positive : held.Positive) (topic : String) :
    Turn topic ⟨.releaseAll, held, held.releaseAll.1⟩ (held.count topic) 0 := by
  have own := held.about_releaseAll topic
  have advertised : held.isAdvertised topic = true ↔ 0 < held.count topic :=
    positive.isAdvertised_iff
  cases before : held.count topic with
  | zero =>
      rw [before] at advertised
      rw [if_neg (fun present => absurd (advertised.1 present) (by decide))] at own
      exact .rests rfl rfl own
  | succ count =>
      rw [before] at advertised
      rw [if_pos (advertised.2 (Nat.succ_pos count))] at own
      exact .closes own

theorem elsewhere {call : AdvertisementCall} (held : Advertisements) (single : call ≠ .releaseAll)
    (other : call.topic? ≠ some topic) :
    Turn topic ⟨call, held, (call.perform held).1⟩ (held.count topic) (held.count topic) := by
  have silent : about topic (call.perform held).1 = [] := by
    apply List.filter_eq_nil_iff.2
    intro announcement told own
    apply other
    rw [Advertisements.topic_of_told single told, decide_eq_true_iff.1 own]
  cases call with
  | advertise target schema =>
      exact .rests (decide_eq_false fun same => other (congrArg some same)) rfl silent
  | release target =>
      apply Turn.rests rfl _ silent
      have apart : decide (target = topic) = false :=
        decide_eq_false fun same => other (congrArg some same)
      rw [returns_release, apart, Bool.false_and]
  | releaseAll => exact absurd rfl single

/-- Whatever is called, each topic takes one of the five turns. -/
theorem perform {held : Advertisements} (positive : held.Positive) (call : AdvertisementCall)
    (topic : String) :
    Turn topic ⟨call, held, (call.perform held).1⟩ (held.count topic)
      ((call.perform held).2.count topic) := by
  by_cases single : call = .releaseAll
  · subst single
    exact releaseAll positive topic
  by_cases other : call.topic? = some topic
  · cases call with
    | advertise target schema =>
        cases other
        have after := held.count_advertise topic schema topic
        rw [if_pos rfl] at after
        rw [AdvertisementCall.perform, after]
        exact advertise held topic schema
    | release target =>
        cases other
        exact release positive topic
    | releaseAll => exact absurd rfl single
  · rw [Advertisements.count_perform_of_other single other]
    exact elsewhere held single other

end Turn

end AdvertisementEvent

/-! ## Runs -/

namespace Advertisements

open AdvertisementEvent

/-- What is held after some calls on new advertisements.  The transport may be told of the topics
that one call releases in any order. -/
inductive Reached : Advertisements → List AdvertisementEvent → Prop where
  | empty : Reached .empty []
  | perform {held : Advertisements} {events : List AdvertisementEvent}
      (earlier : Reached held events) (call : AdvertisementCall) {told : List Announcement}
      (order : told.Perm (call.perform held).1) :
      Reached (call.perform held).2 (events ++ [⟨call, held, told⟩])

namespace Reached

variable {held : Advertisements} {events : List AdvertisementEvent}

theorem positive (reached : held.Reached events) : held.Positive := by
  induction reached with
  | empty => exact .empty
  | perform _ call _ ih => exact ih.perform call

theorem tallies (reached : held.Reached events) (topic : String) :
    Tallies topic events (held.count topic) := by
  induction reached with
  | empty => exact .nil
  | perform earlier call order ih =>
      apply ih.turn
      exact (Turn.perform earlier.positive call topic).reorder order

end Reached

/-- What is held after some calls, and their events, when the transport is told of topics in the
order of their names. -/
def after (calls : List AdvertisementCall) : Advertisements × List AdvertisementEvent :=
  calls.foldl (fun (held, events) call =>
    ((call.perform held).2, events ++ [⟨call, held, (call.perform held).1⟩])) (.empty, [])

/-- Every list of calls leads somewhere. -/
theorem reached_after (calls : List AdvertisementCall) :
    (after calls).1.Reached (after calls).2 := by
  induction calls using List.reverseRecOn with
  | nil => exact .empty
  | append_singleton calls call ih =>
      rw [after, List.foldl_append]
      exact .perform ih call (.refl _)

/-- What is held on each topic agrees with what happened to it and with what was heard of it, and
no call releases more than is held. -/
structure Accounts (held : Advertisements) (events : List AdvertisementEvent) : Prop where
  alternates : ∀ topic, Alternates (heard topic events)
  onAir_iff : ∀ topic, isOnAir topic events = true ↔ 0 < held.count topic
  isAdvertised_iff : ∀ topic, held.isAdvertised topic = true ↔ 0 < held.count topic
  balance : ∀ topic, held.count topic + (sinceFreed topic events).countP (returns topic) =
    (sinceFreed topic events).countP (takes topic)
  release_held : ∀ topic, held.isAdvertised topic = true →
    (held.release topic).result.count + 1 = held.count topic
  release_surplus : ∀ topic, held.isAdvertised topic = false →
    (held.release topic).result = ⟨0, [], held⟩
  releaseAll_once : ∀ topic, held.releaseAll.1.count (.release topic) =
    if held.isAdvertised topic then 1 else 0
  releaseAll_only : ∀ announcement ∈ held.releaseAll.1, ∃ topic, announcement = .release topic
  releaseAll_empty : held.releaseAll.2 = .empty
  elsewhere : ∀ (call : AdvertisementCall) (topic : String), call ≠ .releaseAll →
    call.topic? ≠ some topic → (call.perform held).2.count topic = held.count topic

theorem accounts_of_reached {held : Advertisements} {events : List AdvertisementEvent}
    (reached : held.Reached events) : held.Accounts events where
  alternates := fun topic => (reached.tallies topic).alternates
  onAir_iff := by
    intro topic
    rw [(reached.tallies topic).onAir, decide_eq_true_iff]
  isAdvertised_iff := fun _ => reached.positive.isAdvertised_iff
  balance := fun topic => (reached.tallies topic).balance
  release_held := by
    intro topic present
    obtain ⟨count, found⟩ := Option.isSome_iff_exists.1 present
    have some := reached.positive topic count found
    rw [result_release_of_found found, count_of_find? found]
    split
    case isTrue last =>
      show 0 + 1 = count
      omega
    case isFalse => exact Nat.sub_add_cancel some
  release_surplus := by
    intro topic absent
    apply result_release_of_absent
    exact Option.isNone_iff_eq_none.1 (Option.isSome_eq_false_iff.1 absent)
  releaseAll_once := by
    intro topic
    have own : (about topic held.releaseAll.1).count (.release topic) =
        held.releaseAll.1.count (.release topic) := List.count_filter (decide_eq_true rfl)
    rw [← own, about_releaseAll]
    split
    case isTrue => exact List.count_singleton_self
    case isFalse => rfl
  releaseAll_only := by
    intro announcement told
    obtain ⟨topic, _, rfl⟩ := List.mem_map.1 ((perm_releaseAll held).mem_iff.1 told)
    exact ⟨topic, rfl⟩
  releaseAll_empty := rfl
  elsewhere := fun _ _ => count_perform_of_other

/-- Two tools share a topic until all is released, and one of them comes back to it. -/
def comeback : List AdvertisementCall :=
  [.advertise "/goal" "Pose", .advertise "/goal" "Pose", .advertise "/point" "Point",
    .release "/goal", .releaseAll, .release "/goal", .advertise "/goal" "Pose"]

theorem accounts_of_reached_comeback :
    (after comeback).1.Reached (after comeback).2 ∧
      isOnAir "/goal" (after comeback).2 = true ∧ isOnAir "/point" (after comeback).2 = false := by
  have reached : (after comeback).1.Reached (after comeback).2 := reached_after comeback
  have accounts : (after comeback).1.Accounts (after comeback).2 := accounts_of_reached reached
  have held : (after comeback).1.count "/goal" = 1 := by decide +kernel
  have gone : (after comeback).1.count "/point" = 0 := by decide +kernel
  refine ⟨reached, (accounts.onAir_iff "/goal").2 (held ▸ Nat.one_pos), ?_⟩
  rw [← Bool.not_eq_true, accounts.onAir_iff, gone]
  exact Nat.lt_irrefl 0

end Advertisements

end FrameForest
