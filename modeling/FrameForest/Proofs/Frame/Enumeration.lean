import FrameForest.Frame.Roster
import FrameForest.Proofs.Frame.Likeness
import FrameForest.Proofs.Histories

/-!
# Cursors tell the frames of their moment

Cursors are made from a roster while it changes, and they are advanced, copied
and restarted in between.  A cursor that is made lists the frames registered
since the roster was last cleared, in the order in which they were registered
first.  From then on it depends on nothing but what is done to itself: it tells
its names one after the other, and again from the start when it is restarted.
-/

namespace FrameForest

/-- A roster and the cursors that were made from it, in the order in which they were made. -/
structure Enumeration where
  roster : Roster
  cursors : List FrameCursor

inductive RosterCall where
  | register (frame : String)
  | setParent (parent child : String) (policy : ReparentPolicy)
  | clear
  /-- Makes a cursor over the frames. -/
  | list
  /-- The cursor with this number is asked for its next name. -/
  | next (number : Nat)
  | copy (number : Nat)
  | restart (number : Nat)
  deriving DecidableEq

inductive RosterAnswer where
  | done
  | placed (change : Except Failure ParentChange)
  | told (name : Option String)

/-- A call and its answer. -/
structure RosterEvent where
  call : RosterCall
  answer : RosterAnswer

namespace RosterEvent

/-- The frames that an event registers. -/
def registered : RosterEvent → List String
  | ⟨.register frame, _⟩ => [frame]
  | ⟨.setParent parent child _, .placed (.ok _)⟩ => [parent, child]
  | _ => []

/-- What a cursor told, if it was asked. -/
def told? (number : Nat) : RosterEvent → Option (Option String)
  | ⟨.next asked, .told name⟩ => if asked = number then some name else none
  | _ => none

/-- The frames registered since the roster was cleared, each at its first registration. -/
def listed (events : List RosterEvent) : List String :=
  ((since (·.call = .clear) events).flatMap registered).eraseDups

/-- What a cursor told since it was restarted. -/
def tellings (number : Nat) (events : List RosterEvent) : List (Option String) :=
  (since (·.call = .restart number) events).filterMap (told? number)

end RosterEvent

namespace RosterCall

def perform (call : RosterCall) (enumeration : Enumeration) : RosterAnswer × Enumeration :=
  let ⟨roster, cursors⟩ := enumeration
  match call with
  | register frame => (.done, ⟨roster.register frame, cursors⟩)
  | setParent parent child policy =>
    match roster.setParent parent child policy with
    | .error failure => (.placed (.error failure), enumeration)
    | .ok (change, roster) => (.placed (.ok change), ⟨roster, cursors⟩)
  | clear => (.done, ⟨roster.clear, cursors⟩)
  | list => (.done, ⟨roster.cursor.2, cursors ++ [roster.cursor.1]⟩)
  | next number =>
    (.told (cursors[number]?.bind fun cursor => cursor.next.1),
      ⟨roster, cursors.modify number fun cursor => cursor.next.2⟩)
  | copy number => (.done, ⟨roster, cursors ++ cursors[number]?.toList⟩)
  | restart number => (.done, ⟨roster, cursors.modify number .restart⟩)

end RosterCall

namespace Enumeration

def empty : Enumeration :=
  ⟨∅, []⟩

/-- The events of several calls, and what they lead to. -/
def run (enumeration : Enumeration) : List RosterCall → List RosterEvent × Enumeration
  | [] => ([], enumeration)
  | call :: rest =>
    (⟨call, (call.perform enumeration).1⟩ :: ((call.perform enumeration).2.run rest).1,
      ((call.perform enumeration).2.run rest).2)

theorem run_concat (enumeration : Enumeration) (calls : List RosterCall) (call : RosterCall) :
    enumeration.run (calls ++ [call]) =
      ((enumeration.run calls).1 ++ [⟨call, (call.perform (enumeration.run calls).2).1⟩],
        (call.perform (enumeration.run calls).2).2) := by
  induction calls generalizing enumeration with
  | nil => rfl
  | cons first rest ih =>
      rw [List.cons_append, run, ih]
      rfl

end Enumeration

/-! ## The frames that a cursor is made of -/

namespace Roster

/-- What is listed are the frames. -/
def Current (roster : Roster) : Prop :=
  ∀ names ∈ roster.listing, names = roster.graph.frames

namespace Current

variable {roster : Roster}

theorem empty : (∅ : Roster).Current := by
  intro names listed
  cases listed

theorem names_eq (current : roster.Current) :
    roster.listing.getD roster.graph.frames = roster.graph.frames := by
  cases listed : roster.listing with
  | none => rfl
  | some names => exact current names listed

/-- The cursor is the one that the graph itself would make. -/
theorem cursor_eq (current : roster.Current) : roster.cursor.1 = roster.graph.cursor := by
  simp only [Roster.cursor, FrameGraph.cursor, current.names_eq]

theorem register (current : roster.Current) (frame : String) : (roster.register frame).Current := by
  unfold Roster.register
  split
  · exact current
  · intro names listed
    cases listed

theorem cursor (current : roster.Current) : roster.cursor.2.Current := by
  intro names listed
  exact (Option.some.inj listed).symm.trans current.names_eq

end Current

theorem graph_register (roster : Roster) (frame : String) :
    (roster.register frame).graph = roster.graph.register frame := by
  unfold Roster.register FrameGraph.register FrameGraph.contains
  by_cases present : frame ∈ roster.graph.frames
  · rw [if_pos (decide_eq_true present), dif_pos present]
  · rw [if_neg (by simpa using present)]

variable {roster next : Roster} {parent child : String} {policy : ReparentPolicy}
  {change : ParentChange}

/-- A roster follows its graph and, if anything changes, registers both frames. -/
theorem setParent_cases (accepted : roster.setParent parent child policy = .ok (change, next)) :
    roster.graph.Accepts parent child change next.graph ∧
      (next = roster ∨ next.listing = ((roster.register parent).register child).listing) := by
  unfold setParent at accepted
  cases told : roster.graph.setParent parent child policy with
  | error failure =>
      rw [told] at accepted
      cases accepted
  | ok outcome =>
      obtain ⟨kind, graph⟩ := outcome
      have accepts := FrameGraph.accepts_of_setParent told
      rw [told] at accepted
      cases accepts with
      | unchanged held =>
          cases accepted
          exact ⟨.unchanged held, .inl rfl⟩
      | attached root free =>
          cases accepted
          exact ⟨.attached root free, .inr rfl⟩
      | reparented held moves free =>
          cases accepted
          exact ⟨.reparented held moves free, .inr rfl⟩

theorem Current.setParent (current : roster.Current)
    (accepted : roster.setParent parent child policy = .ok (change, next)) : next.Current := by
  obtain ⟨accepts, same | listing⟩ := setParent_cases accepted
  · rw [same]
    exact current
  · intro names listed
    rw [listing] at listed
    rw [accepts.frames_eq, ← graph_register, ← graph_register]
    exact (current.register parent).register child names listed

end Roster

namespace FrameGraph

/-- Registering a frame appends it unless it is there. -/
theorem frames_register_of_eraseDups {graph : FrameGraph} {names : List String}
    (same : graph.frames = names.eraseDups) (frame : String) :
    (graph.register frame).frames = (names ++ [frame]).eraseDups := by
  rw [frames_register, List.eraseDups_append, same]
  by_cases present : frame ∈ names
  · rw [if_pos (List.mem_eraseDups.2 present)]
    simp [List.removeAll, present]
  · rw [if_neg (mt List.mem_eraseDups.1 present)]
    simp [List.removeAll, present, List.eraseDups_cons]

end FrameGraph

namespace RosterEvent

theorem listed_concat (events : List RosterEvent) {event : RosterEvent}
    (kept : event.call ≠ .clear) :
    listed (events ++ [event]) =
      ((since (·.call = .clear) events).flatMap registered ++ event.registered).eraseDups := by
  rw [listed, since_concat _ (by simpa using kept), List.flatMap_append]
  simp

theorem listed_clear (events : List RosterEvent) (answer : RosterAnswer) :
    listed (events ++ [⟨.clear, answer⟩]) = [] := by
  rw [listed, since_concat_of_stops _ (by simp)]
  rfl

theorem listed_of_none (events : List RosterEvent) {event : RosterEvent}
    (kept : event.call ≠ .clear) (none : event.registered = []) :
    listed (events ++ [event]) = listed events := by
  rw [listed_concat events kept, none, List.append_nil, listed]

theorem told?_of_ne {number : Nat} {event : RosterEvent} (other : event.call ≠ .next number) :
    event.told? number = none := by
  unfold told?
  split
  · exact if_neg fun same => other (congrArg RosterCall.next same)
  · rfl

theorem tellings_concat (number : Nat) (events : List RosterEvent) {event : RosterEvent}
    (on : event.call ≠ .restart number) :
    tellings number (events ++ [event]) =
      tellings number events ++ (event.told? number).toList := by
  rw [tellings, since_concat _ (by simpa using on), filterMap_concat, tellings]

theorem tellings_restart (number : Nat) (events : List RosterEvent) (answer : RosterAnswer) :
    tellings number (events ++ [⟨.restart number, answer⟩]) = [] := by
  rw [tellings, since_concat_of_stops _ (by simp)]
  rfl

end RosterEvent

namespace Enumeration

variable {enumeration : Enumeration} {events : List RosterEvent}

/-- The roster is current, and its frames are those listed by the events. -/
structure Records (enumeration : Enumeration) (events : List RosterEvent) : Prop where
  current : enumeration.roster.Current
  frames : enumeration.roster.graph.frames = RosterEvent.listed events

theorem Records.perform (records : enumeration.Records events) (call : RosterCall) :
    (call.perform enumeration).2.Records (events ++ [⟨call, (call.perform enumeration).1⟩]) := by
  obtain ⟨roster, cursors⟩ := enumeration
  obtain ⟨current, frames⟩ := records
  have idle : ∀ call : RosterCall, ∀ answer, call ≠ .clear →
      RosterEvent.registered ⟨call, answer⟩ = [] →
        roster.graph.frames = RosterEvent.listed (events ++ [⟨call, answer⟩]) :=
    fun call answer kept none => frames.trans (RosterEvent.listed_of_none events kept none).symm
  cases call with
  | register frame =>
      refine ⟨current.register frame, ?_⟩
      rw [RosterEvent.listed_concat events (by simp), RosterCall.perform]
      dsimp only
      rw [Roster.graph_register]
      exact FrameGraph.frames_register_of_eraseDups frames frame
  | setParent parent child policy =>
      cases told : roster.setParent parent child policy with
      | error failure =>
          rw [RosterCall.perform, told]
          exact ⟨current, idle _ _ (by simp) rfl⟩
      | ok accepted =>
          obtain ⟨change, next⟩ := accepted
          rw [RosterCall.perform, told]
          refine ⟨current.setParent told, ?_⟩
          rw [RosterEvent.listed_concat events (by simp)]
          dsimp only [RosterEvent.registered]
          rw [(Roster.setParent_cases told).1.frames_eq, List.append_cons]
          exact FrameGraph.frames_register_of_eraseDups
            (FrameGraph.frames_register_of_eraseDups frames parent) child
  | clear => exact ⟨.empty, (RosterEvent.listed_clear events _).symm⟩
  | list => exact ⟨current.cursor, idle _ _ (by simp) rfl⟩
  | next number => exact ⟨current, idle _ _ (by simp) rfl⟩
  | copy number => exact ⟨current, idle _ _ (by simp) rfl⟩
  | restart number => exact ⟨current, idle _ _ (by simp) rfl⟩

theorem records_run (calls : List RosterCall) :
    (empty.run calls).2.Records (empty.run calls).1 := by
  induction calls using List.reverseRecOn with
  | nil => exact ⟨.empty, rfl⟩
  | append_singleton earlier call ih =>
      rw [run_concat]
      exact ih.perform call

/-! ## What becomes of a cursor -/

end Enumeration

/-- What a call does to the cursor with a given number. -/
def RosterCall.move (call : RosterCall) (number : Nat) (cursor : FrameCursor) : FrameCursor :=
  if call = .next number then cursor.next.2
  else if call = .restart number then cursor.restart
  else cursor

namespace Enumeration

variable {enumeration : Enumeration} {number : Nat} {cursor : FrameCursor}

theorem getElem?_perform (held : enumeration.cursors[number]? = some cursor) (call : RosterCall) :
    (call.perform enumeration).2.cursors[number]? = some (call.move number cursor) := by
  obtain ⟨roster, cursors⟩ := enumeration
  have kept : ∀ more : List FrameCursor, (cursors ++ more)[number]? = some cursor := by
    intro more
    rw [List.getElem?_append_left (List.getElem?_eq_some_iff.1 held).1]
    exact held
  cases call with
  | register frame => exact held
  | setParent parent child policy =>
      rw [RosterCall.perform]
      cases roster.setParent parent child policy <;> exact held
  | clear => exact held
  | list => exact kept _
  | copy other => exact kept _
  | next other =>
      rw [RosterCall.perform, RosterCall.move]
      dsimp only
      rw [List.getElem?_modify, held]
      by_cases same : other = number <;> simp [same]
  | restart other =>
      rw [RosterCall.perform, RosterCall.move]
      dsimp only
      rw [List.getElem?_modify, held]
      by_cases same : other = number <;> simp [same]

end Enumeration

namespace FrameCursor

theorem names_next (cursor : FrameCursor) : cursor.next.2.names = cursor.names := by
  unfold next
  split <;> rfl

/-- The names that a cursor tells in several calls, all of them once it is restarted. -/
def toTell (cursor : FrameCursor) (number : Nat) (calls : List RosterCall) : List String :=
  if .restart number ∈ calls then cursor.names else cursor.rest

/-- A cursor has told its names in order, and the others are still to come. -/
structure Tells (last : FrameCursor) (names : List String) (told : List (Option String)) :
    Prop where
  answers : told = (List.range told.length).map fun place => names[place]?
  rest : last.rest = names.drop told.length

theorem Tells.next {last : FrameCursor} {names : List String} {told : List (Option String)}
    (tells : last.Tells names told) : last.next.2.Tells names (told ++ [last.next.1]) where
  answers := by
    rw [List.length_append, List.length_singleton, List.range_succ, List.map_append,
      ← tells.answers, last.next_eq.1, tells.rest, List.head?_drop]
    rfl
  rest := by
    rw [last.next_eq.2, tells.rest, List.tail_drop, List.length_append, List.length_singleton]

theorem tells_nil (cursor : FrameCursor) : cursor.Tells cursor.rest [] :=
  ⟨rfl, rfl⟩

end FrameCursor

namespace Enumeration

variable {enumeration : Enumeration} {number : Nat} {cursor : FrameCursor}

/-- Whatever else is done, a cursor tells the names that it was made of. -/
theorem tells_run (held : enumeration.cursors[number]? = some cursor) (calls : List RosterCall) :
    ∃ last, (enumeration.run calls).2.cursors[number]? = some last ∧ last.names = cursor.names ∧
      last.Tells (cursor.toTell number calls)
        (RosterEvent.tellings number (enumeration.run calls).1) := by
  induction calls using List.reverseRecOn with
  | nil => exact ⟨cursor, held, rfl, cursor.tells_nil⟩
  | append_singleton earlier call ih =>
      obtain ⟨last, reached, names, tells⟩ := ih
      have moved := getElem?_perform reached call
      rw [run_concat]
      refine ⟨_, moved, ?_⟩
      rw [RosterCall.move]
      by_cases asks : call = .next number
      · subst asks
        have start : cursor.toTell number (earlier ++ [.next number]) =
            cursor.toTell number earlier := by
          simp [FrameCursor.toTell]
        have answer : ((RosterCall.next number).perform (enumeration.run earlier).2).1 =
            .told last.next.1 := by
          rw [RosterCall.perform]
          exact congrArg (fun held : Option FrameCursor =>
            RosterAnswer.told (held.bind fun cursor => cursor.next.1)) reached
        rw [if_pos rfl, start, answer, RosterEvent.tellings_concat number _ (by simp)]
        refine ⟨last.names_next.trans names, ?_⟩
        simpa [RosterEvent.told?] using tells.next
      · by_cases restarts : call = .restart number
        · subst restarts
          have start : cursor.toTell number (earlier ++ [.restart number]) = cursor.names := by
            simp [FrameCursor.toTell]
          rw [if_neg asks, if_pos rfl, start, RosterEvent.tellings_restart, ← names]
          exact ⟨rfl, last.restart.tells_nil⟩
        · have start : cursor.toTell number (earlier ++ [call]) = cursor.toTell number earlier := by
            simp [FrameCursor.toTell, Ne.symm restarts]
          rw [if_neg asks, if_neg restarts, start, RosterEvent.tellings_concat number _ restarts,
            RosterEvent.told?_of_ne asks]
          refine ⟨names, ?_⟩
          simpa using tells

/-- A cursor that is made now tells the given names, and every cursor its own from now on. -/
structure TellsMoment (enumeration : Enumeration) (names : List String) : Prop where
  distinct : names.Nodup
  made : ∃ cursor, (RosterCall.list.perform enumeration).2.cursors =
      enumeration.cursors ++ [cursor] ∧ cursor.names = names ∧ cursor.rest = names
  /-- A copy is in no way different. -/
  copied : ∀ (number : Nat) (cursor : FrameCursor), enumeration.cursors[number]? = some cursor →
    ((RosterCall.copy number).perform enumeration).2.cursors = enumeration.cursors ++ [cursor]
  /-- What a cursor tells in later calls, and how many names remain after them. -/
  kept : ∀ (number : Nat) (cursor : FrameCursor), enumeration.cursors[number]? = some cursor →
    ∀ calls : List RosterCall, ∃ last,
      (enumeration.run calls).2.cursors[number]? = some last ∧ last.names = cursor.names ∧
        last.Tells (cursor.toTell number calls)
          (RosterEvent.tellings number (enumeration.run calls).1) ∧
        last.remaining = last.rest.length

/-- However a roster and its cursors are used, a new cursor tells the frames registered since the
roster was cleared, and no cursor notices what happens after it was made. -/
theorem tells_moment_run (calls : List RosterCall) :
    (empty.run calls).2.TellsMoment (RosterEvent.listed (empty.run calls).1) where
  distinct := by
    rw [← (records_run calls).frames]
    exact FrameGraph.distinct _
  made := by
    obtain ⟨current, frames⟩ := records_run calls
    refine ⟨(empty.run calls).2.roster.cursor.1, rfl, ?_⟩
    rw [current.cursor_eq]
    exact ⟨frames, frames⟩
  copied := by
    intro number cursor held
    rw [RosterCall.perform]
    dsimp only
    rw [held]
    rfl
  kept := by
    intro number cursor held later
    obtain ⟨last, reached, names, tells⟩ := tells_run held later
    exact ⟨last, reached, names, tells, last.length_rest.symm⟩

end Enumeration

end FrameForest
