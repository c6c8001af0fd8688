import FrameForest.Proofs.Forest.Calls
import Mathlib.Data.List.DropRight

/-!
# Where an edge comes from

An edge is made by the accepted arrivals of its child alone.  The last of them
names the parent and the kind of the edge, and its track is what the arrivals
build that came in a row with this parent and this kind.  Nothing of an earlier
row survives, and arrivals of other children leave no trace, not even those that
move an ancestor.
-/

namespace FrameForest

variable {α : Type}

namespace Arrival

/-- The accepted arrivals of `child` since the last reset, after one more call and its answer. -/
def heed (child : String) (held : List (Arrival α)) : Call α × Answer α → List (Arrival α)
  | (.reset, _) => []
  | (.record arrival, .recorded (.ok _)) =>
    if arrival.child = child then held ++ [arrival] else held
  | _ => held

/-- The accepted arrivals of `child` since the last reset. -/
def accepted (child : String) (transcript : List (Call α × Answer α)) : List (Arrival α) :=
  transcript.foldl (heed child) []

def matching (first second : Arrival α) : Bool :=
  decide (first.parent = second.parent ∧ first.isFixed = second.isFixed)

/-- The longest row of arrivals at the end that match the last one. -/
def lastRow (arrivals : List (Arrival α)) : List (Arrival α) :=
  match arrivals.getLast? with
  | none => []
  | some last => arrivals.rtakeWhile (matching last)

/-- What arrivals build from the fresh track of the first. -/
def build (settings : Settings) (child : String) : List (Arrival α) → Option (Edge α)
  | [] => none
  | first :: rest =>
    some ⟨first.parent, child,
      (first.freshTrack settings).insertAll ((first :: rest).map Arrival.sample)⟩

theorem lastRow_concat (arrivals : List (Arrival α)) (next : Arrival α) :
    lastRow (arrivals ++ [next]) =
      if arrivals.getLast?.any (matching next) then lastRow arrivals ++ [next] else [next] := by
  have self : matching next next = true := by simp [matching]
  unfold lastRow
  rw [List.getLast?_concat]
  dsimp only
  rw [List.rtakeWhile_concat_pos _ _ _ self]
  cases last : arrivals.getLast? with
  | none =>
      have nothing : arrivals = [] := List.getLast?_eq_none_iff.1 last
      simp [nothing]
  | some newest =>
      obtain ⟨before, rfl⟩ := List.getLast?_eq_some_iff.1 last
      by_cases same : matching next newest = true
      · have alike : matching next = matching newest := by
          funext other
          simp only [matching, decide_eq_true_eq] at same
          simp [matching, same.1, same.2]
        simp [alike]
      · simp [same]

theorem lastRow_ne_nil {arrivals : List (Arrival α)} {last : Arrival α}
    (newest : arrivals.getLast? = some last) : lastRow arrivals ≠ [] := by
  obtain ⟨before, rfl⟩ := List.getLast?_eq_some_iff.1 newest
  rw [lastRow_concat]
  split <;> simp

theorem lastRow_eq_self {arrivals : List (Arrival α)}
    (alike : ∀ first ∈ arrivals, ∀ second ∈ arrivals, first.matching second = true) :
    lastRow arrivals = arrivals := by
  unfold lastRow
  cases newest : arrivals.getLast? with
  | none => exact (List.getLast?_eq_none_iff.1 newest).symm
  | some last =>
      exact List.rtakeWhile_eq_self_iff.2 fun arrival member =>
        alike last (List.mem_of_getLast? newest) arrival member

theorem build_concat (settings : Settings) (child : String) {arrivals : List (Arrival α)}
    (some : arrivals ≠ []) (next : Arrival α) :
    build settings child (arrivals ++ [next]) =
      (build settings child arrivals).map fun edge => (edge.insert next.sample).2 := by
  cases arrivals with
  | nil => exact absurd rfl some
  | cons first rest =>
      simp only [List.cons_append, build, Option.map_some]
      rw [← List.cons_append, List.map_append, List.map_singleton, Track.insertAll_concat]
      rfl

theorem forgetHint_freshTrack (settings : Settings) (arrival : Arrival α) :
    (arrival.freshTrack settings).forgetHint = arrival.freshTrack settings := by
  cases arrival <;> rfl

theorem forgetHint_build (settings : Settings) (child : String) (arrivals : List (Arrival α)) :
    (build settings child arrivals).map Edge.forgetHint = build settings child arrivals := by
  cases arrivals with
  | nil => rfl
  | cons first rest =>
      simp only [build, Option.map_some, Edge.forgetHint,
        Track.forgetHint_insertAll (forgetHint_freshTrack settings first)]

end Arrival

namespace Forest

variable {settings : Settings} {child : String} {held : List (Arrival α)} {forest : Forest α}

/-- The edge of `child` is the one that the arrivals `held` make. -/
structure Traced (settings : Settings) (child : String) (held : List (Arrival α))
    (forest : Forest α) : Prop where
  alike : forest.bare.settings = (Forest.empty (α := α) settings).bare.settings
  parent : forest.graph.parent? child = held.getLast?.map Arrival.parent
  kind : (forest.edges.find? child).map (fun edge => edge.track.isFixed) =
    held.getLast?.map Arrival.isFixed
  edge : (forest.edges.find? child).map Edge.forgetHint =
    Arrival.build settings child (Arrival.lastRow held)

namespace Traced

theorem empty (settings : Settings) (child : String) :
    Traced settings child [] (Forest.empty (α := α) settings) :=
  ⟨rfl, rfl, rfl, rfl⟩

/-- Hints, the memo and other children have no part in it. -/
theorem congr (traced : Traced settings child held forest) {next : Forest α}
    (sameSettings : next.bare.settings = forest.bare.settings)
    (parent : next.graph.parent? child = forest.graph.parent? child)
    (edge : (next.edges.find? child).map Edge.forgetHint =
      (forest.edges.find? child).map Edge.forgetHint) : Traced settings child held next where
  alike := sameSettings.trans traced.alike
  parent := parent.trans traced.parent
  kind := by
    have kinds : ∀ found : Option (Edge α), (found.map fun edge => edge.track.isFixed) =
        (found.map Edge.forgetHint).map fun edge => edge.track.isFixed := by
      intro found
      cases found with
      | none => rfl
      | some edge => exact congrArg some (Track.isFixed_forgetHint edge.track).symm
    rw [kinds, edge, ← kinds, traced.kind]
  edge := edge.trans traced.edge

end Traced

section Accept

variable {arrival : Arrival α} {change : ParentChange} {next : FrameGraph}
  (consistent : forest.Consistent)
  (accepted : forest.graph.Accepts arrival.parent arrival.child change next)

include consistent accepted

theorem Consistent.untouched (other : child ≠ arrival.child) :
    (forest.accept arrival change next).graph.parent? child = forest.graph.parent? child ∧
      (forest.accept arrival change next).edges.find? child = forest.edges.find? child := by
  rw [consistent.find?_accept accepted, if_neg other]
  exact ⟨(accepted.parent?_eq child).trans (if_neg other), rfl⟩

omit accepted in
/-- The edge serves a further arrival exactly when it belongs to the row of the last one. -/
theorem Traced.matching_iff (traced : Traced settings arrival.child held forest) :
    held.getLast?.any arrival.matching = true ↔
      ∃ edge, forest.edges.find? arrival.child = some edge ∧
        edge.parent = arrival.parent ∧ edge.track.isFixed = arrival.isFixed := by
  have parents := consistent.parents arrival.child
  have kinds := traced.kind
  rw [traced.parent] at parents
  cases found : forest.edges.find? arrival.child with
  | none =>
      rw [found] at parents
      have nothing : held.getLast? = none := Option.map_eq_none_iff.1 parents.symm
      simp [nothing]
  | some edge =>
      rw [found] at parents kinds
      obtain ⟨last, newest, sameParent⟩ := Option.map_eq_some_iff.1 parents.symm
      rw [newest] at kinds ⊢
      have sameKind : edge.track.isFixed = last.isFixed := Option.some.inj kinds
      rw [Option.any_some, Arrival.matching, decide_eq_true_eq]
      constructor
      · intro same
        exact ⟨edge, rfl, sameParent.symm.trans same.1.symm, sameKind.trans same.2.symm⟩
      · rintro ⟨other, held, starts, kind⟩
        cases held
        exact ⟨starts.symm.trans sameParent.symm, kind.symm.trans sameKind⟩

/-- The last arrival joins the row before it, or starts a new one with a fresh track. -/
theorem Traced.edge_accept (traced : Traced settings arrival.child held forest) :
    some (forest.take arrival change).2.forgetHint =
      Arrival.build settings arrival.child (Arrival.lastRow (held ++ [arrival])) := by
  have fresh : arrival.freshTrack forest.settings = arrival.freshTrack settings :=
    freshTrack_congr traced.alike arrival
  have serves := traced.matching_iff consistent
  rw [consistent.take_eq accepted, fresh, Arrival.lastRow_concat]
  rcases forest.edges.obtain_cases arrival.parent arrival.child (arrival.freshTrack settings) with
    ⟨edge, found, fits, kept⟩ | ⟨unfit, renewed⟩
  · -- the edge was found to fit, so the row goes on
    rw [Arrival.isFixed_freshTrack] at fits
    have joins := serves.2 ⟨edge, found, fits⟩
    obtain ⟨last, newest, _⟩ := (Option.any_eq_true _ _).1 joins
    have extended := (Edge.insert_congr edge.forgetHint_forgetHint.symm arrival.sample).2
    rw [if_pos joins,
      Arrival.build_concat settings arrival.child (Arrival.lastRow_ne_nil newest), ← traced.edge,
      found, kept, extended, Edge.forgetHint_insert edge.forgetHint_forgetHint]
    rfl
  · -- the edge is missing, or of another parent or kind
    have apart : ¬held.getLast?.any arrival.matching = true := by
      intro joins
      obtain ⟨edge, found, fits⟩ := serves.1 joins
      rw [← arrival.isFixed_freshTrack settings] at fits
      exact unfit edge found fits
    have plain : (Edge.mk arrival.parent arrival.child (arrival.freshTrack settings)).forgetHint =
        ⟨arrival.parent, arrival.child, arrival.freshTrack settings⟩ :=
      congrArg (Edge.mk _ _) (arrival.forgetHint_freshTrack settings)
    rw [if_neg apart, renewed, Edge.forgetHint_insert plain]
    rfl

theorem Traced.accept (traced : Traced settings arrival.child held forest) :
    Traced settings arrival.child (held ++ [arrival]) (forest.accept arrival change next) where
  alike := traced.alike
  parent := by
    rw [List.getLast?_concat]
    exact (accepted.parent?_eq _).trans (if_pos rfl)
  kind := by
    rw [List.getLast?_concat, consistent.find?_accept accepted, if_pos rfl]
    exact congrArg some (consistent.isFixed_take accepted)
  edge := by
    rw [consistent.find?_accept accepted, if_pos rfl]
    exact traced.edge_accept consistent accepted

end Accept

theorem untouched_of_other (consistent : forest.Consistent) {arrival : Arrival α}
    (other : child ≠ arrival.child) :
    (arrival.recordIn forest).result.2.graph.parent? child = forest.graph.parent? child ∧
      (arrival.recordIn forest).result.2.edges.find? child = forest.edges.find? child := by
  rw [recordIn_result]
  cases told : forest.graph.setParent arrival.parent arrival.child forest.settings.reparenting with
  | error failure => exact ⟨rfl, rfl⟩
  | ok accepted =>
      exact consistent.untouched (FrameGraph.accepts_of_setParent told) other

variable [Scalar α]

/-- Every call is heeded as far as it concerns the child. -/
theorem Traced.perform (sound : forest.Sound) (traced : Traced settings child held forest)
    (call : Call α) :
    Traced settings child (Arrival.heed child held (call, (call.perform forest).1))
      (call.perform forest).2 := by
  have quiet : call.isQuiet = true → Traced settings child held (call.perform forest).2 := by
    intro quiet
    have kept := bare_perform_of_isQuiet sound quiet
    refine traced.congr (congrArg Forest.settings kept) ?_ (edges_agree_of_bare_eq kept child).symm
    rw [graph_eq_of_bare_eq kept]
  cases call with
  | register frame =>
      exact traced.congr rfl (FrameGraph.parent?_register frame child) rfl
  | record arrival =>
      have consistent := sound.consistent
      rw [Call.perform, recordIn_result]
      cases told : forest.graph.setParent arrival.parent arrival.child
          forest.settings.reparenting with
      | error failure => exact traced
      | ok accepted =>
          have accepted := FrameGraph.accepts_of_setParent told
          show Traced settings child
            (if arrival.child = child then held ++ [arrival] else held) _
          by_cases same : arrival.child = child
          · subst same
            rw [if_pos rfl]
            exact traced.accept consistent accepted
          · rw [if_neg same]
            obtain ⟨parent, edge⟩ := consistent.untouched accepted (Ne.symm same)
            exact traced.congr rfl parent (congrArg _ edge)
  | lookup question => exact quiet rfl
  | resolve pose resolution => exact quiet rfl
  | forgetLookups => exact quiet rfl
  | jump previous => exact quiet rfl
  | reset =>
      rw [Call.perform, result_reset]
      exact ⟨traced.alike, rfl, rfl, rfl⟩

theorem Traced.run (sound : forest.Sound) (traced : Traced settings child held forest)
    (calls : List (Call α)) :
    Traced settings child ((calls.zip (forest.run calls).1).foldl (Arrival.heed child) held)
      (forest.run calls).2 := by
  induction calls generalizing forest held with
  | nil => exact traced
  | cons call rest ih => exact ih (sound.perform call) (traced.perform sound call)

/-- The calls of a run from an empty forest with their answers. -/
def transcript (settings : Settings) (calls : List (Call α)) : List (Call α × Answer α) :=
  calls.zip ((Forest.empty settings).run calls).1

/-- A child hangs where its last accepted arrival says, by an edge of that kind and with the track
that the last row of its accepted arrivals builds.  An arrival of another child changes none of
this. -/
theorem edge_of_accepted (settings : Settings) (calls : List (Call α)) (child : String) :
    (after settings calls).graph.parent? child =
        (Arrival.accepted child (transcript settings calls)).getLast?.map Arrival.parent ∧
      ((after settings calls).edges.find? child).map (fun edge => edge.track.isFixed) =
        (Arrival.accepted child (transcript settings calls)).getLast?.map Arrival.isFixed ∧
      ((after settings calls).edges.find? child).map Edge.forgetHint =
        Arrival.build settings child
          (Arrival.lastRow (Arrival.accepted child (transcript settings calls))) ∧
      ∀ arrival : Arrival α, child ≠ arrival.child →
        (arrival.recordIn (after settings calls)).result.2.graph.parent? child =
            (after settings calls).graph.parent? child ∧
          (arrival.recordIn (after settings calls)).result.2.edges.find? child =
            (after settings calls).edges.find? child := by
  have traced : Traced settings child (Arrival.accepted child (transcript settings calls))
      (after settings calls) := (Traced.empty settings child).run (.empty settings) calls
  refine ⟨traced.parent, traced.kind, traced.edge, fun arrival other => ?_⟩
  exact untouched_of_other (sound_after settings calls).consistent other

end Forest

end FrameForest
