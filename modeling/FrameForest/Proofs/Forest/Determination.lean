import FrameForest.Proofs.Edge.Readings
import FrameForest.Proofs.Forest.Agreement
import FrameForest.Proofs.Forest.Hops
import FrameForest.Proofs.Frame.CommonAncestors
import FrameForest.Proofs.Geometry.Exact

/-!
# What decides a lookup

A lookup fails for want of a route, or because an edge on the route has no motion
at that time; then it blames the first such edge.  What the forest remembers and
what lies off the route have no part in the answer.
-/

namespace FrameForest

/-! ## Edges out of reach -/

namespace Track

variable {α : Type} {first second : Track α}

theorem exists_ends {track : Track α} (occupied : track.samples ≠ []) :
    ∃ first last, track.earliest? = some first ∧ track.latest? = some last :=
  ⟨_, _, List.head?_eq_some_head occupied, List.getLast?_eq_some_getLast occupied⟩

theorem span?_eq {track : Track α} {first last : Sample α} (starts : track.earliest? = some first)
    (ends : track.latest? = some last) : track.span? = some ⟨first.stamp, last.stamp⟩ := by
  rw [span?, starts, ends]
  rfl

theorem span?_congr (samples : first.samples = second.samples) : first.span? = second.span? := by
  simp only [span?, earliest?, latest?, samples]

variable [Scalar α]

/-- Whether a track is fixed and which samples it holds decide what it answers. -/
theorem fst_query_congr (kind : first.isFixed = second.isFixed)
    (samples : first.samples = second.samples) (time : Stamp) (tolerance : Duration) :
    (first.query time tolerance).1 = (second.query time tolerance).1 := by
  cases first with
  | fixed motion =>
      cases second with
      | fixed other =>
          cases samples
          rfl
      | timed history => cases kind
  | timed history =>
      cases second with
      | fixed motion => cases kind
      | timed other =>
          obtain ⟨own, capacity, horizon, hint, positive, ordered⟩ := history
          cases samples
          show (History.query _ time tolerance).1 = (other.query time tolerance).1
          rw [History.fst_query, History.fst_query]
          rfl

theorem fst_query_eq_none_iff {track : Track α} {first last : Sample α}
    (starts : track.earliest? = some first) (ends : track.latest? = some last) (time : Stamp)
    (tolerance : Duration) : (track.query time tolerance).1 = none ↔
      track.isFixed = false ∧ (TimeSpan.mk first.stamp last.stamp).Beyond time tolerance := by
  cases track with
  | fixed motion => simp [query, isFixed]
  | timed history =>
      have span : history.span? = some ⟨first.stamp, last.stamp⟩ := span?_eq starts ends
      have occupied : history.samples ≠ [] := by
        rw [Ne, ← History.span?_eq_none_iff, span]
        exact Option.some_ne_none _
      show (history.query time tolerance).1 = none ↔ _
      rw [History.query_eq_none_iff, span]
      simp [occupied, isFixed]

end Track

namespace Edge

variable {α : Type}

/-- The samples of a timed edge, from the first to the last, are all further from the time than
`tolerance`, and this is what the failure tells. -/
inductive Misses (edge : Edge α) (time : Stamp) (tolerance : Duration) : Failure → Prop
  | beyond {first last : Sample α} (timed : edge.track.isFixed = false)
      (starts : edge.track.earliest? = some first) (ends : edge.track.latest? = some last)
      (far : (TimeSpan.mk first.stamp last.stamp).Beyond time tolerance) :
      Misses edge time tolerance
        (.outsideHistory edge.parent edge.child time first.stamp last.stamp)

/-- Whether the track is fixed, and its samples. -/
def content (edge : Edge α) : Bool × List (Sample α) :=
  (edge.track.isFixed, edge.track.samples)

variable [Scalar α]

theorem fst_query_eq_error_iff {edge : Edge α} (occupied : edge.track.samples ≠ []) (time : Stamp)
    (tolerance : Duration) {failure : Failure} :
    (edge.query time tolerance).1 = .error failure ↔ edge.Misses time tolerance failure := by
  obtain ⟨first, last, starts, ends⟩ := Track.exists_ends occupied
  have reported : edge.reportedSpan = ⟨first.stamp, last.stamp⟩ := by
    rw [reportedSpan, Track.span?_eq starts ends, Option.getD_some]
  have silent := Track.fst_query_eq_none_iff starts ends time tolerance
  rw [fst_query, reported]
  constructor
  · intro failed
    cases told : (edge.track.query time tolerance).1 with
    | some motion =>
        rw [told] at failed
        cases failed
    | none =>
        rw [told] at failed
        cases failed
        exact .beyond (silent.1 told).1 starts ends (silent.1 told).2
  · intro misses
    cases misses with
    | beyond timed starts' ends' far =>
        rw [starts] at starts'
        rw [ends] at ends'
        cases starts'
        cases ends'
        rw [silent.2 ⟨timed, far⟩]

/-- Edges between the same frames and with the same content answer alike. -/
theorem fst_query_congr {first second : Edge α} (parent : first.parent = second.parent)
    (child : first.child = second.child) (content : first.content = second.content) (time : Stamp)
    (tolerance : Duration) : (first.query time tolerance).1 = (second.query time tolerance).1 := by
  obtain ⟨kind, samples⟩ := Prod.mk.inj content
  have answer := Track.fst_query_congr kind samples time tolerance
  have span : first.reportedSpan = second.reportedSpan := by
    rw [reportedSpan, reportedSpan, Track.span?_congr samples]
  rw [fst_query, fst_query, answer, parent, child, span]

end Edge

/-! ## The edge to blame -/

namespace Forest

variable {α : Type}

/-- The first edge of these children that misses the time, and its failure. -/
inductive Blames (forest : Forest α) (time : Stamp) : List String → Failure → Prop
  | here {child : String} {rest : List String} {edge : Edge α} {failure : Failure}
      (found : forest.edges.find? child = some edge)
      (misses : edge.Misses time forest.settings.tolerance failure) :
      Blames forest time (child :: rest) failure
  | later {child : String} {rest : List String} {edge : Edge α} {failure : Failure}
      (found : forest.edges.find? child = some edge)
      (answers : ∀ other, ¬edge.Misses time forest.settings.tolerance other)
      (further : Blames forest time rest failure) : Blames forest time (child :: rest) failure

variable {forest : Forest α} {time : Stamp} {children : List String} {failure : Failure}

/-- Some edge is to blame exactly when one misses the time. -/
theorem exists_blames_iff
    (held : ∀ child ∈ children, ∃ edge, forest.edges.find? child = some edge) :
    (∃ failure, forest.Blames time children failure) ↔
      ∃ child ∈ children, ∃ edge failure, forest.edges.find? child = some edge ∧
        edge.Misses time forest.settings.tolerance failure := by
  constructor
  · rintro ⟨failure, blames⟩
    induction blames with
    | here found misses => exact ⟨_, List.mem_cons_self, _, _, found, misses⟩
    | later found answers further ih =>
        obtain ⟨child, member, missed⟩ := ih fun other later => held other (.tail _ later)
        exact ⟨child, List.mem_cons_of_mem _ member, missed⟩
  · rintro ⟨child, member, edge, failure, found, misses⟩
    induction children with
    | nil => cases member
    | cons head rest ih =>
        rcases List.mem_cons.1 member with rfl | later
        · exact ⟨failure, .here found misses⟩
        · obtain ⟨first, firstFound⟩ := held head List.mem_cons_self
          by_cases missed : ∃ cause, first.Misses time forest.settings.tolerance cause
          · obtain ⟨cause, missed⟩ := missed
            exact ⟨cause, .here firstFound missed⟩
          · obtain ⟨cause, blames⟩ := ih (fun other member => held other (.tail _ member)) later
            exact ⟨cause, .later firstFound (not_exists.1 missed) blames⟩

theorem Blames.outsideHistory (blames : forest.Blames time children failure) :
    ∃ parent child earliest latest,
      failure = .outsideHistory parent child time earliest latest := by
  induction blames with
  | here found misses =>
      cases misses
      exact ⟨_, _, _, _, rfl⟩
  | later found answers further ih => exact ih

variable [Scalar α]

/-- Asked one after the other, the edges of some children fail as the first one to blame does. -/
theorem Consistent.mapM_motionOf_eq_error_iff (consistent : forest.Consistent)
    (held : ∀ child ∈ children, ∃ edge, forest.edges.find? child = some edge) :
    children.mapM (forest.motionOf time) = .error failure ↔
      forest.Blames time children failure := by
  induction children with
  | nil =>
      constructor
      · intro failed
        cases failed
      · intro blames
        cases blames
  | cons child rest ih =>
      obtain ⟨edge, found⟩ := held child List.mem_cons_self
      have occupied := consistent.occupied child edge found
      have asked : ∀ cause, (edge.query time forest.settings.tolerance).1 = .error cause ↔
          edge.Misses time forest.settings.tolerance cause :=
        fun _ => edge.fst_query_eq_error_iff occupied time _
      have later := ih fun other member => held other (List.mem_cons_of_mem _ member)
      rw [mapM_cons_eq_error_iff, motionOf_of_find? found, asked, later]
      constructor
      · rintro (misses | ⟨answered, blames⟩)
        · exact .here found misses
        · refine .later found (fun cause misses => ?_) blames
          rw [(asked cause).2 misses] at answered
          cases answered
      · intro blames
        cases blames with
        | here found' misses =>
            rw [found] at found'
            cases found'
            exact .inl misses
        | later found' answers further =>
            rw [found] at found'
            cases found'
            refine .inr ⟨?_, further⟩
            cases told : (edge.query time forest.settings.tolerance).1 with
            | error cause => exact absurd ((asked cause).1 told) (answers cause)
            | ok motion => rfl

/-- Along a route a lookup fails as the first edge to blame does. -/
theorem Consistent.recompute_eq_error_iff (consistent : forest.Consistent) (question : Lookup)
    {route : Route} (found : forest.graph.route question.source question.target = .ok route) :
    forest.recompute question = .error failure ↔
      forest.Blames question.time (route.up ++ route.down) failure := by
  have held := consistent.exists_edge_of_route found
  rw [recompute_eq, found, ← consistent.mapM_motionOf_eq_error_iff held]
  dsimp only
  by_cases direct : route.isTrivial = true
  · obtain ⟨up, down⟩ := Bool.and_eq_true_iff.1 direct
    rw [if_pos direct, List.isEmpty_iff.1 up, List.isEmpty_iff.1 down]
    constructor <;> intro failed <;> cases failed
  · rw [if_neg direct, fst_traverse_bare consistent.keyed, fst_traverse consistent.keyed]
    cases (route.up ++ route.down).mapM (forest.motionOf question.time) <;> simp [Except.map]

variable {source target : String}

/-- The edges on its route decide a lookup. -/
structure ToldByRoute (forest : Forest α) (source target : String) (time : Stamp) : Prop where
  unrouted : ∀ failure, forest.graph.route source target = .error failure →
    (forest.lookup source target time).1 = .error failure
  same : source = target → source ∈ forest.graph.frames →
    (forest.lookup source target time).1 = .ok 1
  edges : ∀ route, forest.graph.route source target = .ok route →
    ∀ child ∈ route.up ++ route.down, ∃ edge, forest.edges.find? child = some edge ∧
      edge.child = child ∧ forest.graph.parent? child = some edge.parent
  failed : ∀ route, forest.graph.route source target = .ok route →
    ((∃ failure, (forest.lookup source target time).1 = .error failure) ↔
      ∃ child ∈ route.up ++ route.down, ∃ edge failure, forest.edges.find? child = some edge ∧
        edge.Misses time forest.settings.tolerance failure)
  blamed : ∀ route, forest.graph.route source target = .ok route →
    ∀ failure, (forest.lookup source target time).1 = .error failure ↔
      forest.Blames time (route.up ++ route.down) failure
  kinds : ∀ failure, (forest.lookup source target time).1 = .error failure →
    failure = .unknownFrame source ∨ failure = .unknownFrame target ∨
      failure = .unconnected source target ∨ ∃ parent child earliest latest,
        failure = .outsideHistory parent child time earliest latest

theorem Sound.toldByRoute (sound : forest.Sound) (source target : String) (time : Stamp) :
    forest.ToldByRoute source target time := by
  have consistent := sound.consistent
  have looked := fst_lookup consistent.keyed sound.coherent ⟨source, target, time⟩
  have blamed : ∀ route, forest.graph.route source target = .ok route →
      ∀ failure, (forest.lookup source target time).1 = .error failure ↔
        forest.Blames time (route.up ++ route.down) failure := by
    intro route found failure
    rw [looked]
    exact consistent.recompute_eq_error_iff ⟨source, target, time⟩ found
  have unrouted : ∀ failure, forest.graph.route source target = .error failure →
      (forest.lookup source target time).1 = .error failure := by
    intro failure failed
    rw [looked, recompute_eq, failed]
  constructor
  case unrouted => exact unrouted
  case same =>
    rintro rfl known
    obtain ⟨route, found⟩ :=
      consistent.isForest.exists_route_iff.2 ⟨known, known, source, .refl, .refl⟩
    rw [looked, recompute_eq, found]
    exact if_pos ((consistent.isForest.isTrivial_iff found).2 rfl)
  case edges =>
    intro route found child member
    obtain ⟨edge, held⟩ := consistent.exists_edge_of_route found child member
    have parent := consistent.parents child
    rw [held, Option.map_some] at parent
    exact ⟨edge, held, consistent.keyed child edge held, parent.symm⟩
  case failed =>
    intro route found
    rw [← exists_blames_iff (consistent.exists_edge_of_route found)]
    exact exists_congr (blamed route found)
  case blamed => exact blamed
  case kinds =>
    intro failure failed
    cases routed : forest.graph.route source target with
    | error cause =>
        rw [unrouted cause routed] at failed
        cases failed
        cases consistent.isForest.unrouted_of_route routed with
        | source => exact .inl rfl
        | target => exact .inr (.inl rfl)
        | apart => exact .inr (.inr (.inl rfl))
    | ok route =>
        exact .inr (.inr (.inr ((blamed route routed failure).1 failed).outsideHistory))

/-! ## Forests that share a route -/

/-- Both forests have the same route, and on it edges of the same kinds with the same samples. -/
structure SharesRoute (left right : Forest α) (source target : String) : Prop where
  tolerance : left.settings.tolerance = right.settings.tolerance
  route : left.graph.route source target = right.graph.route source target
  edges : ∀ route, left.graph.route source target = .ok route →
    ∀ child ∈ route.up ++ route.down,
      (left.edges.find? child).map Edge.content = (right.edges.find? child).map Edge.content

namespace SharesRoute

variable {left right : Forest α}

omit [Scalar α] in
/-- The route tells from which frame each frame on it hangs. -/
theorem parent?_eq (shares : left.SharesRoute right source target)
    (leftForest : left.graph.IsForest) (rightForest : right.graph.IsForest) {route : Route}
    (found : left.graph.route source target = .ok route) :
    ∀ child ∈ route.up ++ route.down, left.graph.parent? child = right.graph.parent? child := by
  have threads := (leftForest.route_eq_ok_iff_threads.1 found).2.2
  have threadsRight := (rightForest.route_eq_ok_iff_threads.1 (shares.route.symm.trans found)).2.2
  intro child member
  rcases List.mem_append.1 member with rising | falling
  · exact threads.up.parent?_congr threadsRight.up child rising
  · exact threads.down.parent?_congr threadsRight.down child (List.mem_reverse.2 falling)

theorem motionOf_eq (shares : left.SharesRoute right source target)
    (leftConsistent : left.Consistent) (rightConsistent : right.Consistent) {route : Route}
    (found : left.graph.route source target = .ok route) :
    ∀ child ∈ route.up ++ route.down, left.motionOf time child = right.motionOf time child := by
  intro child member
  have parent :=
    shares.parent?_eq leftConsistent.isForest rightConsistent.isForest found child member
  have content := shares.edges route found child member
  obtain ⟨edge, held⟩ := leftConsistent.exists_edge_of_route found child member
  obtain ⟨other, heldRight⟩ :=
    rightConsistent.exists_edge_of_route (shares.route.symm.trans found) child member
  rw [← leftConsistent.parents, ← rightConsistent.parents, held, heldRight] at parent
  rw [held, heldRight] at content
  have tips := (leftConsistent.keyed child edge held).trans
    (rightConsistent.keyed child other heldRight).symm
  rw [motionOf_of_find? held, motionOf_of_find? heldRight, shares.tolerance]
  exact Edge.fst_query_congr (Option.some.inj parent) tips (Option.some.inj content) _ _

/-- What is off the route does not matter, and neither does what is remembered. -/
theorem fst_lookup_eq (shares : left.SharesRoute right source target) (leftSound : left.Sound)
    (rightSound : right.Sound) (time : Stamp) :
    (left.lookup source target time).1 = (right.lookup source target time).1 := by
  have leftKeyed := leftSound.consistent.keyed
  have rightKeyed := rightSound.consistent.keyed
  have answer := fst_lookup leftKeyed leftSound.coherent ⟨source, target, time⟩
  have answerRight := fst_lookup rightKeyed rightSound.coherent ⟨source, target, time⟩
  rw [recompute_eq] at answer answerRight
  rw [answer, answerRight]
  dsimp only
  rw [← shares.route]
  cases found : left.graph.route source target with
  | error failure => rfl
  | ok route =>
      dsimp only
      rw [fst_traverse_bare leftKeyed, fst_traverse_bare rightKeyed, fst_traverse leftKeyed,
        fst_traverse rightKeyed,
        mapM_congr (shares.motionOf_eq leftSound.consistent rightSound.consistent found)]

end SharesRoute

/-- Whatever was called on both forests before. -/
theorem told_by_route_after (settings : Settings) (calls : List (Call α)) (source target : String)
    (time : Stamp) :
    (after settings calls).ToldByRoute source target time ∧
      ∀ (otherSettings : Settings) (otherCalls : List (Call α)),
        (after settings calls).SharesRoute (after otherSettings otherCalls) source target →
          ((after settings calls).lookup source target time).1 =
            ((after otherSettings otherCalls).lookup source target time).1 := by
  have sound := sound_after settings calls
  refine ⟨sound.toldByRoute source target time, fun otherSettings otherCalls shares => ?_⟩
  exact shares.fst_lookup_eq sound (sound_after otherSettings otherCalls) time

/-- From the lidar of a robot to its camera, once with the robot on a map and once without. -/
theorem told_by_route_below_robot :
    let turn : Motion ℚ := ⟨⟨1, 2, 3⟩, ⟨0, 0, 3 / 5, 4 / 5⟩⟩
    let sensors : List (Call ℚ) :=
      [.record (.timed ⟨"robot", "lidar", ⟨5⟩, turn⟩),
        .record (.fixed ⟨"robot", "camera", 0, turn * turn⟩)]
    let forest := after .standard sensors
    let mapped := after .standard (.record (.timed ⟨"map", "robot", ⟨9⟩, turn⟩) :: sensors)
    forest.SharesRoute mapped "lidar" "camera" ∧
      (mapped.lookup "lidar" "camera" ⟨5⟩).1 = .ok turn.inverse ∧
      (forest.lookup "lidar" "camera" ⟨5⟩).1 = .ok turn.inverse := by
  intro turn sensors forest mapped
  have direct : forest.graph.route "lidar" "camera" = .ok ⟨"robot", ["lidar"], ["camera"]⟩ := by
    decide +kernel
  have shares : forest.SharesRoute mapped "lidar" "camera" := by
    constructor
    case tolerance => decide +kernel
    case route => decide +kernel
    case edges =>
      intro route found
      rw [direct] at found
      cases found
      decide +kernel
  have told : (forest.lookup "lidar" "camera" ⟨5⟩).1 = .ok turn.inverse := by decide +kernel
  have same := (told_by_route_after .standard sensors "lidar" "camera" ⟨5⟩).2 _ _ shares
  exact ⟨shares, same.symm.trans told, told⟩

end Forest

end FrameForest
