import FrameForest.Frame.Outline
import FrameForest.Proofs.Frame.Lineage

/-!
# Graphs that look alike

Frames are numbered and links are listed in the order of their arrival.  Two
forests that differ in these orders only have the same frames, each with the same
parent.  They answer the same to every question that is asked by name, and they
still look alike after the same request for a parent.
-/

namespace FrameForest

namespace FrameGraph

/-- The same frames with the same parents. -/
structure Alike (left right : FrameGraph) : Prop where
  frames : left.frames.Perm right.frames
  parents : ∀ child, left.parent? child = right.parent? child

theorem frames_register (graph : FrameGraph) (frame : String) :
    (graph.register frame).frames =
      if frame ∈ graph.frames then graph.frames else graph.frames ++ [frame] := by
  unfold register
  split <;> rfl

/-- Names are sorted into ascending order. -/
theorem pairwise_mergeSort (names : List String) :
    (names.mergeSort fun first second => decide (first ≤ second)).Pairwise (· ≤ ·) := by
  have sorted : (names.mergeSort fun first second => decide (first ≤ second)).Pairwise
      fun first second => decide (first ≤ second) = true := by
    apply List.pairwise_mergeSort
    · intro first second third before after
      rw [decide_eq_true_eq] at before after ⊢
      exact String.le_trans before after
    · intro first second
      simpa using String.le_total first second
  exact sorted.imp of_decide_eq_true

private theorem mergeSort_eq_of_perm {left right : List String} (perm : left.Perm right) :
    (left.mergeSort fun first second => decide (first ≤ second)) =
      right.mergeSort fun first second => decide (first ≤ second) := by
  have same : (left.mergeSort fun first second => decide (first ≤ second)).Perm
      (right.mergeSort fun first second => decide (first ≤ second)) :=
    (List.mergeSort_perm _ _).trans (perm.trans (List.mergeSort_perm _ _).symm)
  apply same.eq_of_pairwise _ (pairwise_mergeSort left) (pairwise_mergeSort right)
  intro first second _ _ before after
  exact String.le_antisymm before after

namespace Alike

variable {left right : FrameGraph}

theorem refl (graph : FrameGraph) : graph.Alike graph :=
  ⟨.refl _, fun _ => rfl⟩

theorem symm (alike : left.Alike right) : right.Alike left :=
  ⟨alike.frames.symm, fun child => (alike.parents child).symm⟩

theorem trans {other : FrameGraph} (first : left.Alike right) (second : right.Alike other) :
    left.Alike other where
  frames := first.frames.trans second.frames
  parents := fun child => (first.parents child).trans (second.parents child)

theorem register (alike : left.Alike right) (frame : String) :
    (left.register frame).Alike (right.register frame) where
  frames := by
    rw [frames_register, frames_register]
    by_cases known : frame ∈ left.frames
    · rw [if_pos known, if_pos (alike.frames.mem_iff.1 known)]
      exact alike.frames
    · rw [if_neg known, if_neg fun there => known (alike.frames.mem_iff.2 there)]
      exact alike.frames.append_right [frame]
  parents := by simpa using alike.parents

theorem link (alike : left.Alike right) (parent child : String) (previous : Option String) :
    (left.link parent child previous).Alike (right.link parent child previous) where
  frames := ((alike.register parent).register child).frames
  parents := fun other => by rw [parent?_link, parent?_link, alike.parents]

section Forests

variable (alike : left.Alike right) (leftForest : left.IsForest) (rightForest : right.IsForest)

include alike leftForest rightForest

theorem hangs_eq : left.Hangs = right.Hangs := by
  funext parent child
  rw [← leftForest.parent?_eq_some_iff, ← rightForest.parent?_eq_some_iff, alike.parents]

theorem children_eq (frame : String) : left.children frame = right.children frame := by
  have nodup : ∀ {graph : FrameGraph}, graph.IsForest →
      ((graph.links.filter fun link => link.parent = frame).map Link.child).Nodup :=
    fun forest => forest.single.sublist (List.filter_sublist.map Link.child)
  have member : ∀ (graph : FrameGraph) (child : String),
      child ∈ (graph.links.filter fun link => link.parent = frame).map Link.child ↔
        graph.Hangs frame child := by
    intro graph child
    rw [← mem_children, children, List.mem_mergeSort]
  apply mergeSort_eq_of_perm
  apply (List.perm_ext_iff_of_nodup (nodup leftForest) (nodup rightForest)).2
  intro child
  rw [member, member, alike.hangs_eq leftForest rightForest]

theorem walk_eq (pending : List (String × Nat)) (visited : List String) :
    left.walk pending visited = right.walk pending visited :=
  walk_congr (alike.children_eq leftForest rightForest) pending visited

theorem route_eq (source target : String) : left.route source target = right.route source target :=
  leftForest.route_congr rightForest (fun _ => alike.frames.mem_iff) alike.parents source target

omit leftForest rightForest in
theorem roots_eq : left.roots = right.roots := by
  unfold roots
  apply mergeSort_eq_of_perm
  simp only [alike.parents]
  exact alike.frames.filter _

theorem outline_eq : left.outline = right.outline := by
  unfold outline
  rw [alike.roots_eq, alike.walk_eq leftForest rightForest]
  simp only [alike.parents]

theorem defaultFrame?_eq : left.defaultFrame? = right.defaultFrame? := by
  have count : left.descendantCount = right.descendantCount := by
    funext frame
    unfold descendantCount
    rw [alike.children_eq leftForest rightForest, alike.walk_eq leftForest rightForest]
  unfold defaultFrame?
  rw [alike.roots_eq, count]

/-- Both graphs refuse a parent for the same reason or accept it with the same effect. -/
theorem setParent (parent child : String) (policy : ReparentPolicy) :
    (∃ failure, left.setParent parent child policy = .error failure ∧
        right.setParent parent child policy = .error failure) ∨
      ∃ change leftNext rightNext, left.setParent parent child policy = .ok (change, leftNext) ∧
        right.setParent parent child policy = .ok (change, rightNext) ∧
          leftNext.Alike rightNext := by
  have reached : left.reaches child parent = right.reaches child parent := by
    rw [reaches, reaches, alike.walk_eq leftForest rightForest]
  unfold FrameGraph.setParent
  rw [reached, alike.parents]
  by_cases same : parent = child
  · exact .inl ⟨_, if_pos same, if_pos same⟩
  · simp only [if_neg same]
    by_cases held : right.parent? child = some parent
    · exact .inr ⟨_, left, right, if_pos held, if_pos held, alike⟩
    · simp only [if_neg held]
      by_cases cyclic : right.reaches child parent = true
      · exact .inl ⟨_, if_pos cyclic, if_pos cyclic⟩
      · simp only [if_neg cyclic]
        cases right.parent? child with
        | none => exact .inr ⟨_, _, _, rfl, rfl, alike.link parent child none⟩
        | some previous =>
            cases policy with
            | replace => exact .inr ⟨_, _, _, rfl, rfl, alike.link parent child (some previous)⟩
            | reject => exact .inl ⟨_, rfl, rfl⟩

end Forests

end Alike

end FrameGraph

end FrameForest
