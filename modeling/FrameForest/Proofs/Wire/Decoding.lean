import FrameForest.Wire.Source
import Mathlib.Data.List.Basic

/-!
# What a decoder reads

A decoder that knows where its value ends reads a front part of the bytes.  That
part alone decides the value, nothing behind it is looked at, and every shorter
part ends too soon.  Decoders made of such steps are of the same kind, and take
the same bytes from a window as from a list.
-/

namespace FrameForest.Wire

variable {β γ : Type}

/-- The decoder reads these bytes and nothing behind them, and needs all of them. -/
structure Reads (decoder : Decoder (List UInt8) β) (read : List UInt8) (value : β) : Prop where
  whole : ∀ suffix, decoder.run (read ++ suffix) = .ok (value, suffix)
  cut : ∀ start, start <+: read → start ≠ read → decoder.run start = .error .unexpectedEnd

namespace Reads

variable {first : Decoder (List UInt8) β} {next : β → Decoder (List UInt8) γ}
  {read further : List UInt8} {value : β} {result : γ}

theorem pure (value : β) : Reads (pure value) [] value where
  whole := fun _ => rfl
  cut := fun _ short differs => absurd (List.prefix_nil.1 short) differs

theorem bind (reads : Reads first read value) (readsOn : Reads (next value) further result) :
    Reads (first >>= next) (read ++ further) result where
  whole := by
    intro suffix
    rw [StateT.run_bind, List.append_assoc, reads.whole]
    exact readsOn.whole suffix
  cut := by
    rintro start ⟨missing, whole⟩ differs
    rw [StateT.run_bind]
    rcases List.append_eq_append_iff.1 whole with ⟨left, first, _⟩ | ⟨begun, rfl, second⟩
    · by_cases complete : start = read
      · have none : [] ≠ further := by
          rintro rfl
          exact differs (complete.trans (List.append_nil read).symm)
        have stops := reads.whole []
        rw [List.append_nil, ← complete] at stops
        rw [stops]
        exact readsOn.cut [] List.nil_prefix none
      · rw [reads.cut start ⟨left, first.symm⟩ complete]
        rfl
    · have short : begun ≠ further := fun same => differs (congrArg _ same)
      rw [reads.whole begun]
      exact readsOn.cut begun ⟨missing, second.symm⟩ short

theorem map (reads : Reads first read value) (make : β → γ) :
    Reads (first >>= fun value => Pure.pure (make value)) read (make value) := by
  have made : Reads (first >>= fun value => Pure.pure (make value)) (read ++ []) (make value) :=
    reads.bind (.pure (make value))
  rwa [List.append_nil] at made

end Reads

theorem run_take (count : Nat) (bytes : List UInt8) :
    (take count).run bytes =
      if count ≤ bytes.length then .ok (bytes.take count, bytes.drop count)
      else .error .unexpectedEnd := by
  show take count bytes = _
  unfold take
  by_cases fits : count ≤ bytes.length
  · have taken : ByteSource.take? count bytes = some (bytes.take count, bytes.drop count) :=
      if_pos fits
    rw [taken, if_pos fits]
  · have none : ByteSource.take? count bytes = none := if_neg fits
    rw [none, if_neg fits]

theorem reads_take (bytes : List UInt8) : Reads (take bytes.length) bytes bytes where
  whole := by
    intro suffix
    rw [run_take, if_pos (by simp), List.take_left, List.drop_left]
  cut := by
    intro start short differs
    have shorter : start.length < bytes.length :=
      Nat.lt_of_le_of_ne short.length_le fun same => differs (short.eq_of_length same)
    rw [run_take, if_neg (Nat.not_le.2 shorter)]

/-- The decoder reads a front part of all that it accepts, and no less than the value is worth. -/
def Delimits (decoder : Decoder (List UInt8) β) (least : β → Nat) : Prop :=
  ∀ bytes value rest, decoder.run bytes = .ok (value, rest) →
    ∃ read, bytes = read ++ rest ∧ Reads decoder read value ∧ least value ≤ read.length

namespace Delimits

variable {first : Decoder (List UInt8) β} {next : β → Decoder (List UInt8) γ} {least : β → Nat}
  {leastAll : γ → Nat}

theorem pure {value : β} (free : least value = 0) : Delimits (pure value) least := by
  intro bytes result rest accepted
  cases accepted
  exact ⟨[], rfl, .pure value, Nat.le_of_eq free⟩

theorem throw (fault : Fault) : Delimits (throw fault : Decoder (List UInt8) β) least := by
  intro bytes result rest accepted
  cases accepted

theorem bind (delimits : Delimits first least)
    (delimitsOn : ∀ value, Delimits (next value) fun result => leastAll result - least value) :
    Delimits (first >>= next) leastAll := by
  intro bytes result rest accepted
  rw [StateT.run_bind] at accepted
  cases step : first.run bytes with
  | error fault =>
      rw [step] at accepted
      cases accepted
  | ok stepped =>
      obtain ⟨value, middle⟩ := stepped
      rw [step] at accepted
      obtain ⟨read, rfl, reads, enough⟩ := delimits bytes value middle step
      obtain ⟨further, rfl, readsOn, enoughOn⟩ := delimitsOn value middle result rest accepted
      refine ⟨read ++ further, (List.append_assoc _ _ _).symm, reads.bind readsOn, ?_⟩
      rw [List.length_append]
      dsimp only at enoughOn
      omega

theorem map (delimits : Delimits first least) {make : β → γ}
    (enough : ∀ value, leastAll (make value) ≤ least value) :
    Delimits (first >>= fun value => Pure.pure (make value)) leastAll :=
  delimits.bind fun value => .pure (Nat.sub_eq_zero_of_le (enough value))

theorem map_take (count : Nat) {make : List UInt8 → β}
    (enough : ∀ bytes, bytes.length = count → least (make bytes) ≤ count) :
    Delimits (take count >>= fun bytes => Pure.pure (make bytes)) least := by
  intro bytes value rest accepted
  rw [StateT.run_bind, run_take] at accepted
  split at accepted
  case isFalse => cases accepted
  case isTrue fits =>
    have length : (bytes.take count).length = count := List.length_take_of_le fits
    cases accepted
    refine ⟨bytes.take count, (List.take_append_drop count bytes).symm, ?_, ?_⟩
    · have reads := (reads_take (bytes.take count)).map make
      rwa [length] at reads
    · rw [length]
      exact enough _ length

theorem take (count : Nat) : Delimits (take count) fun _ => count := by
  rw [← bind_pure (Wire.take count)]
  exact map_take count fun _ _ => Nat.le_refl count

end Delimits

/-- The bytes from the position on. -/
def Window.unread (window : Window) : List UInt8 :=
  window.bytes.toList.drop window.position

/-- The same fault, or the same value and the same bytes unread. -/
inductive Mirrors (bytes : Array UInt8) :
    Except Fault (β × List UInt8) → Except Fault (β × Window) → Prop where
  | fault (fault : Fault) : Mirrors bytes (.error fault) (.error fault)
  | value (value : β) {position : Nat} (inside : position ≤ bytes.size) :
      Mirrors bytes (.ok (value, Window.unread ⟨bytes, position⟩)) (.ok (value, ⟨bytes, position⟩))

/-- The decoders do the same to a window as to the bytes that are unread in it. -/
def Agree (onList : Decoder (List UInt8) β) (onWindow : Decoder Window β) : Prop :=
  ∀ (bytes : Array UInt8) (position : Nat), position ≤ bytes.size →
    Mirrors bytes (onList.run (Window.unread ⟨bytes, position⟩)) (onWindow.run ⟨bytes, position⟩)

namespace Agree

variable {onList : Decoder (List UInt8) β} {onWindow : Decoder Window β}

theorem pure (value : β) : Agree (pure value) (pure value) :=
  fun _ _ inside => .value value inside

theorem throw (fault : Fault) :
    Agree (throw fault : Decoder (List UInt8) β) (throw fault : Decoder Window β) :=
  fun _ _ _ => .fault fault

theorem bind (agree : Agree onList onWindow) {nextOnList : β → Decoder (List UInt8) γ}
    {nextOnWindow : β → Decoder Window γ}
    (agreeOn : ∀ value, Agree (nextOnList value) (nextOnWindow value)) :
    Agree (onList >>= nextOnList) (onWindow >>= nextOnWindow) := by
  intro bytes position inside
  have mirrors := agree bytes position inside
  rw [StateT.run_bind, StateT.run_bind]
  generalize onList.run (Window.unread ⟨bytes, position⟩) = listed at mirrors ⊢
  generalize onWindow.run ⟨bytes, position⟩ = windowed at mirrors ⊢
  cases mirrors with
  | fault fault => exact .fault fault
  | value value inside => exact agreeOn value bytes _ inside

theorem take (count : Nat) : Agree (take count) (take count) := by
  intro bytes position inside
  have length : (Window.unread ⟨bytes, position⟩).length = bytes.size - position := by
    rw [Window.unread, List.length_drop, Array.length_toList]
  rw [run_take, length]
  show Mirrors bytes _ (Wire.take count ⟨bytes, position⟩)
  unfold Wire.take
  by_cases fits : position + count ≤ bytes.size
  · have taken : ByteSource.take? count (Window.mk bytes position) =
        some ((bytes.extract position (position + count)).toList, ⟨bytes, position + count⟩) :=
      if_pos fits
    have same : (bytes.extract position (position + count)).toList =
        (Window.unread ⟨bytes, position⟩).take count := by
      rw [Array.toList_extract, List.extract_eq_take_drop, Nat.add_sub_cancel_left]
      rfl
    have left : (Window.unread ⟨bytes, position⟩).drop count =
        Window.unread ⟨bytes, position + count⟩ := List.drop_drop
    rw [taken, if_pos (Nat.le_sub_of_add_le' fits), same, left]
    exact .value _ fits
  · have none : ByteSource.take? count (Window.mk bytes position) = none := if_neg fits
    rw [none, if_neg (by omega)]
    exact .fault _

/-- From the start of a window the decoders agree, and the position counts the bytes read. -/
theorem run_start (agree : Agree onList onWindow) (bytes : List UInt8) :
    onWindow.run ⟨bytes.toArray, 0⟩ =
      (onList.run bytes).map fun (value, rest) =>
        (value, ⟨bytes.toArray, bytes.length - rest.length⟩) := by
  have mirrors : Mirrors bytes.toArray (onList.run bytes) (onWindow.run ⟨bytes.toArray, 0⟩) :=
    agree bytes.toArray 0 (Nat.zero_le _)
  generalize onList.run bytes = listed at mirrors ⊢
  generalize onWindow.run ⟨bytes.toArray, 0⟩ = windowed at mirrors ⊢
  cases mirrors with
  | fault fault => rfl
  | @value value position inside =>
      have inside : position ≤ bytes.length := inside
      have length : (Window.unread ⟨bytes.toArray, position⟩).length = bytes.length - position :=
        List.length_drop
      show _ = Except.ok (value, Window.mk bytes.toArray _)
      rw [length, Nat.sub_sub_self inside]

end Agree

end FrameForest.Wire
