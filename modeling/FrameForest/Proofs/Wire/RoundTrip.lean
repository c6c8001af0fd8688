import FrameForest.Proofs.Wire.Decoding
import FrameForest.Wire.Codec

/-!
# What is written is read back

Every value is read back from its encoding, whatever follows it, with its
rotation normalised and all else bit for bit.  An encoding that is cut short is
refused, and no shorter bytes are read as the same value.  The laws of a record
come from the laws of its fields, and all rest on two kinds of integers.
-/

namespace FrameForest.Wire

/-! ## Integers -/

theorem ofLowBytes_lt (bytes : List UInt8) : ofLowBytes bytes < Nat.pow 256 bytes.length := by
  induction bytes with
  | nil => exact Nat.one_pos
  | cons byte rest ih =>
      have low : byte.toNat < 256 := byte.toNat_lt
      have step : Nat.pow 256 (rest.length + 1) = 256 * Nat.pow 256 rest.length := Nat.mul_comm _ _
      rw [ofLowBytes, List.length_cons, step]
      omega

theorem ByteOrder.read_lt (order : ByteOrder) (bytes : List UInt8) :
    order.read bytes < Nat.pow 256 bytes.length := by
  cases order with
  | little => exact ofLowBytes_lt bytes
  | big =>
      have small := ofLowBytes_lt bytes.reverse
      rwa [List.length_reverse] at small

namespace Format

variable (format : Format)

theorem reads_word (count : Nat) {value : Nat} (small : value < Nat.pow 256 count) :
    Reads (format.decodeWord count) (format.order.write count value) (UInt64.ofNat value) := by
  have reads := (reads_take (format.order.write count value)).map
    fun bytes => UInt64.ofNat (format.order.read bytes)
  have read : format.order.read (format.order.write count value) = value :=
    (format.order.read_write count value).trans (Nat.mod_eq_of_lt small)
  rwa [ByteOrder.length_write, read] at reads

theorem delimits_word (count : Nat) {least : UInt64 → Nat}
    (enough : ∀ value < Nat.pow 256 count, least (UInt64.ofNat value) ≤ count) :
    Delimits (format.decodeWord count) least := by
  apply Delimits.map_take
  intro bytes length
  apply enough
  rw [← length]
  exact format.order.read_lt bytes

theorem agree_word (count : Nat) :
    Agree (format.decodeWord count) (format.decodeWord count) :=
  (Agree.take count).bind fun _ => .pure _

/-- The marker of a compact integer is followed by the bytes that it announces. -/
theorem reads_marked {marker : UInt8} {further : List UInt8} {value : UInt64}
    (reads : Reads (format.decodeMarked marker.toNat) further value) :
    Reads (take 1 >>= fun bytes => format.decodeMarked (ofLowBytes bytes))
      (marker :: further) value := by
  have single : ofLowBytes [marker] = marker.toNat := Nat.add_zero _
  rw [← single] at reads
  exact (reads_take [marker]).bind reads

theorem reads_compact {value : Nat} (small : value < UInt64.size) :
    Reads (take 1 >>= fun bytes => format.decodeMarked (ofLowBytes bytes))
      (format.encodeCompact value) (UInt64.ofNat value) := by
  unfold encodeCompact
  split
  case isTrue tiny =>
    have marker : (UInt8.ofNat value).toNat = value := by
      rw [UInt8.toNat_ofNat', Nat.mod_eq_of_lt (by omega)]
    apply format.reads_marked
    rw [marker, decodeMarked, if_pos tiny]
    exact .pure _
  split
  case isTrue short => exact format.reads_marked (format.reads_word 2 short)
  split
  case isTrue middle => exact format.reads_marked (format.reads_word 4 middle)
  case isFalse => exact format.reads_marked (format.reads_word 8 small)

theorem length_encodeCompact (value : Nat) :
    (format.encodeCompact value).length =
      if value < 251 then 1 else if value < UInt16.size then 3
      else if value < UInt32.size then 5 else 9 := by
  unfold encodeCompact
  split
  · rfl
  split
  · rw [List.length_cons, ByteOrder.length_write]
  split
  · rw [List.length_cons, ByteOrder.length_write]
  · rw [List.length_cons, ByteOrder.length_write]

/-- Small integers have short encodings. -/
theorem length_encodeCompact_le (value : Nat) :
    (value < 251 → (format.encodeCompact value).length ≤ 1) ∧
      (value < UInt16.size → (format.encodeCompact value).length ≤ 3) ∧
      (value < UInt32.size → (format.encodeCompact value).length ≤ 5) ∧
      (format.encodeCompact value).length ≤ 9 := by
  rw [length_encodeCompact]
  unfold UInt16.size UInt32.size
  split
  · omega
  split
  · omega
  split <;> omega

theorem toNat_ofNat_le (value : Nat) : (UInt64.ofNat value).toNat ≤ value := by
  rw [UInt64.toNat_ofNat']
  exact Nat.mod_le _ _

/-- The bytes behind a marker are no fewer than the integer takes there. -/
theorem delimits_behind_marker (count : Nat)
    (enough : ∀ value < Nat.pow 256 count, (format.encodeCompact value).length ≤ count + 1) :
    Delimits (format.decodeWord count)
      fun value => (format.encodeCompact value.toNat).length - 1 := by
  apply format.delimits_word
  intro value small
  have held : (UInt64.ofNat value).toNat < Nat.pow 256 count :=
    Nat.lt_of_le_of_lt (toNat_ofNat_le value) small
  exact Nat.sub_le_of_le_add (enough _ held)

theorem delimits_marked (marker : Nat) :
    Delimits (format.decodeMarked marker)
      fun value => (format.encodeCompact value.toNat).length - 1 := by
  unfold decodeMarked
  split
  case isTrue tiny =>
    apply Delimits.pure
    have held : (UInt64.ofNat marker).toNat < 251 :=
      Nat.lt_of_le_of_lt (toNat_ofNat_le marker) tiny
    exact Nat.sub_eq_zero_of_le ((format.length_encodeCompact_le _).1 held)
  split
  case isTrue =>
    exact format.delimits_behind_marker 2 fun value => (format.length_encodeCompact_le value).2.1
  split
  case isTrue =>
    exact format.delimits_behind_marker 4 fun value => (format.length_encodeCompact_le value).2.2.1
  split
  case isTrue =>
    exact format.delimits_behind_marker 8 fun value _ =>
      (format.length_encodeCompact_le value).2.2.2
  case isFalse => exact .throw _

theorem agree_marked (marker : Nat) :
    Agree (format.decodeMarked marker) (format.decodeMarked marker) := by
  unfold decodeMarked
  split
  · exact .pure _
  split
  · exact format.agree_word 2
  split
  · exact format.agree_word 4
  split
  · exact format.agree_word 8
  · exact .throw _

theorem reads_integer (value : UInt64) :
    Reads format.decodeInteger (format.encodeInteger value) value := by
  have given : UInt64.ofNat value.toNat = value := UInt64.ofNat_toNat
  unfold decodeInteger encodeInteger
  split
  case isTrue =>
    have reads := format.reads_compact value.toNat_lt
    rwa [given] at reads
  case isFalse =>
    have reads := format.reads_word 8 value.toNat_lt
    rwa [given] at reads

theorem delimits_integer :
    Delimits format.decodeInteger fun value => (format.encodeInteger value).length := by
  unfold decodeInteger encodeInteger
  split
  case isTrue => exact (Delimits.take 1).bind fun marker => format.delimits_marked _
  case isFalse =>
    apply format.delimits_word
    intro value _
    exact Nat.le_of_eq (ByteOrder.length_write _ _ _)

theorem agree_integer : Agree format.decodeInteger format.decodeInteger := by
  unfold decodeInteger
  split
  · exact (Agree.take 1).bind fun marker => format.agree_marked _
  · exact format.agree_word 8

end Format

/-! ## Values -/

/-- The laws of a binary format for one type of values, which settle on being read. -/
structure Lawful (β : Type) [Wired β] (format : Format) (settled : β → β) : Prop where
  reads : ∀ value : β, Reads (Wired.decode format) (Wired.encode format value) (settled value)
  delimits : Delimits (Wired.decode format) fun value : β => (Wired.encode format value).length
  agree : Agree (Wired.decode format : Decoder (List UInt8) β) (Wired.decode format)

variable (format : Format)

/-- The bytes that the first field of a record leaves to the others. -/
theorem length_append_sub_first (first others : List UInt8) :
    (first ++ others).length - first.length = others.length := by
  rw [List.length_append, Nat.add_sub_cancel_left]

theorem lawful_duration : Lawful Duration format id where
  reads := fun duration => (format.reads_integer duration.nanos).map Duration.mk
  delimits := format.delimits_integer.map fun _ => Nat.le_refl _
  agree := format.agree_integer.bind fun _ => .pure _

theorem lawful_binary64 : Lawful Binary64 format id where
  reads := by
    intro pattern
    have given : UInt64.ofNat pattern.bits.toNat = pattern.bits := UInt64.ofNat_toNat
    have reads := (format.reads_word 8 pattern.bits.toNat_lt).map Binary64.mk
    rwa [given] at reads
  delimits := by
    have word : Delimits (format.decodeWord 8) fun _ => 8 :=
      format.delimits_word 8 fun _ _ => Nat.le_refl 8
    exact word.map fun _ => Nat.le_of_eq (ByteOrder.length_write _ _ _)
  agree := (format.agree_word 8).bind fun _ => .pure _

theorem lawful_timeSpan : Lawful TimeSpan format id where
  reads := by
    intro span
    have stamp := lawful_duration format
    exact (stamp.reads span.start).bind ((stamp.reads span.stop).map (TimeSpan.mk span.start))
  delimits := by
    have stamp := lawful_duration format
    apply stamp.delimits.bind
    intro start
    apply stamp.delimits.map
    intro stop
    exact Nat.le_of_eq (length_append_sub_first (Wired.encode format start) _)
  agree := by
    have stamp := (lawful_duration format).agree
    exact stamp.bind fun _ => stamp.bind fun _ => .pure _

theorem lawful_vector3 : Lawful (Vector3 Binary64) format id where
  reads := by
    intro v
    have number := lawful_binary64 format
    show Reads _ (Wired.encode format v.x ++ Wired.encode format v.y ++ Wired.encode format v.z) v
    rw [List.append_assoc]
    exact (number.reads v.x).bind
      ((number.reads v.y).bind ((number.reads v.z).map (Vector3.mk v.x v.y)))
  delimits := by
    have number := lawful_binary64 format
    apply number.delimits.bind
    intro x
    apply number.delimits.bind
    intro y
    apply number.delimits.map
    intro z
    show (Wired.encode format x ++ Wired.encode format y ++ Wired.encode format z).length -
      (Wired.encode format x).length - (Wired.encode format y).length ≤
        (Wired.encode format z).length
    rw [List.length_append, List.length_append]
    omega
  agree := by
    have number := (lawful_binary64 format).agree
    exact number.bind fun _ => number.bind fun _ => number.bind fun _ => .pure _

theorem lawful_quaternion : Lawful (Quaternion Binary64) format id where
  reads := by
    intro q
    have number := lawful_binary64 format
    show Reads _ (Wired.encode format q.x ++ Wired.encode format q.y ++ Wired.encode format q.z ++
      Wired.encode format q.w) q
    rw [List.append_assoc, List.append_assoc]
    exact (number.reads q.x).bind ((number.reads q.y).bind
      ((number.reads q.z).bind ((number.reads q.w).map (Quaternion.mk q.x q.y q.z))))
  delimits := by
    have number := lawful_binary64 format
    apply number.delimits.bind
    intro x
    apply number.delimits.bind
    intro y
    apply number.delimits.bind
    intro z
    apply number.delimits.map
    intro w
    show (Wired.encode format x ++ Wired.encode format y ++ Wired.encode format z ++
        Wired.encode format w).length - (Wired.encode format x).length -
          (Wired.encode format y).length - (Wired.encode format z).length ≤
        (Wired.encode format w).length
    rw [List.length_append, List.length_append, List.length_append]
    omega
  agree := by
    have number := (lawful_binary64 format).agree
    exact number.bind fun _ => number.bind fun _ => number.bind fun _ => number.bind fun _ =>
      .pure _

theorem length_encode_quaternion (q : Quaternion Binary64) :
    (Wired.encode format q).length = 32 := by
  have number (pattern : Binary64) : (Wired.encode format pattern).length = 8 :=
    ByteOrder.length_write _ _ _
  show (Wired.encode format q.x ++ Wired.encode format q.y ++ Wired.encode format q.z ++
    Wired.encode format q.w).length = 32
  rw [List.length_append, List.length_append, List.length_append, number, number, number, number]

/-- The motion as it is read back from its encoding, its rotation normalised as doubles. -/
def settled (motion : Motion Binary64) : Motion Binary64 where
  offset := motion.offset
  rotation := (motion.rotation.map Binary64.toFloat).normalized.map Binary64.ofFloat

theorem lawful_motion : Lawful (Motion Binary64) format settled where
  reads := by
    intro motion
    let make : Quaternion Binary64 → Motion Binary64 :=
      fun rotation => ⟨motion.offset, rotation.normalizedPattern⟩
    exact ((lawful_vector3 format).reads motion.offset).bind
      (((lawful_quaternion format).reads motion.rotation).map make)
  delimits := by
    apply (lawful_vector3 format).delimits.bind
    intro offset
    apply (lawful_quaternion format).delimits.map
    intro rotation
    -- a normalised rotation is written with as many bytes as it was read from
    have same : (Wired.encode format rotation.normalizedPattern).length =
        (Wired.encode format rotation).length := by
      rw [length_encode_quaternion, length_encode_quaternion]
    exact Nat.le_of_eq ((length_append_sub_first (Wired.encode format offset) _).trans same)
  agree :=
    (lawful_vector3 format).agree.bind fun _ => (lawful_quaternion format).agree.bind fun _ =>
      .pure _

theorem lawful_sample :
    Lawful (Sample Binary64) format fun sample => ⟨sample.stamp, settled sample.motion⟩ where
  reads := by
    intro sample
    exact ((lawful_duration format).reads sample.stamp).bind
      (((lawful_motion format).reads sample.motion).map (Sample.mk sample.stamp))
  delimits := by
    apply (lawful_duration format).delimits.bind
    intro stamp
    apply (lawful_motion format).delimits.map
    intro motion
    exact Nat.le_of_eq (length_append_sub_first (Wired.encode format stamp) _)
  agree :=
    (lawful_duration format).agree.bind fun _ => (lawful_motion format).agree.bind fun _ =>
      .pure _

/-! ## The format -/

/-- What can be relied on when values are exchanged in a format. -/
structure Faithful (β : Type) [Wired β] (format : Format) (settled : β → β) : Prop where
  round_trip : ∀ (value : β) (suffix : List UInt8),
    (Wired.decode format).run (Wired.encode format value ++ suffix) =
      .ok (settled value, suffix)
  truncated : ∀ (value : β) (start : List UInt8), start <+: Wired.encode format value →
    start ≠ Wired.encode format value →
      (Wired.decode format : Decoder (List UInt8) β).run start = .error .unexpectedEnd
  /-- In a window the same is read, and the position tells how much. -/
  window : ∀ bytes : List UInt8,
    (Wired.decode format : Decoder Window β).run ⟨bytes.toArray, 0⟩ =
      ((Wired.decode format).run bytes).map fun (value, rest) =>
        (value, ⟨bytes.toArray, bytes.length - rest.length⟩)
  /-- The bytes that are read suffice, and no value is written longer than it can be read. -/
  read : ∀ (bytes : List UInt8) (value : β) (rest : List UInt8),
    (Wired.decode format).run bytes = .ok (value, rest) →
      ∃ read, bytes = read ++ rest ∧ (Wired.decode format).run read = .ok (value, []) ∧
        (Wired.encode format value).length ≤ read.length

theorem Lawful.faithful {β : Type} [Wired β] {format : Format} {settled : β → β}
    (lawful : Lawful β format settled) : Faithful β format settled where
  round_trip := fun value => (lawful.reads value).whole
  truncated := fun value => (lawful.reads value).cut
  window := lawful.agree.run_start
  read := by
    intro bytes value rest accepted
    obtain ⟨read, whole, reads, enough⟩ := lawful.delimits bytes value rest accepted
    have alone := reads.whole []
    rw [List.append_nil] at alone
    exact ⟨read, whole, alone, enough⟩

/-- Every format is faithful for all that is exchanged in it. -/
theorem formats_faithful (format : Format) :
    Faithful Duration format id ∧ Faithful TimeSpan format id ∧
      Faithful (Motion Binary64) format settled ∧
      Faithful (Sample Binary64) format fun sample => ⟨sample.stamp, settled sample.motion⟩ := by
  refine ⟨?_, ?_, ?_, ?_⟩
  · exact (lawful_duration format).faithful
  · exact (lawful_timeSpan format).faithful
  · exact (lawful_motion format).faithful
  · exact (lawful_sample format).faithful

/-- An integer may be read from more bytes than it is written with. -/
example : (Wired.decode .standard : Decoder (List UInt8) Duration).run [251, 5, 0] = .ok (⟨5⟩, []) ∧
    Wired.encode .standard (⟨5⟩ : Duration) = [5] := by
  decide +kernel

end FrameForest.Wire
