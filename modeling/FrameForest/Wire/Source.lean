/-!
# Byte sources and words

A decoder reads from a source of bytes: a list that is consumed from the front,
or a window that moves over bytes which stay in place.  Words are written with
their bytes in either order.
-/

namespace FrameForest.Wire

inductive Fault where
  | unexpectedEnd
  | invalidIntegerType
  deriving DecidableEq, Repr

class ByteSource (σ : Type) where
  /-- The next `count` bytes and the source behind them, if there are that many. -/
  take? : Nat → σ → Option (List UInt8 × σ)

instance : ByteSource (List UInt8) where
  take? count bytes :=
    if count ≤ bytes.length then some (bytes.take count, bytes.drop count) else none

/-- A position in bytes that stay in place. -/
structure Window where
  bytes : Array UInt8
  position : Nat
  deriving DecidableEq, Repr

instance : ByteSource Window where
  take? count window :=
    if window.position + count ≤ window.bytes.size then
      some ((window.bytes.extract window.position (window.position + count)).toList,
        { window with position := window.position + count })
    else
      none

abbrev Decoder (σ β : Type) := StateT σ (Except Fault) β

def take {σ : Type} [ByteSource σ] (count : Nat) : Decoder σ (List UInt8) := fun source =>
  match ByteSource.take? count source with
  | some taken => .ok taken
  | none => .error .unexpectedEnd

inductive ByteOrder where
  | little
  | big
  deriving DecidableEq, Repr

/-- The lowest `count` bytes of a number, the lowest first. -/
def lowBytes : Nat → Nat → List UInt8
  | 0, _ => []
  | count + 1, value => UInt8.ofNat value :: lowBytes count (value / 256)

/-- The number whose bytes are given, the lowest first. -/
def ofLowBytes : List UInt8 → Nat
  | [] => 0
  | byte :: rest => byte.toNat + 256 * ofLowBytes rest

namespace ByteOrder

def write (order : ByteOrder) (count value : Nat) : List UInt8 :=
  match order with
  | little => lowBytes count value
  | big => (lowBytes count value).reverse

def read (order : ByteOrder) (bytes : List UInt8) : Nat :=
  match order with
  | little => ofLowBytes bytes
  | big => ofLowBytes bytes.reverse

end ByteOrder

@[simp] theorem length_lowBytes (count value : Nat) : (lowBytes count value).length = count := by
  induction count generalizing value with
  | zero => rfl
  | succ count ih => simp [lowBytes, ih]

theorem ofLowBytes_lowBytes (count value : Nat) :
    ofLowBytes (lowBytes count value) = value % Nat.pow 256 count := by
  induction count generalizing value with
  | zero => simp [lowBytes, ofLowBytes, Nat.mod_one]
  | succ count ih =>
      have low : (UInt8.ofNat value).toNat = value % 256 := UInt8.toNat_ofNat'
      have step : Nat.pow 256 (count + 1) = 256 * Nat.pow 256 count := Nat.mul_comm _ _
      rw [lowBytes, ofLowBytes, ih, low, step, Nat.mod_mul]

@[simp] theorem ByteOrder.length_write (order : ByteOrder) (count value : Nat) :
    (order.write count value).length = count := by
  cases order <;> simp [ByteOrder.write]

theorem ByteOrder.read_write (order : ByteOrder) (count value : Nat) :
    order.read (order.write count value) = value % Nat.pow 256 count := by
  cases order <;> simp [ByteOrder.read, ByteOrder.write, ofLowBytes_lowBytes]

end FrameForest.Wire
