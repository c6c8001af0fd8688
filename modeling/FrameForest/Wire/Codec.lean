import FrameForest.Edge.Sample
import FrameForest.Wire.Source

/-!
# Binary codec

Values are written field after field without lengths or padding.  Doubles are
carried as their patterns of 64 bits.  An integer takes eight bytes in the
fixed-width format; in the compact formats it takes one byte below 251, and else a
marker and the fewest of two, four or eight bytes that hold it.

Decoding a motion normalises its rotation; everything else is kept as it is.
-/

namespace FrameForest

/-- The pattern of a double. -/
structure Binary64 where
  bits : UInt64
  deriving DecidableEq, Repr

namespace Binary64

def ofFloat (value : Float) : Binary64 :=
  ⟨value.toBits⟩

def toFloat (pattern : Binary64) : Float :=
  Float.ofBits pattern.bits

end Binary64

/-- The pattern of the normalised quaternion. -/
def Quaternion.normalizedPattern (q : Quaternion Binary64) : Quaternion Binary64 :=
  (q.map Binary64.toFloat).normalized.map Binary64.ofFloat

namespace Wire

structure Format where
  order : ByteOrder
  /-- Integers take as few bytes as they need. -/
  compact : Bool
  deriving DecidableEq, Repr

namespace Format

def standard : Format := ⟨.little, true⟩
def bigEndian : Format := ⟨.big, true⟩
def fixedWidth : Format := ⟨.little, false⟩

def encodeCompact (format : Format) (value : Nat) : List UInt8 :=
  if value < 251 then [UInt8.ofNat value]
  else if value < UInt16.size then 251 :: format.order.write 2 value
  else if value < UInt32.size then 252 :: format.order.write 4 value
  else 253 :: format.order.write 8 value

def encodeInteger (format : Format) (value : UInt64) : List UInt8 :=
  if format.compact then format.encodeCompact value.toNat else format.order.write 8 value.toNat

variable {σ : Type} [ByteSource σ]

/-- A number of `count` bytes. -/
def decodeWord (format : Format) (count : Nat) : Decoder σ UInt64 := do
  let bytes ← take count
  pure (UInt64.ofNat (format.order.read bytes))

/-- What follows the first byte of a compact integer. -/
def decodeMarked (format : Format) (marker : Nat) : Decoder σ UInt64 :=
  if marker < 251 then pure (UInt64.ofNat marker)
  else if marker = 251 then format.decodeWord 2
  else if marker = 252 then format.decodeWord 4
  else if marker = 253 then format.decodeWord 8
  else throw .invalidIntegerType

def decodeInteger (format : Format) : Decoder σ UInt64 :=
  if format.compact then do
    let marker ← take 1
    format.decodeMarked (ofLowBytes marker)
  else
    format.decodeWord 8

end Format

class Wired (β : Type) where
  encode : Format → β → List UInt8
  decode {σ : Type} [ByteSource σ] : Format → Decoder σ β

instance : Wired Duration where
  encode format duration := format.encodeInteger duration.nanos
  decode format := return ⟨← format.decodeInteger⟩

instance : Wired TimeSpan where
  encode format span := Wired.encode format span.start ++ Wired.encode format span.stop
  decode format := return ⟨← Wired.decode format, ← Wired.decode format⟩

instance : Wired Binary64 where
  encode format pattern := format.order.write 8 pattern.bits.toNat
  decode format := return ⟨← format.decodeWord 8⟩

instance : Wired (Vector3 Binary64) where
  encode format v :=
    Wired.encode format v.x ++ Wired.encode format v.y ++ Wired.encode format v.z
  decode format := return ⟨← Wired.decode format, ← Wired.decode format, ← Wired.decode format⟩

instance : Wired (Quaternion Binary64) where
  encode format q :=
    Wired.encode format q.x ++ Wired.encode format q.y ++ Wired.encode format q.z ++
      Wired.encode format q.w
  decode format :=
    return ⟨← Wired.decode format, ← Wired.decode format, ← Wired.decode format,
      ← Wired.decode format⟩

instance : Wired (Motion Binary64) where
  encode format motion :=
    Wired.encode format motion.offset ++ Wired.encode format motion.rotation
  decode format := do
    let offset ← Wired.decode format
    let rotation : Quaternion Binary64 ← Wired.decode format
    pure ⟨offset, rotation.normalizedPattern⟩

instance : Wired (Sample Binary64) where
  encode format sample := Wired.encode format sample.stamp ++ Wired.encode format sample.motion
  decode format := return ⟨← Wired.decode format, ← Wired.decode format⟩

end Wire

end FrameForest
