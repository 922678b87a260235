import WireRecords.Scalar

/-!
# Integers as bytes

Fixed-width integers in either byte order. Signed integers are written in two's complement.
-/
namespace WireRecords.Codec

/-- The `width` lowest bytes of a number, the lowest first. -/
def toBytes : Nat → Nat → List UInt8
  | 0, _ => []
  | width + 1, n => (n % 256).toUInt8 :: toBytes width (n / 256)

/-- The number whose bytes, the lowest first, are given. -/
def ofBytes : List UInt8 → Nat
  | [] => 0
  | b :: bs => b.toNat + 256 * ofBytes bs

/-- Brings the lowest byte to the front, or back to its place. -/
def arrange : Endian → List UInt8 → List UInt8
  | .little, bs => bs
  | .big, bs => bs.reverse

end WireRecords.Codec

namespace WireRecords

namespace Scalar

/-- The number of values. -/
def count (s : Scalar) : Nat := Nat.pow 256 s.width

/-- The value of a bit pattern. -/
def ofBits (s : Scalar) (n : Nat) : Int :=
  if s.isSigned && s.count ≤ 2 * n then (n : Int) - s.count else n

/-- The bit pattern of a value. -/
def toBits (s : Scalar) (v : Int) : Nat := (v % s.count).toNat

def encode (s : Scalar) (e : Endian) (v : Int) : List UInt8 :=
  Codec.arrange e (Codec.toBytes s.width (s.toBits v))

def decode (s : Scalar) (e : Endian) (bs : List UInt8) : Int :=
  s.ofBits (Codec.ofBytes (Codec.arrange e bs))

end Scalar

end WireRecords
