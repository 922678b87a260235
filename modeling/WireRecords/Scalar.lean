/-!
# Scalars

The fixed-width integers a record can hold, and the order of their bytes.
-/
namespace WireRecords

inductive Endian where
  | little
  | big
deriving DecidableEq, Repr, Inhabited

namespace Endian

/-- The spelling of a directive. -/
def mark : Endian → String
  | little => "LE"
  | big => "BE"

def ofMark? (s : String) : Option Endian :=
  if s = "LE" then some little else if s = "BE" then some big else none

/-- The spelling of exported records. -/
def name : Endian → String
  | little => "little_endian"
  | big => "big_endian"

end Endian

inductive Scalar where
  | u8 | u16 | u32 | u64 | i8 | i16 | i32 | i64
deriving DecidableEq, Repr, Inhabited

namespace Scalar

/-- The width in bytes. -/
def width : Scalar → Nat
  | u8 | i8 => 1
  | u16 | i16 => 2
  | u32 | i32 => 4
  | u64 | i64 => 8

def isSigned : Scalar → Bool
  | u8 | u16 | u32 | u64 => false
  | i8 | i16 | i32 | i64 => true

def name : Scalar → String
  | u8 => "u8"
  | u16 => "u16"
  | u32 => "u32"
  | u64 => "u64"
  | i8 => "i8"
  | i16 => "i16"
  | i32 => "i32"
  | i64 => "i64"

/-- Every scalar has a short and a long name, and one byte is also called `byte`. -/
def ofName? (name : String) : Option Scalar :=
  match name with
  | "byte" | "uint8" | "u8" => some u8
  | "uint16" | "u16" => some u16
  | "uint32" | "u32" => some u32
  | "uint64" | "u64" => some u64
  | "int8" | "i8" => some i8
  | "int16" | "i16" => some i16
  | "int32" | "i32" => some i32
  | "int64" | "i64" => some i64
  | _ => none

/-- The unsigned scalar of a width in bytes. -/
def unsigned? : Nat → Option Scalar
  | 1 => some u8
  | 2 => some u16
  | 4 => some u32
  | 8 => some u64
  | _ => none

end Scalar

end WireRecords
