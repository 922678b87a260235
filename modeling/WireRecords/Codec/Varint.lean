import WireRecords.Codec.Fault

/-!
# Variable-length integers

A 64-bit word in groups of seven bits, the lowest group first; every byte but the last has its high
bit set.
-/
namespace WireRecords.Codec.Varint

/-- The name under which records refer to this type. -/
def path : String := "wire9_runtime::Varint"

/-- The most bytes that a word takes. -/
def maxLength : Nat := 10

/-- The number of significant bits. -/
def bitLength (n : Nat) : Nat := if n = 0 then 0 else Nat.log2 n + 1

/-- The number of bytes that a word takes. -/
def encodedLength (n : Nat) : Nat := max 1 ((bitLength n + 6) / 7)

def encode (n : Nat) : List UInt8 :=
  let group := (n &&& 0x7f).toUInt8
  if n >>> 7 = 0 then [group] else (group ||| 0x80) :: encode (n >>> 7)
termination_by n
decreasing_by
  rw [Nat.shiftRight_eq_div_pow] at *
  omega

/-- The outcome of reading: the word or an error, and the bytes that are left. -/
structure Reading where
  result : Except DecodeError Nat
  rest : List UInt8
deriving Repr

/-- Puts a group of bits behind the groups that are there. -/
def place (value : UInt64) (index : Nat) (group : UInt8) : UInt64 :=
  value ||| group.toUInt64 <<< (7 * index).toUInt64

/-- Reads the groups from number `index` on, of which `left` more are allowed; the groups before
have the value `value`. -/
def readGroups : Nat → Nat → UInt64 → List UInt8 → Reading
  | 0, _, _, bytes => ⟨.error (.overflow "Varint" "value"), bytes⟩
  | _ + 1, index, _, [] => ⟨.error (.shortRead "Varint" "value" index (index + 1)), []⟩
  | left + 1, index, value, b :: rest =>
    let group := b &&& 0x7f
    -- The tenth group has room for one bit only.
    if index + 1 = maxLength && 1 < group then ⟨.error (.overflow "Varint" "value"), rest⟩
    else
      let value := place value index group
      if b &&& 0x80 = 0 then ⟨.ok value.toNat, rest⟩ else readGroups left (index + 1) value rest

def read (bytes : List UInt8) : Reading := readGroups maxLength 0 0 bytes

/-- Writes a word where there is room for `room` bytes. -/
def write (n room : Nat) : Except EncodeError (List UInt8) :=
  if room < encodedLength n then .error (.shortWrite "Varint" "value" room (encodedLength n))
  else .ok (encode n)

end WireRecords.Codec.Varint
