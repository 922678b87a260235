import WireRecords.Codec.Varint
import WireRecords.Registry

/-!
# Values of records

What a record holds in memory. Boxes are transparent, and constants are not stored.
-/
namespace WireRecords.Codec

inductive Value where
  | integer (value : Int)
  | bytes (data : List UInt8)
  | list (items : List Value)
  /-- The stored fields of a record, in wire order. -/
  | record (fields : List (String × Value))
deriving Repr, Inhabited

abbrev Fields := List (String × Value)

namespace Value

def asInteger : Value → Int
  | integer v => v
  | _ => 0

def asBytes : Value → List UInt8
  | bytes data => data
  | _ => []

def asItems : Value → List Value
  | list items => items
  | _ => []

def asFields : Value → Fields
  | record fields => fields
  | _ => []

/-- An integer as a 64-bit word; negative ones are extended with ones. -/
def word (v : Value) : Nat := (v.asInteger % (wordCount : Int)).toNat

mutual

/-- How deeply records are nested in a value. -/
def depth : Value → Nat
  | integer _ | bytes _ => 0
  | list items => depthItems items
  | record fields => depthFields fields + 1

def depthItems : List Value → Nat
  | [] => 0
  | v :: vs => max v.depth (depthItems vs)

def depthFields : List (String × Value) → Nat
  | [] => 0
  | (_, v) :: fs => max v.depth (depthFields fs)

end

end Value

namespace Fields

def get (fs : Fields) (id : String) : Value := (fs.lookup id).getD (.record [])

def set (fs : Fields) (id : String) (v : Value) : Fields :=
  fs.map fun f => if f.1 = id then (id, v) else f

/-- The value of a width in a record with these fields. -/
def measure (fs : Fields) (w : Width) : Except ArithmeticFault Nat :=
  w.eval fun id => (fs.get id).word

end Fields

/-- The initial value of a type, given those of records. -/
def initialOf (nested : String → Value) : FieldType → Value
  | .scalar _ => .integer 0
  | .bytes length => .bytes (List.replicate length 0)
  | .byteRun => .bytes []
  | .slice _ => .list []
  | .nested path => nested path
  | .boxed target => initialOf nested target
  | .constant _ => .record []

/-- The initial value of a record or of a type from elsewhere, to a depth. -/
def initialTo (r : Registry) : Nat → String → Value
  | 0, _ => .record []
  | depth + 1, path =>
    match r.find? path with
    | some e =>
      .record ((e.fields.filter (·.decl.type.isStored)).map fun f =>
        (f.decl.id, initialOf (initialTo r depth) f.decl.type))
    | none => .integer 0

/-- The initial value of a record. As records do not contain themselves, no more of them are nested
than there are. -/
def initial (r : Registry) (path : String) : Value := initialTo r (r.entries.length + 1) path

/-- The bytes of a constant, cut or filled with zeros to a width. -/
def padded (value : String) (width : Nat) : List UInt8 :=
  let bytes := value.toUTF8.toList
  bytes.take width ++ List.replicate (width - bytes.length) 0

end WireRecords.Codec
