import WireRecords.Compilation
import WireRecords.Json

/-!
# Exported records

The records of a compilation as a JSON document, with all that is known about their fields.
-/
namespace WireRecords

def Json.ofOption {α : Type} (f : α → Json) : Option α → Json
  | none => .null
  | some a => f a

def Width.toJson : Width → Json
  | literal value => .object [("kind", .string "literal"), ("value", .number value)]
  | field id => .object [("kind", .string "field_ref"), ("id", .string id)]
  | binary op lhs rhs =>
    .object [("kind", .string "binary_op"), ("op", .string op.symbol), ("lhs", lhs.toJson),
      ("rhs", rhs.toJson)]

def TypeExpr.toJson : TypeExpr → Json
  | named path => .object [("kind", .string "named"), ("path", .array (path.map .string))]
  | slice element => .object [("kind", .string "slice"), ("element", element.toJson)]
  | array length element =>
    .object [("kind", .string "array"), ("len", .number length), ("element", element.toJson)]
  | pointer target => .object [("kind", .string "pointer"), ("target", target.toJson)]
  | constant value => .object [("kind", .string "literal"), ("value", .string value)]

def FieldType.toJson : FieldType → Json
  | scalar s => .object [("kind", .string "scalar"), ("scalar", .string s.name)]
  | bytes length => .object [("kind", .string "fixed_byte_array"), ("len", .number length)]
  | byteRun => .object [("kind", .string "byte_slice")]
  | slice element => .object [("kind", .string "slice_of"), ("element", element.toJson)]
  | nested path => .object [("kind", .string "nested_record"), ("path", .string path)]
  | boxed target => .object [("kind", .string "boxed"), ("target", target.toJson)]
  | constant value => .object [("kind", .string "constant"), ("value", .string value)]

def FieldMeta.toJson (m : FieldMeta) : Json :=
  .object [("width", Json.ofOption Width.toJson m.width), ("endianness", .string m.endian.name),
    ("width_kind", .string m.kind.name)]

namespace Compilation

def exportField (c : Compilation) (record : String) (f : FieldDecl) :
    Except RegistryError Json := do
  let info ← c.registry.get record f.id
  return .object [("id", .string f.id), ("type", f.type.toJson), ("meta", info.toJson)]

def exportRecord (c : Compilation) (r : RecordDecl) : Except RegistryError Json := do
  let fields ← r.fields.mapM (c.exportField r.id)
  return .object [("id", .string r.id), ("width", Json.ofOption .number (c.registry.width? r.id)),
    ("fields", .array fields)]

/-- The records that have a name, in order. -/
def exportRecords (c : Compilation) : Except RegistryError Json := do
  let records ← (c.records.filter (!·.isAnonymous)).mapM c.exportRecord
  return .array records

end Compilation

end WireRecords
