import WireRecords.Program.Lowering
import WireRecords.Registry

/-!
# Transferred fields

What the reading and the writing procedure of a record have in common: the field they transfer, the
checks they make before, and the boundary around them that turns a panic into an error.
-/
namespace WireRecords.Program

/-- Why a field cannot be transferred. -/
inductive TransferError where
  | metadata (error : RegistryError)
  | missingWidth (record : String) (field : FieldDecl)
  /-- There are no statements for a type with its way of transfer. -/
  | unsupported (direction : String) (record : String) (field : FieldDecl) (type : FieldType)
deriving DecidableEq, Repr, Inhabited

def TransferError.diagnostic : TransferError → Diagnostic
  | metadata error => error.diagnostic
  | missingWidth record field =>
    { code := some .missingMetadata
      message := s!"no width recorded for field `{record}.{field.id}`"
      labels := [field.span.primary] }
  | unsupported direction record field type =>
    { code := none
      message := s!"cannot {direction} field `{record}.{field.id}` of type {type.text}"
      labels := [field.span.primary] }

/-- A field to be transferred, or the elements of one. -/
structure Subject where
  record : String
  field : FieldDecl
  info : FieldMeta
deriving DecidableEq, Repr, Inhabited

namespace Subject

/-- The number of bytes or elements. -/
def width (s : Subject) : Except TransferError Expr :=
  match s.info.width with
  | some w => .ok (lower w)
  | none => .error (.missingWidth s.record s.field)

/-- The width of a constant must be known beforehand. -/
def fixedWidth (s : Subject) : Except TransferError Nat :=
  match s.info.width.bind Width.fold with
  | some n => .ok n
  | none => .error (.missingWidth s.record s.field)

def place (s : Subject) (isElement : Bool) : Expr := Program.place s.field.id isElement

/-- Fails when fewer than `expected` are available. -/
def require (s : Subject) (kind case : String) (available expected : Expr) : Stmt :=
  when (.binary "<" available expected)
    [fail kind case
      [("record", .text s.record), ("field", .text s.field.id), ("actual", available),
        ("expected", expected)]]

end Subject

/-- The statements of every field, each in a block of its own. -/
def transferFields (registry : Registry) (transfer : Subject → Except TransferError Block)
    (r : RecordDecl) : Except TransferError Block :=
  r.fields.mapM fun f =>
    match registry.get r.id f.id with
    | .error e => .error (.metadata e)
    | .ok info =>
      match transfer ⟨r.id, f, info⟩ with
      | .error e => .error e
      | .ok body => .ok (.expr (.block none false body) false)

/-- The result of a procedure that may fail with an error of a kind. -/
def fallible (kind : String) : Ty := .path ["Result"] [.unit, .named kind]

/-- The type of a record. -/
def recordType (r : RecordDecl) : Ty := .path (segments r.id) []

/-- A procedure of a record that runs inside the boundary for panics. -/
def procedure (r : RecordDecl) (name kind : String) (parameters : List Parameter) (body : Block) :
    Item :=
  .methods none (recordType r)
    [({ attributes := if r.fields.isEmpty then [.list "allow" ["unused_variables"]] else []
        isPublic := true
        name
        parameters
        result := some (fallible kind) },
      [.expr
        (.call (.path ["wire9_runtime", "recover"])
          [.text r.id,
            .closure (some (fallible kind)) (body ++ [.expr (.call (.var "Ok") [.unit]) false])])
        false])]

end WireRecords.Program
