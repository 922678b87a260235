import WireRecords.Scalar
import WireRecords.Span
import WireRecords.Text.Quoted
import WireRecords.Width

/-!
# Records

Records after analysis: every field has a type with a known representation, and beside it what the
generated procedures need to know about its width and byte order.
-/
namespace WireRecords

/-- The representation of a field. -/
inductive FieldType where
  | scalar (scalar : Scalar)
  | bytes (length : Nat)
  /-- A run of bytes whose length is computed. -/
  | byteRun
  | slice (element : FieldType)
  /-- A record, or a type from elsewhere that reads and writes itself. -/
  | nested (path : String)
  | boxed (target : FieldType)
  /-- Checked when read and written again, but not stored. -/
  | constant (value : String)
deriving DecidableEq, Repr, Inhabited

namespace FieldType

def text : FieldType → String
  | scalar s => s.name
  | bytes length => "[u8; " ++ toString length ++ "]"
  | byteRun => "Vec<u8>"
  | slice element => "Vec<" ++ element.text ++ ">"
  | nested path => path
  | boxed target => "Box<" ++ target.text ++ ">"
  | constant value => Text.quote value

def isStored : FieldType → Bool
  | constant _ => false
  | _ => true

/-- The type implied by a width of `length` bytes alone: a plain number of 1, 2, 4 or 8 means a
scalar, everything else bytes. -/
def ofWidth (width : Width) (length : Nat) : FieldType :=
  match width, Scalar.unsigned? length with
  | .literal _, some s => scalar s
  | _, _ => bytes length

end FieldType

/-- How a field is transferred. -/
inductive Transfer where
  | scalar (scalar : Scalar)
  | byteRun
  | slice
  | nested
  | constant
deriving DecidableEq, Repr, Inhabited

def FieldType.transfer : FieldType → Transfer
  | scalar s => .scalar s
  | bytes _ | byteRun => .byteRun
  | slice _ => .slice
  | nested _ | boxed _ => .nested
  | constant _ => .constant

def Transfer.name : Transfer → String
  | scalar s => "Scalar(" ++ s.name.toUpper ++ ")"
  | byteRun => "ByteRun"
  | slice => "Slice"
  | nested => "Nested"
  | constant => "Constant"

inductive WidthKind where
  /-- Known before anything is read. -/
  | literal
  /-- Computed from fields read earlier. -/
  | dynamic
  /-- The type finds its own end. -/
  | unresolved
deriving DecidableEq, Repr, Inhabited

def WidthKind.name : WidthKind → String
  | literal => "literal"
  | dynamic => "dynamic"
  | unresolved => "unresolved"

structure FieldMeta where
  width : Option Width
  endian : Endian
  kind : WidthKind
deriving DecidableEq, Repr, Inhabited

structure FieldDecl where
  span : Span
  id : String
  type : FieldType
deriving DecidableEq, Repr, Inhabited

/-- The name of a record that was declared without one. -/
def anonymous : String := "_"

structure RecordDecl where
  span : Span
  id : String
  fields : List FieldDecl
deriving DecidableEq, Repr, Inhabited

namespace RecordDecl

def isAnonymous (r : RecordDecl) : Bool := r.id == anonymous

def field? (r : RecordDecl) (id : String) : Option FieldDecl := r.fields.find? (·.id == id)

end RecordDecl

end WireRecords
