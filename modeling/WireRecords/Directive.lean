import WireRecords.Record
import WireRecords.TypeExpr

/-!
# Directives

A directive declares one record on one line: its name, then its fields, each with a width, a type
and a byte order, of which width or type may be left out.
-/
namespace WireRecords

structure FieldSyntax where
  span : Span
  id : String
  width : Option Width
  type : Option TypeExpr
  endian : Endian
deriving DecidableEq, Repr, Inhabited

structure Directive where
  span : Span
  id : String
  fields : List FieldSyntax
deriving DecidableEq, Repr, Inhabited

def Directive.isAnonymous (d : Directive) : Bool := d.id == anonymous

end WireRecords
