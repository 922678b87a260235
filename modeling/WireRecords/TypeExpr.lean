import WireRecords.Text.Quoted

/-!
# Type expressions

The type of a field as a directive writes it.
-/
namespace WireRecords

inductive TypeExpr where
  /-- A scalar or record, by the segments of its path. -/
  | named (path : List String)
  | slice (element : TypeExpr)
  | array (length : Nat) (element : TypeExpr)
  | pointer (target : TypeExpr)
  /-- A constant text. -/
  | constant (value : String)
deriving DecidableEq, Repr, Inhabited

namespace TypeExpr

def text : TypeExpr → String
  | named path => ".".intercalate path
  | slice element => "[]" ++ element.text
  | array length element => "[" ++ toString length ++ "]" ++ element.text
  | pointer target => "*" ++ target.text
  | constant value => Text.quote value

end TypeExpr

end WireRecords
