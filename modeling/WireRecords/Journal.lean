/-!
# The journal

Remarks that the compiler makes while it works, in the order in which they are made.
-/
namespace WireRecords

inductive Level where
  | trace
  | debug
  | info
  | warn
deriving DecidableEq, Repr, Inhabited

def Level.name : Level → String
  | trace => "TRACE"
  | debug => "DEBUG"
  | info => "INFO"
  | warn => "WARN"

structure Remark where
  level : Level
  text : String
deriving DecidableEq, Repr, Inhabited

abbrev Journal := List Remark

end WireRecords
