/-!
# Widths

The width of a field is an expression over earlier fields. Its arithmetic is that of 64-bit words:
a result outside the words is a fault, never a wrapped value.
-/
namespace WireRecords

/-- The number of 64-bit words. -/
def wordCount : Nat := 0x10000000000000000

/-- Why an operation on words has no result. -/
inductive ArithmeticFault where
  | addition
  | subtraction
  | multiplication
  | division
  | remainder
deriving DecidableEq, Repr, Inhabited

def ArithmeticFault.message : ArithmeticFault → String
  | addition => "attempt to add with overflow"
  | subtraction => "attempt to subtract with overflow"
  | multiplication => "attempt to multiply with overflow"
  | division => "attempt to divide by zero"
  | remainder => "attempt to calculate the remainder with a divisor of zero"

inductive Operator where
  | add | sub | mul | div | rem
deriving DecidableEq, Repr, Inhabited

namespace Operator

def symbol : Operator → String
  | add => "+"
  | sub => "-"
  | mul => "*"
  | div => "/"
  | rem => "%"

def apply : Operator → Nat → Nat → Except ArithmeticFault Nat
  | add, a, b => if a + b < wordCount then .ok (a + b) else .error .addition
  | sub, a, b => if b ≤ a then .ok (a - b) else .error .subtraction
  | mul, a, b => if a * b < wordCount then .ok (a * b) else .error .multiplication
  | div, a, b => if b = 0 then .error .division else .ok (a / b)
  | rem, a, b => if b = 0 then .error .remainder else .ok (a % b)

end Operator

/-- A byte length or element count. -/
inductive Width where
  | literal (value : Nat)
  | field (id : String)
  | binary (op : Operator) (lhs rhs : Width)
deriving DecidableEq, Repr, Inhabited

namespace Width

/-- The fields a width refers to, left to right. -/
def refs : Width → List String
  | literal _ => []
  | field id => [id]
  | binary _ lhs rhs => lhs.refs ++ rhs.refs

/-- The value under an assignment of words to fields. The left operand is evaluated first. -/
def eval (value : String → Nat) : Width → Except ArithmeticFault Nat
  | literal n => .ok n
  | field id => .ok (value id)
  | binary op lhs rhs =>
    match lhs.eval value with
    | .error e => .error e
    | .ok a =>
      match rhs.eval value with
      | .error e => .error e
      | .ok b => op.apply a b

/-- The value of a width that refers to no field; `none` also when the arithmetic faults. -/
def fold : Width → Option Nat
  | literal n => some n
  | field _ => none
  | binary op lhs rhs =>
    match lhs.fold, rhs.fold with
    | some a, some b => (op.apply a b).toOption
    | _, _ => none

/-- Every operation stands in parentheses. -/
def text : Width → String
  | literal n => toString n
  | field id => id
  | binary op lhs rhs => "(" ++ lhs.text ++ op.symbol ++ rhs.text ++ ")"

end Width

end WireRecords
