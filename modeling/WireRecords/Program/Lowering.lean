import WireRecords.Program.Names
import WireRecords.Program.Syntax
import WireRecords.Record

/-!
# Widths, places and statements of procedures

A procedure computes a width from the fields it has read so far, and reads or writes either a whole
field or the current element of one.
-/
namespace WireRecords.Program

def receiver : Expr := .var "self"

def usize : Ty := .named "usize"

/-- A width as an expression. Operands stand in parentheses unless they are numbers. -/
def lower : Width → Expr
  | .literal value => .nat value
  | .field id => .cast (.field receiver (escape id)) usize
  | .binary op lhs rhs => .binary op.symbol (operand lhs (lower lhs)) (operand rhs (lower rhs))
where
  operand : Width → Expr → Expr
    | .literal _, e => e
    | _, e => .paren e

/-- What is read or written: a field, or the current element of a field. -/
def place (id : String) (isElement : Bool) : Expr :=
  let field := .field receiver (escape id)
  if isElement then .index field (.var "i") else field

def buffer : Expr := .var "buf"

/-- An expression as a statement. -/
def perform (e : Expr) : Stmt := .expr e true

def declare (name : String) (value : Expr) : Stmt := .binding false name none value

def declareSize (name : String) (value : Expr) : Stmt := .binding false name (some usize) value

def when (condition : Expr) (body : Block) : Stmt := .expr (.branch condition body none) false

/-- Leaves the procedure with an error. -/
def fail (kind case : String) (fields : List (String × Expr)) : Stmt :=
  perform (.returned (.call (.var "Err") [.construct [kind, case] fields]))

/-- Repeats `body` for every element, counted by `i`. -/
def forElements (body : Block) : Stmt :=
  .expr (.forEach "i" (.range (some (.nat 0)) (.var "count")) body) false

/-- The name of the operation that moves a scalar; a single byte has no order. -/
def scalarOperation (direction : String) (s : Scalar) (endian : Endian) : String :=
  let order :=
    match endian with
    | .little => if s.width = 1 then "" else "_le"
    | .big => ""
  direction ++ "_" ++ s.name ++ order

/-- The initial value of a field or element. Byte arrays are spelled out, for not every length has a
default. -/
def defaultValue : FieldType → Expr
  | .bytes length => .repetition (.nat 0) (.nat length)
  | _ => .call (.path ["Default", "default"]) []

end WireRecords.Program
