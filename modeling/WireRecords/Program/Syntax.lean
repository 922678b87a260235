/-!
# The syntax of procedures

The part of Rust that the procedures of records are written in, as a tree. Names are spelled as they
stand in the text, with a leading `r#` where they would otherwise be keywords.
-/
namespace WireRecords.Program

/-- A type, as far as records and their procedures mention one. -/
inductive Ty where
  | path (segments : List String) (arguments : List Ty)
  | array (element : Ty) (length : Nat)
  | slice (element : Ty)
  | reference (isMutable : Bool) (target : Ty)
  /-- Any type with the named trait. -/
  | bounded (bound : String)
  | unit
deriving Repr, Inhabited

inductive Attribute where
  | doc (text : String)
  /-- Documentation written as a comment before the item. -/
  | docComment (text : String)
  | list (name : String) (arguments : List String)
deriving DecidableEq, Repr, Inhabited

inductive Literal where
  | integer (value : Nat)
  /-- The byte zero, with its type. -/
  | zeroByte
  | string (value : String)
  | bytes (value : List UInt8)
deriving DecidableEq, Repr, Inhabited

inductive Parameter where
  /-- The receiver, taken by reference. -/
  | receiver (isMutable : Bool)
  | typed (name : String) (type : Ty)
deriving Repr, Inhabited

structure Signature where
  attributes : List Attribute := []
  isPublic : Bool := false
  name : String
  /-- A type parameter and the trait that bounds it. -/
  generic : Option (String × String) := none
  parameters : List Parameter := []
  result : Option Ty := none
deriving Repr, Inhabited

mutual

inductive Expr where
  | path (segments : List String)
  | literal (value : Literal)
  | unit
  | paren (inner : Expr)
  | deref (inner : Expr)
  | borrow (isMutable : Bool) (inner : Expr)
  | propagate (inner : Expr)
  | cast (inner : Expr) (type : Ty)
  | binary (symbol : String) (lhs rhs : Expr)
  | assign (place value : Expr)
  | call (callee : Expr) (arguments : List Expr)
  | method (receiver : Expr) (name : String) (arguments : List Expr)
  | field (base : Expr) (name : String)
  | index (base position : Expr)
  | range (start : Option Expr) (stop : Expr)
  /-- An array of copies, `[value; length]`. -/
  | repetition (value length : Expr)
  /-- A vector of copies, `vec![value; length]`. -/
  | vector (value length : Expr)
  | construct (path : List String) (fields : List (String × Expr))
  | returned (value : Expr)
  /-- A closure without parameters whose body is a block. -/
  | closure (result : Option Ty) (body : List Stmt)
  | block (label : Option String) (hasAttribute : Bool) (body : List Stmt)
  | branch (condition : Expr) (body : List Stmt) (otherwise : Option (List Stmt))
  | forEach (name : String) (source : Expr) (body : List Stmt)
  | whileLoop (condition : Expr) (body : List Stmt)
  | endless (body : List Stmt)
  | unchecked (body : List Stmt)

inductive Stmt where
  | expr (value : Expr) (hasSemicolon : Bool)
  | binding (isMutable : Bool) (name : String) (type : Option Ty) (value : Expr)
  /-- The use of a macro as a statement. -/
  | invocation (name : String) (hasSemicolon : Bool)
  | item (item : Item)

inductive Item where
  | imports (attributes : List Attribute) (path : String) (names : List String)
  /-- A constant of the unit type. -/
  | constant (attributes : List Attribute) (name : String)
  | struct (attributes : List Attribute) (name : String) (fields : List (String × Ty))
  | function (signature : Signature) (body : List Stmt)
  | methods (trait : Option String) (target : Ty) (functions : List (Signature × List Stmt))
  | trait (name : String) (functions : List (Signature × List Stmt))
  | module (name : String) (items : List Item)

end

deriving instance Repr, Inhabited for Expr, Stmt, Item

abbrev Block := List Stmt

namespace Expr

def var (name : String) : Expr := path [name]

def nat (value : Nat) : Expr := literal (.integer value)

def text (value : String) : Expr := literal (.string value)

end Expr

namespace Ty

def named (name : String) : Ty := path [name] []

end Ty

end WireRecords.Program
