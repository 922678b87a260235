import WireRecords.Program.Syntax

/-!
# Flat procedures

The statements of a field stand in a block of their own, so that what they bind never reaches the
next field. A block that binds nothing is needless: its statements can stand in the block around it.
-/
namespace WireRecords.Program

/-- Expressions alone bind nothing that a block could hide. -/
def isSpliceable (b : Block) : Bool :=
  b.all fun
    | .expr .. => true
    | _ => false

/-- Drops the value of a block: its last expression gets a semicolon. -/
def dropValue : Block → Block
  | [] => []
  | [.expr e _] => [.expr e true]
  | s :: ss => s :: dropValue ss

mutual

/-- What stands for a statement in a flat block. The value of an inner block survives only if it is
the value of the outer one. -/
def flattenStmt (isLast : Bool) : Stmt → Block
  | .expr (.block none false body) hasSemicolon =>
    let flat := flattenBlock body
    if isSpliceable flat then
      if isLast && !hasSemicolon then flat else dropValue flat
    else [.expr (.block none false flat) hasSemicolon]
  | s => [s]

/-- Splices the plain inner blocks, the innermost first. Blocks with a label or an attribute and
those of control flow stay as they are. -/
def flattenBlock : Block → Block
  | [] => []
  | s :: ss => flattenStmt ss.isEmpty s ++ flattenBlock ss

end

mutual

/-- Flattens the bodies of the closures and functions inside an expression. -/
def Expr.flatten : Expr → Expr
  | .path segments => .path segments
  | .literal value => .literal value
  | .unit => .unit
  | .paren inner => .paren inner.flatten
  | .deref inner => .deref inner.flatten
  | .borrow isMutable inner => .borrow isMutable inner.flatten
  | .propagate inner => .propagate inner.flatten
  | .cast inner type => .cast inner.flatten type
  | .binary symbol lhs rhs => .binary symbol lhs.flatten rhs.flatten
  | .assign place value => .assign place.flatten value.flatten
  | .call callee arguments => .call callee.flatten (flattenExprs arguments)
  | .method receiver name arguments => .method receiver.flatten name (flattenExprs arguments)
  | .field base name => .field base.flatten name
  | .index base position => .index base.flatten position.flatten
  | .range none stop => .range none stop.flatten
  | .range (some start) stop => .range (some start.flatten) stop.flatten
  | .repetition value length => .repetition value.flatten length.flatten
  -- What stands inside a macro is not looked at.
  | .vector value length => .vector value length
  | .construct path fields => .construct path (flattenFields fields)
  | .returned value => .returned value.flatten
  | .closure result body => .closure result (flattenBlock (flattenStmts body))
  | .block label hasAttribute body => .block label hasAttribute (flattenStmts body)
  | .branch condition body none => .branch condition.flatten (flattenStmts body) none
  | .branch condition body (some otherwise) =>
    .branch condition.flatten (flattenStmts body) (some (flattenStmts otherwise))
  | .forEach name source body => .forEach name source.flatten (flattenStmts body)
  | .whileLoop condition body => .whileLoop condition.flatten (flattenStmts body)
  | .endless body => .endless (flattenStmts body)
  | .unchecked body => .unchecked (flattenStmts body)

def flattenExprs : List Expr → List Expr
  | [] => []
  | e :: es => e.flatten :: flattenExprs es

def flattenFields : List (String × Expr) → List (String × Expr)
  | [] => []
  | (name, value) :: fields => (name, value.flatten) :: flattenFields fields

def Stmt.flatten : Stmt → Stmt
  | .expr value hasSemicolon => .expr value.flatten hasSemicolon
  | .binding isMutable name type value => .binding isMutable name type value.flatten
  | .invocation name hasSemicolon => .invocation name hasSemicolon
  | .item item => .item item.flatten

def flattenStmts : Block → Block
  | [] => []
  | s :: ss => s.flatten :: flattenStmts ss

/-- Flattens the bodies of functions and methods. The default methods of a trait stay as they are,
but not the closures and functions in them. -/
def Item.flatten : Item → Item
  | .imports attributes path names => .imports attributes path names
  | .constant attributes name => .constant attributes name
  | .struct attributes name fields => .struct attributes name fields
  | .function signature body => .function signature (flattenBlock (flattenStmts body))
  | .methods trait target functions => .methods trait target (flattenFunctions functions)
  | .trait name functions => .trait name (flattenDefaults functions)
  | .module name items => .module name (flattenItems items)

def flattenFunctions : List (Signature × Block) → List (Signature × Block)
  | [] => []
  | (signature, body) :: fs => (signature, flattenBlock (flattenStmts body)) :: flattenFunctions fs

def flattenDefaults : List (Signature × Block) → List (Signature × Block)
  | [] => []
  | (signature, body) :: fs => (signature, flattenStmts body) :: flattenDefaults fs

def flattenItems : List Item → List Item
  | [] => []
  | i :: is => i.flatten :: flattenItems is

end

end WireRecords.Program
