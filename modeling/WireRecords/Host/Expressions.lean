import WireRecords.Host.Patterns

/-!
# Expressions

Operators bind by precedence. Expressions that end with a block can stand as statements without a
semicolon, and comparisons and ranges cannot be chained, so the shape of an expression is kept.
-/
namespace WireRecords.Host

open Program (Token)
open Reader

/-- Whether an expression ends only with a semicolon when it stands as a statement. -/
def Shape.needsSemicolon : Shape → Bool
  | block => false
  | call isBrace => !isBrace
  | _ => true

/-! ## Operators -/

inductive Precedence where
  | lowest
  | assignment
  | range
  | or
  | and
  | comparison
  | bitOr
  | bitXor
  | bitAnd
  | shift
  | sum
  | product
  | cast
deriving DecidableEq, Repr, Inhabited

def Precedence.rank : Precedence → Nat
  | lowest => 0
  | assignment => 1
  | range => 2
  | or => 3
  | and => 4
  | comparison => 5
  | bitOr => 6
  | bitXor => 7
  | bitAnd => 8
  | shift => 9
  | sum => 10
  | product => 11
  | cast => 12

/-- The binary operators, those that start with another before it. -/
def binaryOperators : List (String × Precedence) :=
  [("&&", .and), ("||", .or), ("<<=", .assignment), (">>=", .assignment), ("<<", .shift),
    (">>", .shift), ("==", .comparison), ("<=", .comparison), ("!=", .comparison),
    (">=", .comparison), ("+=", .assignment), ("-=", .assignment), ("*=", .assignment),
    ("/=", .assignment), ("%=", .assignment), ("^=", .assignment), ("&=", .assignment),
    ("|=", .assignment), ("+", .sum), ("-", .sum), ("*", .product), ("/", .product),
    ("%", .product), ("^", .bitXor), ("&", .bitAnd), ("|", .bitOr), ("<", .comparison),
    (">", .comparison)]

def binaryOperator? (ts : List Token) : Option (String × Precedence) :=
  binaryOperators.find? fun o => startsOp o.1 ts

/-- How strongly what follows binds. -/
def precedenceOf (ts : List Token) : Precedence :=
  match binaryOperator? ts with
  | some (_, p) => p
  | none =>
    if startsOp "=" ts && !startsOp "=>" ts then .assignment
    else if startsOp ".." ts then .range
    else if startsWord "as" ts then .cast
    else .lowest

/-- Whether an expression may follow. -/
def startsExpr : List Token → Bool
  | .ident n :: _ => n != "as"
  | .literal _ :: _ => true
  | .group _ _ :: _ => true
  | ts => ["!", "-", "*", "&", "|", "<", "..", "::", "#"].any (startsOp · ts) &&
      ["!=", "-=", "->", "*=", "&=", "|=", "<=", "<<="].all (!startsOp · ts) ||
    startsLifetime ts

/-- What stands where a range is open at its end. -/
def startsRangeEnd (hasRecords : Bool) (ts : List Token) : Bool :=
  ts.isEmpty || (startsOp "." ts && !startsOp ".." ts) || (!hasRecords && startsGroup .brace ts) ||
    startsWord "as" ts ||
    [",", ";", "?", "=>", "=", "+", "/", "%", "^", ">", "<=", "!=", "-=", "*=", "&=", "|=",
      "<<="].any (startsOp · ts)

namespace Grammar

/-! ## Parts of expressions -/

/-- The arguments of a call. -/
def arguments (g : Grammar) : Reader Unit := commaGroup .paren (g.expr true)

/-- The fields of a record that is constructed. The last may stand for the fields of another. -/
def fieldValues (g : Grammar) : Reader Unit :=
  inside .brace do
    go ((← get).ahead.length + 1)
where
  go : Nat → Reader Unit
    | 0 => failure
    | n + 1 =>
      whenever (sees (!·.isEmpty)) do
        if ← seesOp ".." then
          op ".."
          whenever (sees (!·.isEmpty)) (g.expr true)
        else
          g.outerAttributes
          let isNamed ← member
          if !isNamed || (← seesOp ":") then
            op ":"
            g.expr true
          whenever (sees (!·.isEmpty)) do
            op ","
            go n

/-- A path, and what may follow it: a macro's arguments or the fields of a record. -/
def pathExpr (g : Grammar) (hasRecords : Bool) : Reader Shape := do
  let form ← g.path true
  if !form.isQualified && form.isPlain && (← sees startsMacroCall) then
    op "!"
    return .call (← macroArguments)
  if hasRecords && (← seesGroup .brace) then g.fieldValues
  return .plain

def label : Reader Unit := do
  lifetime
  op ":"

def branch (g : Grammar) : Reader Unit := do
  go ((← get).ahead.length + 1)
where
  go : Nat → Reader Unit
    | 0 => failure
    | n + 1 => do
      word "if"
      g.expr false
      g.block false
      whenever (seesWord "else") do
        word "else"
        if ← seesWord "if" then go n else g.block false

/-- A parameter of a closure. Attributes are not passed on with a pattern that is passed on as it is
written. -/
def closureParameter (g : Grammar) : Reader Unit := do
  let ((), attributes) ← aside g.outerAttributes
  let isWritten ← seesWord "box"
  let (_, tokens) ← aside g.pattern
  let isTyped ← seesOp ":"
  pass (if isWritten && !isTyped then tokens else attributes ++ tokens)
  if isTyped then
    op ":"
    discard (g.type true)

def closure (g : Grammar) (hasRecords : Bool) : Reader Unit := do
  g.forParameters
  optionalWord "const"
  optionalWord "static"
  optionalWord "async"
  optionalWord "move"
  op "|"
  commaList (seesOp "|") g.closureParameter
  op "|"
  if ← seesOp "->" then
    op "->"
    discard (g.type true)
    g.block false
  else g.expr hasRecords

/-- The members of an array, or a member and the number of its copies. -/
def array (g : Grammar) : Reader Unit :=
  inside .bracket do
    if ← atEnd then return
    g.expr true
    if ← seesOp ";" then
      op ";"
      g.expr true
    else whenever (sees (!·.isEmpty)) do
      op ","
      commaList atEnd (g.expr true)

/-- A loop, or a block with a label. -/
def labelled (g : Grammar) : Reader Unit := do
  if ← seesWord "while" then
    word "while"
    g.expr false
    g.block true
  else if ← seesWord "for" then
    word "for"
    g.patterns
    word "in"
    g.expr false
    g.block true
  else if ← seesWord "loop" then
    word "loop"
    g.block true
  else g.block true

/-! ## Precedence -/

/-- The mark of a range and its end, which may be open unless it is included. -/
def rangeEnd (hasRecords : Bool) (rest : Reader Unit) : Reader Unit := do
  require !(← seesOp "...")
  if ← seesOp "..=" then
    op "..="
    rest
  else
    op ".."
    whenever (sees (!startsRangeEnd hasRecords ·)) rest

/-- A cast is not followed by what would belong to the value. -/
def checkCast : Reader Unit := do
  require !(← sees fun ts => (startsOp "." ts && !startsOp ".." ts) || startsOp "?" ts ||
    startsGroup .bracket ts || startsGroup .paren ts)

mutual

/-- Goes on with an expression as long as operators follow that bind at least as strongly as
`base`. -/
def climb (g : Grammar) (unary : Reader Shape) (hasRecords : Bool) :
    Nat → Shape → Nat → Reader Shape
  | 0, _, _ => failure
  | n + 1, shape, base => do
    let ts := (← get).ahead
    let precedence := precedenceOf ts
    if shape = .range || precedence = .lowest || precedence.rank < base then return shape
    match binaryOperator? ts, precedence with
    | some (symbol, _), precedence =>
      require !(precedence = .comparison && shape = .comparison)
      op symbol
      operand g unary hasRecords n precedence (← unary)
      climb g unary hasRecords n (if precedence = .comparison then .comparison else .plain) base
    | none, .cast =>
      word "as"
      discard (g.type false)
      checkCast
      climb g unary hasRecords n .plain base
    | none, .range =>
      rangeEnd hasRecords (do operand g unary hasRecords n .range (← unary))
      climb g unary hasRecords n .range base
    | none, _ =>
      op "="
      operand g unary hasRecords n .assignment (← unary)
      climb g unary hasRecords n .plain base

/-- The rest of the right operand of an operator: all that binds more strongly. -/
def operand (g : Grammar) (unary : Reader Shape) (hasRecords : Bool) :
    Nat → Precedence → Shape → Reader Unit
  | 0, _, _ => failure
  | n + 1, precedence, shape => do
    let ts := (← get).ahead
    let following := precedenceOf ts
    if precedence.rank < following.rank ||
        (following = precedence && precedence = .assignment) then
      let shape ← climb g unary hasRecords n shape following.rank
      -- Without progress the operator belongs to what is around.
      if (← get).ahead.length < ts.length then operand g unary hasRecords n precedence shape

end

/-- Enough for all operators that follow. -/
def climbFuel : Reader Nat := do return 3 * (← get).ahead.length + 3

/-- Expressions in parentheses: none, one, or several. -/
def parenthesized (g : Grammar) : Reader Unit := commaGroup .paren (g.expr true)

/-- The cases of a match. -/
def arms (g : Grammar) : Reader Unit := do
  g.innerAttributes
  repeatWhile (sees (!·.isEmpty)) do
    g.outerAttributes
    g.patterns
    whenever (seesWord "if") do
      word "if"
      g.expr true
    op "=>"
    let shape ← g.statement
    if shape = .block then optionalOp "," else whenever (sees (!·.isEmpty)) (op ",")

/-- Whether a closure follows. -/
def startsClosure (ts : List Token) : Bool :=
  let after := next ts
  startsOp "|" ts || startsWord "move" ts || startsWord "static" ts ||
    (startsWord "for" ts && startsParameters after) ||
    (startsWord "const" ts && !startsGroup .brace after) ||
    (startsWord "async" ts && (startsOp "|" after ||
      (startsWord "move" after && !startsGroup .brace (next after))))

/-- Whether an expression that ends with a block follows. -/
def startsBlockExpr (ts : List Token) : Bool :=
  let after := next ts
  ["if", "while", "loop", "match"].any (startsWord · ts) ||
    (startsWord "for" ts && !startsParameters after) ||
    (["unsafe", "const", "try"].any (startsWord · ts) && startsGroup .brace after) ||
    startsGroup .brace ts || startsLifetime ts

/-- An expression that ends with a block. -/
def blockExpr (g : Grammar) : Reader Unit := do
  if ← seesWord "if" then g.branch
  else if ← seesWord "match" then
    word "match"
    g.expr false
    inside .brace g.arms
  else if ← seesWord "try" then
    word "try"
    g.block false
  else if ← sees fun ts => startsWord "unsafe" ts || startsWord "const" ts then
    discard anyName
    g.block true
  else
    whenever (sees startsLifetime) label
    g.labelled

/-! ## Atoms and operands -/

/-- An expression that jumps, and its value if there is one. A brace directly behind a break belongs
to what is around if records cannot be constructed. -/
def jump (g : Grammar) (hasRecords : Bool) : Reader Unit := do
  if ← seesWord "break" then
    word "break"
    whenever (sees startsLifetime) do
      lifetime
      require !(← seesOp ":")
    whenever (sees fun ts => startsExpr ts && (hasRecords || !startsGroup .brace ts)) (g.expr true)
  else
    discard anyName
    whenever (sees startsExpr) (g.expr true)

def atom (g : Grammar) (unary : Bool → Reader Shape) (hasRecords : Bool) : Reader Shape := do
  let plain (p : Reader Unit) : Reader Shape := do
    p
    return .plain
  if ← sees fun ts => startsLiteral ts && !startsOp "-" ts then plain (discard take)
  else if ← sees startsClosure then plain (g.closure hasRecords)
  else if ← seesWord "async" then
    plain do
      word "async"
      optionalWord "move"
      g.block false
  else if ← sees startsBlockExpr then
    g.blockExpr
    return .block
  else if ← sees startsBuiltin then
    builtin
    return .written
  else if ← sees fun ts => startsSegment ts || startsOp "::" ts || startsOp "<" ts ||
      (startsWord "try" ts && (startsOp "!" (next ts) || startsOp "::" (next ts))) then
    g.pathExpr hasRecords
  else if ← seesGroup .paren then plain g.parenthesized
  else if ← seesGroup .bracket then plain g.array
  else if ← sees fun ts => ["break", "return", "yield"].any (startsWord · ts) then
    plain (g.jump hasRecords)
  else if ← seesWord "continue" then
    plain do
      word "continue"
      whenever (sees startsLifetime) lifetime
  else if ← seesWord "become" then
    asWritten do
      word "become"
      g.expr true
      return (.written, true)
  else if ← seesWord "let" then
    plain do
      word "let"
      g.patterns
      op "="
      let shape ← unary hasRecords
      discard (climb g (unary hasRecords) hasRecords (← climbFuel) shape
        Precedence.comparison.rank)
  else if ← seesOp ".." then
    rangeEnd hasRecords do
      operand g (unary hasRecords) hasRecords (← climbFuel) .range (← unary hasRecords)
    return .range
  else plain (word "_")

/-- What follows the point of a member: a field or method by name, or a field by number. -/
def memberRest (g : Grammar) : Reader Unit := do
  if ← seesWord "await" then word "await"
  else if ← member then
    if ← seesOp "::" then
      g.genericArguments
      g.arguments
    else whenever (seesGroup .paren) g.arguments

/-- A member of a value. A number may stand for several members of each other. -/
def memberOf (g : Grammar) : Reader Unit := do
  op "."
  if ← sees fun
      | .literal _ :: _ => true
      | _ => false then
    whenever memberPath g.memberRest
  else g.memberRest

/-- What may follow a value directly: arguments, members, indices and `?`. -/
def startsTrailer (ts : List Token) : Bool :=
  startsGroup .paren ts || startsGroup .bracket ts || startsOp "?" ts ||
    (startsOp "." ts && !startsOp ".." ts)

def trailer (g : Grammar) : Reader Unit := do
  if ← seesGroup .paren then g.arguments
  else if ← seesGroup .bracket then inside .bracket (g.expr true)
  else if ← seesOp "?" then op "?"
  else g.memberOf

/-- Operators that stand before their operand. -/
def startsUnary (ts : List Token) : Bool := ["&", "*", "!", "-"].any (startsOp · ts)

def unaryOperator : Reader Unit := do
  if ← seesOp "&" then
    op "&"
    if ← sees fun ts => startsWord "raw" ts &&
        (startsWord "const" (next ts) || startsWord "mut" (next ts)) then
      word "raw"
      if ← seesWord "mut" then word "mut" else word "const"
    else optionalWord "mut"
  else if ← seesOp "*" then op "*"
  else if ← seesOp "!" then op "!"
  else op "-"

/-- A value with its unary operators, given a reader for the values inside it. A range that starts
with its mark has no attributes of its own, and nothing follows it. -/
def unaryWith (g : Grammar) (inner : Bool → Reader Shape) (hasRecords : Bool) : Reader Shape :=
  asWritten do
    let hasAttributes ← seesOp "#"
    g.outerAttributes
    if ← sees startsUnary then
      unaryOperator
      discard (inner hasRecords)
      return (.plain, false)
    let shape ← g.atom inner hasRecords
    if shape = .range then
      require !hasAttributes
      return (.range, false)
    else if ← sees startsTrailer then
      repeatWhile (sees startsTrailer) g.trailer
      return (.plain, false)
    else return (shape, shape = .written)

/-- A value with its unary operators. Values that stand directly behind an operator, a `..` or `let`
are nested `n` deep at most. -/
def unary (g : Grammar) : Nat → Bool → Reader Shape
  | 0, _ => failure
  | n + 1, hasRecords => g.unaryWith (g.unary n) hasRecords

/-- Goes on with an expression after its first value. -/
def operators (g : Grammar) (hasRecords : Bool) (shape : Shape) : Reader Shape := do
  let fuel ← climbFuel
  climb g (g.unary fuel hasRecords) hasRecords fuel shape 0

def exprForm (g : Grammar) (hasRecords : Bool) : Reader Shape := do
  let shape ← g.unary (← climbFuel) hasRecords
  g.operators hasRecords shape

/-- Passes on an expression with the attributes before it. A range stands in parentheses then, and
what is passed on as it is written has none. -/
def attributed (attributes : List Token) (shape : Shape) (tokens : List Token) : Reader Unit :=
  if attributes.isEmpty then pass tokens
  else if shape = .range then pass (attributes ++ [.parens tokens])
  else if shape = .written then pass tokens
  else pass (attributes ++ tokens)

/-- An expression as a statement. -/
def statementForm (g : Grammar) : Reader Shape := do
  let ((), attributes) ← aside g.outerAttributes
  if ← sees startsBlockExpr then
    pass attributes
    g.blockExpr
    if ← sees fun ts => (startsOp "." ts && !startsOp ".." ts) || startsOp "?" ts then
      repeatWhile (sees startsTrailer) g.trailer
      g.operators true .plain
    else return .block
  else
    let (shape, tokens) ← aside (do g.unary (← climbFuel) true)
    attributed attributes shape tokens
    g.operators true shape

end Grammar

end WireRecords.Host
