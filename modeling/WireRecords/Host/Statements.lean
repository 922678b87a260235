import WireRecords.Host.Expressions

/-!
# Statements
-/
namespace WireRecords.Host

open Program (Token)
open Reader

/-- What follows a path without arguments. -/
def afterPlainPath? (ts : List Token) : Option (List Token) :=
  (plainPath.run ⟨ts, []⟩).map (·.2.ahead)

/-- Whether an item follows rather than an expression. -/
def startsItem (ts : List Token) : Bool :=
  let after := next ts
  let third := next after
  let isWord (w : String) := startsWord w ts
  let isNext (ws : List String) := ws.any (startsWord · after)
  let startsFunction (ts : List Token) := ["unsafe", "extern", "fn"].any (startsWord · ts)
  ["pub", "extern", "use", "fn", "mod", "type", "struct", "enum", "trait", "impl", "macro"].any
      isWord ||
    (isWord "crate" && !startsOp "::" after) ||
    (isWord "static" && (isNext ["mut"] || startsName after)) ||
    (isWord "const" && !(startsGroup .brace after || isNext ["static", "move"] ||
      startsOp "|" after || (isNext ["async"] && !startsFunction third))) ||
    (isWord "unsafe" && !startsGroup .brace after) ||
    (isWord "async" && startsFunction after) ||
    (isWord "union" && startsName after) ||
    (isWord "auto" && isNext ["trait"]) ||
    (isWord "default" && isNext ["unsafe", "impl"])

/-- How a macro stands among statements. -/
inductive MacroUse where
  /-- It names what it declares. -/
  | item
  /-- Its arguments stand in braces, and nothing goes on with its value. -/
  | statement
  | none
deriving DecidableEq, Repr, Inhabited

def macroUse (ts : List Token) : MacroUse :=
  match afterPlainPath? ts with
  | some rest =>
    if !startsOp "!" rest then .none
    else
      let after := next rest
      if startsName after || startsWord "try" after then .item
      else if startsGroup .brace after then
        let third := next after
        if (startsOp "." third && !startsOp ".." third) || startsOp "?" third then .none
        else .statement
      else .none
  | _ => .none

namespace Grammar

/-- A binding, which may have an alternative for when its pattern does not fit. A value that ends
with a brace has none. -/
def binding (g : Grammar) : Reader Unit := do
  word "let"
  discard g.pattern
  whenever (seesOp ":") do
    op ":"
    discard (g.type true)
  whenever (seesOp "=") do
    op "="
    g.expr true
    let isBraced := startsGroup .brace (← get).passed
    whenever (sees fun ts => !isBraced && startsWord "else" ts) do
      word "else"
      g.block false
  op ";"

/-- A statement; whether it needs a semicolon unless it is the last one. -/
def stmt (g : Grammar) : Reader Bool := do
  let start ← get
  let ((), attributes) ← aside g.outerAttributes
  let ts := (← get).ahead
  if macroUse ts = .statement then
    pass attributes
    plainPath
    op "!"
    discard macroArguments
    optionalOp ";"
    return false
  else if startsWord "let" ts then
    pass attributes
    g.binding
    return false
  else if startsItem ts || macroUse ts = .item then
    -- Attributes belong to the item.
    set start
    discard g.item
    return false
  else
    let (shape, tokens) ← aside g.statement
    attributed attributes shape tokens
    if ← seesOp ";" then
      op ";"
      return false
    else return shape.needsSemicolon

/-- Statements up to the end of a block. -/
def stmts (g : Grammar) : Reader Unit :=
  repeatWhile (sees (!·.isEmpty)) do
    if ← seesOp ";" then op ";"
    else if ← g.stmt then require (← atEnd)

def blockForm (g : Grammar) (hasAttributes : Bool) : Reader Unit :=
  inside .brace do
    if hasAttributes then g.innerAttributes
    g.stmts

end Grammar

end WireRecords.Host
