import WireRecords.Host.Grammar

/-!
# Paths

The segments of a path and their arguments. In expressions, arguments stand behind a `::`, since a
`<` alone compares.
-/
namespace WireRecords.Host

open Program (Token)
open Reader

namespace Grammar

/-! ## Arguments -/

/-- Whether an argument that is a value follows. -/
def startsConstant (ts : List Token) : Bool := startsLiteral ts || startsGroup .brace ts

/-- An argument that is a value. -/
def constantArgument (g : Grammar) : Reader Unit := do
  if ← sees startsLiteral then literal else g.block true

/-- An argument of a generic form; whether it is a lifetime. -/
def genericArgument (g : Grammar) : Reader Bool := do
  if ← sees fun ts => startsLifetime ts && !startsOp "+" (next ts) then
    lifetime
    return true
  if ← sees startsConstant then g.constantArgument
  else
    match ← g.type true with
    | .path form =>
      if form.isSingle && (← seesOp "=") then
        op "="
        if ← sees startsConstant then g.constantArgument else discard (g.type true)
      else if form.isSingle && (← seesOp ":") then
        op ":"
        g.bounds
    | _ => pure ()
  return false

def genericArguments (g : Grammar) : Reader Unit := do
  optionalOp "::"
  op "<"
  lifetimesFirst (seesOp ">") g.genericArgument
  op ">"

/-! ## Segments -/

/-- Whether the arguments of a segment follow it. -/
def startsArguments (inExpr : Bool) (ts : List Token) : Bool :=
  (!inExpr && startsOp "<" ts && !startsOp "<=" ts && !startsOp "<<=" ts) ||
    (startsOp "::" ts && startsOp "<" (next (next ts)))

/-- One segment of a path. -/
def segment (g : Grammar) (inExpr : Bool) : Reader PathForm := do
  require ((← sees startsSegment) || (← seesWord "try"))
  let name ← anyName
  if ["super", "self", "crate", "try"].contains name then return { name }
  else if ← sees (startsArguments inExpr) then
    g.genericArguments
    return { name, isPlain := false }
  else return { name }

/-- The segments after the first. -/
def segments (g : Grammar) (inExpr : Bool) (first : PathForm) : Reader PathForm := do
  go ((← get).ahead.length + 1) first
where
  go : Nat → PathForm → Reader PathForm
    | 0, _ => failure
    | n + 1, form => do
      if ← sees fun ts => startsOp "::" ts && !startsGroup .paren (next (next ts)) then
        op "::"
        let s ← g.segment inExpr
        go n { form with name := s.name, isPlain := form.isPlain && s.isPlain, isSingle := false }
      else return form

/-- A path from the root or from where it stands. -/
def simplePath (g : Grammar) (inExpr : Bool) : Reader PathForm := do
  let isRooted ← seesOp "::"
  optionalOp "::"
  g.segments inExpr { ← g.segment inExpr with isSingle := !isRooted }

/-- A path that may start from a type in angle brackets. -/
def path (g : Grammar) (inExpr : Bool) : Reader PathForm := do
  if ← seesOp "<" then
    op "<"
    discard (g.type true)
    whenever (seesWord "as") do
      word "as"
      discard (g.simplePath false)
    op ">"
    op "::"
    g.segments inExpr { ← g.segment inExpr with isQualified := true, isSingle := false }
  else g.simplePath inExpr

/-! ## Functions as bounds -/

/-- The result of a function. -/
def result (g : Grammar) (isJoined : Bool) : Reader Unit :=
  whenever (seesOp "->") do
    op "->"
    discard (g.type isJoined)

/-- Whether the parameters of a function follow the path of a bound. -/
def startsBoundParameters (ts : List Token) : Bool :=
  startsGroup .paren ts || (startsOp "::" ts && startsGroup .paren (next (next ts)))

/-- Whether a segment has empty arguments. -/
def hasEmptyArguments (segment : List Token) : Bool :=
  match segment.reverse with
  | .punct '>' _ :: .punct '<' _ :: _ => true
  | _ => false

/-- The path of a bound, which may have parameters and a result like a function. They replace the
arguments of the last segment, which have to be empty, and are passed on without a mark before
them. -/
def boundPath (g : Grammar) : Reader Unit := do
  optionalOp "::"
  let (last, tokens) ← lastSegment ((← get).ahead.length + 1)
  if (last.isPlain || hasEmptyArguments tokens) && (← sees startsBoundParameters) then
    pass [.ident last.name]
    discard (aside (optionalOp "::"))
    commaGroup .paren (discard (g.type true))
    g.result false
  else pass tokens
where
  /-- Passes the segments before the last one on. -/
  lastSegment : Nat → Reader (PathForm × List Token)
    | 0 => failure
    | n + 1 => do
      let (s, tokens) ← aside (g.segment false)
      if ← sees fun ts => startsOp "::" ts && !startsGroup .paren (next (next ts)) then
        pass tokens
        op "::"
        lastSegment n
      else return (s, tokens)

end Grammar

end WireRecords.Host
