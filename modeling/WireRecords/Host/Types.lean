import WireRecords.Host.Bounds

/-!
# Types
-/
namespace WireRecords.Host

open Program (Token)
open Reader

namespace Grammar

/-! ## Functions -/

/-- Whether the object that a method is called on follows. -/
def startsMutableSelf (ts : List Token) : Bool :=
  startsWord "mut" ts && startsWord "self" (next ts)

/-- Whether a parameter has a name. -/
def startsNamed (isFirst : Bool) (ts : List Token) : Bool :=
  (startsName ts || startsWord "_" ts || (isFirst && startsWord "self" ts)) &&
    startsOp ":" (next ts) && !startsOp "::" (next ts)

/-- A parameter of a function that is a type. Only the first can be the object that a method is
called on, which is passed on as it is written. -/
def typeParameter (g : Grammar) (isFirst : Bool) : Reader Unit :=
  asWritten do
    let isReceiver ← sees fun ts => isFirst && startsMutableSelf ts
    if isReceiver then word "mut"
    let isNamed ← sees (startsNamed isFirst)
    let isSelf := isNamed && (← seesWord "self")
    if isNamed then
      discard anyName
      op ":"
    let isLate ← sees fun ts => isFirst && !isSelf && startsMutableSelf ts
    if isLate then
      word "mut"
      word "self"
    else if isReceiver && !isNamed then word "self"
    else discard (g.type true)
    return ((), isReceiver || isLate)

/-- Whether the rest of the parameters is left open. -/
def startsVariadic (ts : List Token) : Bool :=
  startsOp "..." ts ||
    ((startsName ts || startsWord "_" ts) && startsOp ":" (next ts) &&
      startsOp "..." (next (next ts)))

def typeParameters (g : Grammar) : Reader Unit :=
  inside .paren do
    go true ((← get).ahead.length + 1)
where
  go (isFirst : Bool) : Nat → Reader Unit
    | 0 => failure
    | n + 1 =>
      whenever (sees (!·.isEmpty)) do
        g.outerAttributes
        if ← sees startsVariadic then
          whenever (sees (!startsOp "..." ·)) do
            discard anyName
            op ":"
          op "..."
          optionalOp ","
        else
          g.typeParameter isFirst
          whenever (sees (!·.isEmpty)) do
            op ","
            go false n

/-- A function as a type. -/
def functionType (g : Grammar) : Reader Unit := do
  optionalWord "unsafe"
  abi
  word "fn"
  g.typeParameters
  g.result false

/-! ## Forms of types -/

/-- Bounds that follow a first one. -/
def moreBounds (g : Grammar) : Reader Unit :=
  repeatWhile (seesOp "+") do
    op "+"
    discard (g.bound { isConst := false })

/-- A first bound that stands in parentheses twice stands in them once. -/
def withoutInnerParentheses : List Token → List Token
  | .group .paren [.group .paren body] :: ts => .group .paren body :: ts
  | ts => ts

/-- Types in parentheses: none, one, or several. Bounds may follow a single one that is a bound
itself. -/
def parenthesizedType (g : Grammar) (isJoined : Bool) : Reader TypeForm := do
  if ← sees fun
      | .group .paren body :: _ => startsOp "?" body
      | _ => false then
    discard (inside .paren (g.traitBound { isConst := false }))
    let isSingle := !(← seesOp "+")
    g.moreBounds
    return .bounds isSingle
  let (form?, isBound) ← inside .paren do
    if ← atEnd then return (none, false)
    if ← sees startsLifetime then
      g.traitBounds { isConst := false } true
      return (some (TypeForm.bounds false), false)
    let first ← g.type true
    if ← atEnd then
      return (some first, match first with
        | .path form => !form.isQualified
        | .bounds isSingle => isSingle
        | _ => false)
    op ","
    commaList atEnd (discard (g.type true))
    return (none, false)
  match form? with
  | none => return .other
  | some form =>
    if isJoined && isBound && (← seesOp "+") then
      modify fun c => { c with passed := withoutInnerParentheses c.passed }
      g.moreBounds
      return .bounds false
    else return .parenthesized form

/-- Bounds that follow a path, up to what cannot be one; whether there are any. -/
def boundsAfterPath (g : Grammar) : Reader Bool := do
  go ((← get).ahead.length + 1)
where
  go : Nat → Reader Bool
    | 0 => failure
    | n + 1 => do
      if !(← seesOp "+") then return false
      op "+"
      whenever (sees (startsBound false)) do
        discard (g.bound { isConst := false })
        discard (go n)
      return true

/-- A path as a type, a macro, or the first of bounds that are a type together. -/
def pathType (g : Grammar) (hasParameters isJoined : Bool) : Reader TypeForm := do
  let form ← g.path false
  if form.isQualified then return .path form
  else if form.isPlain && (← sees startsMacroCall) then
    op "!"
    discard macroArguments
    return .call
  else if hasParameters || (isJoined && (← seesOp "+")) then
    let hasMore ← if isJoined then g.boundsAfterPath else pure false
    return .bounds !hasMore
  else return .path form

/-- Whether a type can be made for parameters. -/
def startsParametrized (ts : List Token) : Bool :=
  startsSegment ts || ["fn", "unsafe", "extern"].any (startsWord · ts)

/-- A type that is not made for parameters, or comes after them. -/
def typeAfterParameters (g : Grammar) (hasParameters isJoined : Bool) : Reader TypeForm := do
  let other (p : Reader Unit) : Reader TypeForm := do
    p
    return .other
  if ← seesGroup .paren then g.parenthesizedType isJoined
  else if ← sees fun ts => ["fn", "unsafe", "extern"].any (startsWord · ts) then
    other g.functionType
  else if ← sees startsBuiltin then other builtin
  else if ← sees fun ts => startsSegment ts || startsOp "::" ts || startsOp "<" ts then
    g.pathType hasParameters isJoined
  else if ← seesWord "dyn" then
    asWritten do
      word "dyn"
      let isStarred ← seesOp "*"
      optionalOp "*"
      g.traitBounds { isConst := false } isJoined
      return (.other, isStarred)
  else if ← seesGroup .bracket then
    other <| inside .bracket do
      discard (g.type true)
      whenever (seesOp ";") do
        op ";"
        g.expr true
  else if ← seesOp "*" then
    other do
      op "*"
      if ← seesWord "const" then word "const" else word "mut"
      discard (g.type false)
  else if ← seesOp "&" then
    other do
      op "&"
      whenever (sees startsLifetime) lifetime
      optionalWord "mut"
      discard (g.type false)
  else if ← seesOp "!" then other (op "!")
  else if ← seesWord "impl" then
    other do
      word "impl"
      g.traitBounds { isCapture := true } isJoined
  else if ← seesWord "_" then other (word "_")
  else
    require (← sees startsLifetime)
    g.traitBounds { isConst := false } true
    return .bounds false

/-- A type. The parameters that it is made for are not passed on with a macro. -/
def typeForm (g : Grammar) (isJoined : Bool) : Reader TypeForm :=
  asWritten do
    let hasParameters ← seesWord "for"
    let ((), parameters) ← aside g.forParameters
    require (!hasParameters || (← sees startsParametrized))
    let isBuiltin ← sees startsBuiltin
    let (form, tokens) ← aside (g.typeAfterParameters hasParameters isJoined)
    pass (if form = .call then tokens else parameters ++ tokens)
    return (form, isBuiltin)

end Grammar

end WireRecords.Host
