import WireRecords.Host.Paths

/-!
# Bounds and parameters

Bounds on types, the parameters of generic forms, and the conditions on them.
-/
namespace WireRecords.Host

open Program (Token)
open Reader

namespace Grammar

/-! ## Parameters -/

/-- The bounds of a type, after a colon. -/
def optionalBounds (g : Grammar) : Reader Unit :=
  whenever (seesOp ":") (introduced (op ":") g.bounds)

/-- Lifetimes joined by `+`, up to what is none. -/
def lifetimeBounds : Reader Unit := do
  go ((← get).ahead.length + 1)
where
  go : Nat → Reader Unit
    | 0 => failure
    | n + 1 =>
      whenever (sees startsLifetime) do
        lifetime
        whenever (seesOp "+") do
          op "+"
          go n

/-- A parameter of a generic form; whether it is a lifetime. -/
def genericParameter (g : Grammar) : Reader Bool := do
  g.outerAttributes
  if ← sees startsLifetime then
    lifetime
    whenever (seesOp ":") (introduced (op ":") lifetimeBounds)
    return true
  if ← seesWord "const" then
    word "const"
    discard name
    op ":"
    discard (g.type true)
    whenever (seesOp "=") do
      op "="
      if ← sees startsName then discard name
      else
        require (← sees startsConstant)
        g.constantArgument
  else
    discard name
    g.optionalBounds
    whenever (seesOp "=") do
      op "="
      discard (g.type true)
  return false

/-- The parameters of a generic form, one of which may be left without a name. -/
def genericParameters (g : Grammar) : Reader Unit :=
  whenever (seesOp "<") <|
    introduced (op "<")
      (lifetimesFirst (seesOp ">") do
        g.outerAttributes
        if ← seesWord "_" then
          word "_"
          return false
        else g.genericParameter)
      (op ">")

/-- The parameters that a bound, function or closure is made for. -/
def forParameters (g : Grammar) : Reader Unit :=
  whenever (seesWord "for") do
    word "for"
    op "<"
    commaList (seesOp ">") (discard g.genericParameter)
    op ">"

/-- Whether parameters follow rather than a type in angle brackets. -/
def startsParameters (ts : List Token) : Bool :=
  let second := next ts
  let third := next second
  startsOp "<" ts &&
    (startsOp ">" second || startsOp "#" second || startsWord "const" second ||
      ((startsName second || startsLifetime second) &&
        (startsOp ">" third || startsOp "," third || startsOp "=" third ||
          (startsOp ":" third && !startsOp "::" third))))

/-! ## Bounds -/

/-- What a bound may be where it stands. -/
structure BoundPlace where
  /-- Whether traits may be asked for in constants. -/
  isConst : Bool := true
  /-- Whether what a hidden type captures may be said. -/
  isCapture : Bool := false

/-- What a hidden type captures. -/
def capture : Reader Unit := do
  word "use"
  op "<"
  lifetimesFirst (seesOp ">") do
    if ← sees startsLifetime then
      lifetime
      return true
    else
      require ((← sees startsName) || (← seesWord "Self"))
      discard anyName
      return false
  op ">"

/-- A trait as a bound; whether it is asked for in constants. A trait that may be missing is not
made for parameters. -/
def traitBound (g : Grammar) (place : BoundPlace) : Reader Bool := do
  let hasParameters ← seesWord "for"
  g.forParameters
  let isConst ← sees fun ts => startsGroup .bracket ts || startsWord "const" ts
  require (!isConst || place.isConst)
  whenever (pure isConst) do
    if ← seesWord "const" then word "const" else inside .bracket (word "const")
  whenever (seesOp "?") do
    require !hasParameters
    op "?"
    require !(← seesWord "for")
  g.boundPath
  return isConst

/-- One bound of a type; whether it is a trait. -/
def bound (g : Grammar) (place : BoundPlace) : Reader Bool := do
  if ← sees startsLifetime then
    lifetime
    return false
  else if ← seesWord "use" then
    require place.isCapture
    capture
    return false
  else
    asWritten do
      let isConst ←
        if ← seesGroup .paren then inside .paren (g.traitBound place) else g.traitBound place
      return ((), isConst)
    return true

/-- Bounds up to what cannot be one. -/
def boundList (g : Grammar) (place : BoundPlace) : Reader Unit := do
  go ((← get).ahead.length + 1)
where
  isOver : Reader Bool := sees fun ts =>
    ts.isEmpty || ["," , ">", "=", ";"].any (startsOp · ts) || startsGroup .brace ts ||
      startsWord "where" ts || (startsOp ":" ts && !startsOp "::" ts)
  go : Nat → Reader Unit
    | 0 => failure
    | n + 1 => do
      if ← isOver then return
      discard (g.bound place)
      whenever (seesOp "+") do
        op "+"
        go n

/-- Whether a bound can follow. -/
def startsBound (isConst : Bool) : List Token → Bool
  | .ident _ :: _ => true
  | ts => startsLifetime ts || startsOp "::" ts || startsOp "?" ts || startsGroup .paren ts ||
      (isConst && startsGroup .bracket ts)

/-- The bounds that make a type, at least one of them a trait. -/
def traitBounds (g : Grammar) (place : BoundPlace) (isJoined : Bool) : Reader Unit := do
  require (← go ((← get).ahead.length + 1))
where
  go : Nat → Reader Bool
    | 0 => failure
    | n + 1 => do
      let isTrait ← g.bound place
      if isJoined && (← seesOp "+") then
        op "+"
        if ← sees (startsBound place.isConst) then return (← go n) || isTrait
      return isTrait

/-! ## Conditions -/

/-- A condition on a lifetime or a type. -/
def condition (g : Grammar) : Reader Unit := do
  if ← sees fun ts => startsLifetime ts && startsOp ":" (next ts) then
    lifetime
    op ":"
    lifetimeBounds
  else
    g.forParameters
    discard (g.type true)
    op ":"
    g.bounds

/-- Conditions on parameters. They have no parameters of their own. -/
def whereClause (g : Grammar) : Reader Unit :=
  whenever (seesWord "where") <| introduced (word "where") do
    require !(← sees startsParameters)
    commaList
      (sees fun ts => ts.isEmpty || startsGroup .brace ts || startsOp ";" ts || startsOp "=" ts)
      g.condition

end Grammar

end WireRecords.Host
