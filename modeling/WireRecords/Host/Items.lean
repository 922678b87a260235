import WireRecords.Host.Statements

/-!
# Items

The items of a program file, with their outlines. Structs, enumerations and names for types declare
types; methods declare procedures of the type they belong to. An item of an unusual form declares
nothing, and is passed on as it is written.
-/
namespace WireRecords.Host

open Program (Token)
open Reader

namespace Grammar

/-! ## Functions -/

/-- The object a method is called on. -/
def receiver (g : Grammar) : Reader Unit := do
  if ← seesOp "&" then
    op "&"
    whenever (sees startsLifetime) lifetime
    optionalWord "mut"
    word "self"
  else
    optionalWord "mut"
    word "self"
    whenever (seesOp ":") do
      op ":"
      discard (g.type true)

/-- Whether a parameter is the object a method is called on. -/
def startsReceiver (ts : List Token) : Bool :=
  let skipWord (w : String) (ts : List Token) := if startsWord w ts then next ts else ts
  let isReference := startsOp "&" ts
  let ts := if isReference then
      let ts := next ts
      if startsLifetime ts then next ts else ts
    else ts
  let ts := skipWord "mut" ts
  startsWord "self" ts && (isReference || !startsOp "::" (next ts))

/-- A parameter, which may stand for all that follow; whether it does. Only the first can be the
object a method is called on. A type with arguments may stand without a name. -/
def parameter (g : Grammar) (isFirst : Bool) : Reader Bool := do
  g.outerAttributes
  if ← seesOp "..." then
    op "..."
    return true
  else if ← sees startsReceiver then
    require isFirst
    g.receiver
  else if ← sees fun ts => startsName ts && startsOp "<" (next ts) then
    pass ([.ident "_"] ++ Token.operator ":")
    discard (g.type true)
  else
    discard g.pattern
    op ":"
    if ← seesOp "..." then
      op "..."
      return true
    discard (g.type true)
  return false

def parameters (g : Grammar) : Reader Unit :=
  inside .paren do
    go true ((← get).ahead.length + 1)
where
  go (isFirst : Bool) : Nat → Reader Unit
    | 0 => failure
    | n + 1 => do
      if ← atEnd then return
      let isLast ← g.parameter isFirst
      if isLast then optionalOp ","
      else whenever (sees (!·.isEmpty)) do
        op ","
        go false n

/-- The words before `fn`; whether a function found elsewhere is said to be safe. -/
def functionWords (isForeign : Bool) : Reader Bool := do
  optionalWord "const"
  optionalWord "async"
  let isSafe ← sees fun ts => isForeign && startsWord "safe" ts
  if isSafe then word "safe" else optionalWord "unsafe"
  abi
  return isSafe

/-- Whether a function follows. -/
def startsFunction (isForeign : Bool) (ts : List Token) : Bool :=
  match (functionWords isForeign).run ⟨ts, []⟩ with
  | some (_, c) => startsWord "fn" c.ahead
  | none => false

/-- A function from its `fn` up to its body, with its name. -/
def signature (g : Grammar) : Reader String := do
  word "fn"
  let n ← name
  g.genericParameters
  g.parameters
  g.result true
  g.whereClause
  return n

/-- A function whose body may be missing; its name, and whether it has a body. -/
def function (g : Grammar) : Reader (String × Bool) := do
  discard (functionWords false)
  let n ← g.signature
  if ← seesOp ";" then
    op ";"
    return (n, false)
  else
    g.block true
    return (n, true)

/-! ## Types -/

/-- A field with a name. One without a name may hold a record or union that has none either. -/
def namedField (g : Grammar) : Reader Unit := do
  g.outerAttributes
  discard visibility
  let isUnnamed ← seesWord "_"
  if isUnnamed then word "_" else discard name
  op ":"
  let isNested ← sees fun ts => isUnnamed &&
    (startsWord "struct" ts || (startsWord "union" ts && startsGroup .brace (next ts)))
  if isNested then
    asWritten do
      discard anyName
      g.fields
      return ((), true)
  else discard (g.type true)

def fieldsForm (g : Grammar) : Reader Unit := commaGroup .brace g.namedField

def unnamedField (g : Grammar) : Reader Unit := do
  g.outerAttributes
  discard visibility
  discard (g.type true)

def struct (g : Grammar) : Reader (List Outline) := do
  word "struct"
  let n ← name
  g.genericParameters
  let hasConditions ← seesWord "where"
  g.whereClause
  if !hasConditions && (← seesGroup .paren) then
    commaGroup .paren g.unnamedField
    g.whereClause
    op ";"
  else if ← seesGroup .brace then g.fields
  else op ";"
  return [.type n]

/-- A case of an enumeration. Its visibility is not passed on. -/
def variant (g : Grammar) : Reader Unit := do
  g.outerAttributes
  discard (aside visibility)
  discard name
  if ← seesGroup .brace then g.fields
  else whenever (seesGroup .paren) (commaGroup .paren g.unnamedField)
  whenever (seesOp "=") do
    op "="
    g.expr true

def enumeration (g : Grammar) : Reader (List Outline) := do
  word "enum"
  let n ← name
  g.genericParameters
  g.whereClause
  commaGroup .brace g.variant
  return [.type n]

def union (g : Grammar) : Reader Unit := do
  word "union"
  discard name
  g.genericParameters
  g.whereClause
  g.fields

/-- Where a name for a type may have its conditions. -/
inductive ConditionPlace where
  | before
  | after
  | either
deriving DecidableEq, Repr, Inhabited

/-- A name for a type. -/
structure NamedType where
  name : String
  hasBounds : Bool
  /-- Whether the type is given. -/
  hasType : Bool
deriving DecidableEq, Repr, Inhabited

/-- A name for a type has the type and no bounds. -/
def NamedType.isUsual (t : NamedType) : Bool := t.hasType && !t.hasBounds

def namedType (g : Grammar) (place : ConditionPlace) : Reader NamedType := do
  word "type"
  let name ← name
  g.genericParameters
  let hasBounds ← seesOp ":"
  g.optionalBounds
  let hasConditions ← sees fun ts => place ≠ .after && startsWord "where" ts
  if hasConditions then g.whereClause
  let hasType ← seesOp "="
  whenever (seesOp "=") do
    op "="
    discard (g.type true)
  if place ≠ .before && !hasConditions then g.whereClause
  op ";"
  return { name, hasBounds, hasType }

/-! ## Constants and imports -/

/-- The parts that a constant may have. -/
structure ConstantForm where
  hasValue : Bool
  isGeneric : Bool
deriving DecidableEq, Repr, Inhabited

def constant (g : Grammar) : Reader ConstantForm := do
  word "const"
  if ← seesWord "_" then word "_" else discard name
  let hasParameters ← seesOp "<"
  g.genericParameters
  op ":"
  discard (g.type true)
  let hasValue ← seesOp "="
  whenever (seesOp "=") do
    op "="
    g.expr true
  let hasConditions ← seesWord "where"
  g.whereClause
  op ";"
  return { hasValue, isGeneric := hasParameters || hasConditions }

/-- A constant has a value, and neither parameters nor conditions. -/
def ConstantForm.isUsual (c : ConstantForm) : Bool := c.hasValue && !c.isGeneric

/-- A variable of a program; whether it has both a type and a value. -/
def static (g : Grammar) : Reader Bool := do
  word "static"
  optionalWord "mut"
  discard name
  let hasType ← seesOp ":"
  whenever (seesOp ":") do
    op ":"
    discard (g.type true)
  let hasValue ← seesOp "="
  require (hasType || hasValue)
  whenever (seesOp "=") do
    op "="
    g.expr true
  op ";"
  return hasType && hasValue

end Grammar

/-- The names that are imported from a path, nested `n` deep at most; whether a path in braces
starts from the root, which it can only if no path stands before the braces. -/
def importTree : Nat → Bool → Reader Bool
  | 0, _ => failure
  | n + 1, isStart => do
    if ← seesOp "*" then
      op "*"
      return false
    else if ← seesGroup .brace then
      inside .brace do
        return !(← untilEnd do
          let isRooted ← sees fun ts => isStart && startsOp "::" ts
          if isRooted then op "::"
          let hasRooted ← importTree n (isStart && !isRooted)
          whenever (sees (!·.isEmpty)) (op ",")
          return if isRooted || hasRooted then [()] else []).isEmpty
    else
      require (← sees fun ts =>
        startsName ts || ["self", "super", "crate", "try"].any (startsWord · ts))
      discard anyName
      if ← seesOp "::" then
        op "::"
        importTree n false
      else
        whenever (seesWord "as") do
          word "as"
          if ← seesWord "_" then word "_" else discard name
        return false

/-- An import; whether a path in braces starts from the root. -/
def imports : Reader Bool := do
  word "use"
  let isRooted ← seesOp "::"
  optionalOp "::"
  let hasRooted ← importTree ((← get).ahead.length + 1) !isRooted
  op ";"
  return hasRooted

def externCrate : Reader Unit := do
  word "extern"
  word "crate"
  if ← seesWord "self" then word "self" else discard name
  whenever (seesWord "as") do
    word "as"
    if ← seesWord "_" then word "_" else discard name
  op ";"

/-- The use of a macro as an item. It may name what it declares if it stands alone. -/
def macroItem (isMember : Bool) : Reader Unit := do
  require (← sees startsMacro)
  plainPath
  op "!"
  whenever (sees fun ts => !isMember && (startsName ts || startsWord "try" ts)) (discard anyName)
  if !(← macroArguments) then op ";"

/-- The declaration of a macro by a keyword. -/
def macroDeclaration : Reader Unit := do
  word "macro"
  discard name
  whenever (seesGroup .paren) (group .paren)
  group .brace

namespace Grammar

/-! ## Items with members -/

/-- A member of the methods of a type; its name if it is a method with a body. -/
def methodItem (g : Grammar) : Reader (List String) :=
  asWritten do
    g.outerAttributes
    let isVisible ← visibility
    let isDefault ← sees fun ts => startsWord "default" ts && !startsOp "!" (next ts)
    if isDefault then word "default"
    if ← sees (startsFunction false) then
      let (n, hasBody) ← g.function
      return (if hasBody then [n] else [], !hasBody)
    else if ← seesWord "const" then return ([], !(← g.constant).isUsual)
    else if ← seesWord "type" then return ([], !(← g.namedType .after).isUsual)
    else
      require (!isVisible && !isDefault)
      macroItem true
      return ([], false)

/-- A member of a trait. -/
def traitItem (g : Grammar) : Reader (List Unit) :=
  asWritten do
    g.outerAttributes
    let isVisible ← visibility
    let isDefault ← seesWord "default"
    if isDefault then word "default"
    let isMarked := isVisible || isDefault
    if ← sees (startsFunction false) then
      discard g.function
      return ([], isMarked)
    else if ← seesWord "const" then return ([], (← g.constant).isGeneric || isMarked)
    else if ← seesWord "type" then
      discard (g.namedType .after)
      return ([], isMarked)
    else
      require !isMarked
      macroItem true
      return ([], false)

/-- A declaration of something found elsewhere. -/
def foreignItem (g : Grammar) : Reader (List Unit) :=
  asWritten do
    g.outerAttributes
    let isVisible ← visibility
    if ← sees (startsFunction true) then
      let isSafe ← functionWords true
      discard g.signature
      let hasBody ← seesGroup .brace
      if hasBody then g.block true else op ";"
      return ([], isSafe || hasBody)
    let isMarked ← sees fun ts =>
      (startsWord "safe" ts || startsWord "unsafe" ts) && startsWord "static" (next ts)
    if isMarked then discard anyName
    if ← seesWord "static" then
      word "static"
      optionalWord "mut"
      discard name
      op ":"
      discard (g.type true)
      let hasValue ← seesOp "="
      whenever (seesOp "=") do
        op "="
        g.expr true
      op ";"
      return ([], isMarked || hasValue)
    else if ← seesWord "type" then
      let t ← g.namedType .either
      return ([], t.hasBounds || t.hasType)
    else
      require !isVisible
      macroItem true
      return ([], false)

def foreignModule (g : Grammar) : Reader Unit := do
  optionalWord "unsafe"
  abi
  inside .brace do
    g.innerAttributes
    discard (untilEnd g.foreignItem)

/-- Methods of a type, or of a trait for a type; whether they are of an unusual form. Only methods
of a trait can be negative. -/
def methods (g : Grammar) (isVisible : Bool) : Reader (List Outline × Bool) := do
  optionalWord "default"
  optionalWord "unsafe"
  word "impl"
  whenever (sees startsParameters) g.genericParameters
  let isConst ← sees fun ts =>
    startsWord "const" ts || (startsOp "?" ts && startsWord "const" (next ts))
  whenever (pure isConst) do
    optionalOp "?"
    word "const"
  let isNegative ← sees fun ts => startsOp "!" ts && !startsGroup .brace (next ts)
  whenever (pure isNegative) (op "!")
  let first ← g.type true
  let isTrait ← seesWord "for"
  require (isTrait || !isNegative)
  let target ← if isTrait then do
      word "for"
      g.type true
    else pure first
  let isUnusual := isVisible || isConst || (isTrait && match first with
    | .path form => form.isQualified
    | _ => true)
  g.whereClause
  let names ← inside .brace do
    g.innerAttributes
    untilEnd g.methodItem
  return (if isUnusual then [] else [.methods target.name? names], isUnusual)

/-- A trait from its parameters on. -/
def traitRest (g : Grammar) : Reader Unit := do
  g.optionalBounds
  g.whereClause
  inside .brace do
    g.innerAttributes
    discard (untilEnd g.traitItem)

/-- A trait, or a name for bounds, which has no words before it. -/
def trait (g : Grammar) : Reader Unit := do
  let isMarked ← sees fun ts => !startsWord "trait" ts
  optionalWord "unsafe"
  optionalWord "auto"
  word "trait"
  discard name
  g.genericParameters
  if !isMarked && (← seesOp "=") then
    op "="
    g.boundList { isConst := false }
    g.whereClause
    op ";"
  else g.traitRest

/-- The name of a module. -/
def moduleName : Reader String := do
  if ← seesWord "try" then anyName else name

/-- A module, which may be found elsewhere. -/
def module (g : Grammar) : Reader (List Outline) := do
  optionalWord "unsafe"
  word "mod"
  discard moduleName
  if ← seesOp ";" then
    op ";"
    return []
  else
    let items ← inside .brace do
      g.innerAttributes
      untilEnd g.item
    return [.module items]

/-- An item after its attributes and visibility; whether it is of an unusual form. -/
def itemRest (g : Grammar) (isVisible : Bool) : Reader (List Outline × Bool) := do
  let ts := (← get).ahead
  let after := next ts
  let isWord (w : String) := startsWord w ts
  let isNext (w : String) := startsWord w after
  let usual (p : Reader (List Outline)) : Reader (List Outline × Bool) := do return (← p, false)
  let nothing (p : Reader Unit) : Reader (List Outline × Bool) := do
    p
    return ([], false)
  if startsFunction false ts then return ([], !(← g.function).2)
  else if isWord "extern" && isNext "crate" then nothing externCrate
  else if isWord "extern" || (isWord "unsafe" && isNext "extern") then
    require !isVisible
    nothing g.foreignModule
  else if isWord "use" then return ([], ← imports)
  else if isWord "static" then return ([], !(← g.static))
  else if isWord "const" then return ([], !(← g.constant).isUsual)
  else if isWord "mod" || (isWord "unsafe" && isNext "mod") then usual g.module
  else if isWord "type" then
    let t ← g.namedType .before
    return (if t.isUsual then [.type t.name] else [], !t.isUsual)
  else if isWord "struct" then usual g.struct
  else if isWord "enum" then usual g.enumeration
  else if isWord "union" && startsName after then nothing g.union
  else if isWord "trait" || (isWord "auto" && isNext "trait") ||
      (isWord "unsafe" && (isNext "trait" || isNext "auto")) then nothing g.trait
  else if isWord "impl" || (isWord "unsafe" && isNext "impl") ||
      (isWord "default" && !startsOp "!" after) then g.methods isVisible
  else if isWord "macro" then
    macroDeclaration
    return ([], true)
  else
    require !isVisible
    nothing (macroItem false)

def itemForm (g : Grammar) : Reader (List Outline) :=
  asWritten do
    g.outerAttributes
    g.itemRest (← visibility)

end Grammar

/-- The grammar, with forms nested `n` deep at most. -/
def grammar : Nat → Grammar
  | 0 => .empty
  | n + 1 =>
    let g := grammar n
    { type := g.typeForm
      bounds := g.boundList {}
      expr := fun hasRecords => discard (g.exprForm hasRecords)
      statement := g.statementForm
      pattern := g.patternForm
      block := g.blockForm
      fields := g.fieldsForm
      item := g.itemForm }

end WireRecords.Host
