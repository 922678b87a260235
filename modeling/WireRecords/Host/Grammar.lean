import WireRecords.Host.Reader

/-!
# The grammar of program files

The forms of a program file are nested in each other. What each form consists of is said in the
modules that follow, given readers for the forms inside it. Here are the forms that stand before
others: attributes, visibility, and the like.
-/
namespace WireRecords.Host

open Program (Token Delimiter)
open Reader

/-- What an expression looks like from outside. -/
inductive Shape where
  /-- Ends with a block, like a loop or a branch. -/
  | block
  /-- The use of a macro, whose arguments may stand in braces. -/
  | call (isBrace : Bool)
  | comparison
  | range
  /-- Of an unusual form, which is passed on as it is written. -/
  | written
  | plain
deriving DecidableEq, Repr, Inhabited

/-- What is known of a path. -/
structure PathForm where
  /-- The last segment. -/
  name : String
  /-- Whether no segment has arguments. -/
  isPlain : Bool := true
  /-- Whether the path starts from a type in angle brackets. -/
  isQualified : Bool := false
  /-- Whether the path is one segment, with nothing before it. -/
  isSingle : Bool := true
deriving DecidableEq, Repr, Inhabited

/-- What a type looks like from outside. -/
inductive TypeForm where
  | path (form : PathForm)
  /-- Bounds that are a type together; whether there is only one. -/
  | bounds (isSingle : Bool)
  | parenthesized (inner : TypeForm)
  /-- The use of a macro. -/
  | call
  | other
deriving DecidableEq, Repr, Inhabited

/-- The name of a type that is given by a path, which may stand in parentheses. -/
def TypeForm.name? : TypeForm → Option String
  | path form => some form.name
  | parenthesized inner => inner.name?
  | _ => none

/-- Readers for the forms that may be nested in others. -/
structure Grammar where
  /-- A type. Bounds joined by `+` are read if asked for. -/
  type : Bool → Reader TypeForm
  /-- Bounds joined by `+`. -/
  bounds : Reader Unit
  /-- An expression. Without constructions of records, a brace ends it. -/
  expr : Bool → Reader Unit
  /-- An expression that stands as a statement. One that ends with a block is not continued by an
  operator. -/
  statement : Reader Shape
  /-- A pattern without alternatives; whether it is a range that is open at an end. -/
  pattern : Reader Bool
  /-- Statements in braces. Attributes of the whole may stand before them if asked for. -/
  block : Bool → Reader Unit
  /-- Fields with names, in braces. -/
  fields : Reader Unit
  /-- An item, with its outline. -/
  item : Reader (List Outline)

/-- Nothing can be read. -/
def Grammar.empty : Grammar where
  type _ := failure
  bounds := failure
  expr _ := failure
  statement := failure
  pattern := failure
  block _ := failure
  fields := failure
  item := failure

/-- A path without arguments. -/
def plainPath : Reader Unit := do
  optionalOp "::"
  let segment : Reader Unit := do
    require (← sees startsSegment)
    discard anyName
  segment
  repeatWhile (seesOp "::") do
    op "::"
    segment

/-! ## Attributes -/

namespace Grammar

/-- What stands between the brackets of an attribute. -/
def attributeBody (g : Grammar) : Reader Unit := do
  if ← seesWord "unsafe" then word "unsafe" else plainPath
  if ← seesOp "=" then
    op "="
    require !(← seesOp "#")
    g.expr true
  else whenever (sees (!·.isEmpty)) do
    require (← sees fun ts => [Delimiter.paren, .bracket, .brace].any (startsGroup · ts))
    discard take

def outerAttributes (g : Grammar) : Reader Unit :=
  repeatWhile (seesOp "#") do
    op "#"
    inside .bracket g.attributeBody

def innerAttributes (g : Grammar) : Reader Unit :=
  repeatWhile (sees fun ts => startsOp "#" ts && startsOp "!" (next ts)) do
    op "#"
    op "!"
    inside .bracket g.attributeBody

end Grammar

/-! ## Words before items -/

/-- Whether a group restricts the visibility before it. -/
def restrictsVisibility : List Token → Bool
  | .group .paren [.ident n] :: _ => ["crate", "self", "super"].contains n
  | .group .paren (.ident n :: _) :: _ => n == "in"
  | _ => false

/-- The visibility of an item; whether there is one. -/
def visibility : Reader Bool := do
  if !(← seesWord "pub") then return false
  word "pub"
  whenever (sees restrictsVisibility) do
    inside .paren do
      if ← seesWord "in" then
        word "in"
        plainPath
      else discard take
  return true

/-- The binary interface of a function. -/
def abi : Reader Unit :=
  whenever (seesWord "extern") do
    word "extern"
    whenever (sees startsText) (discard take)

/-! ## Macros -/

/-- A macro's arguments, which are not looked at; whether they stand in braces. -/
def macroArguments : Reader Bool := do
  match ← take with
  | .group d _ => return d == .brace
  | _ => failure

/-- Whether a macro follows. -/
def startsMacro (ts : List Token) : Bool :=
  startsName ts || startsOp "::" ts || ["self", "super", "crate"].any (startsWord · ts)

/-- Whether the arguments of a macro follow its name. -/
def startsMacroCall (ts : List Token) : Bool := startsOp "!" ts && !startsOp "!=" ts

/-- Whether something that only the compiler provides follows. -/
def startsBuiltin (ts : List Token) : Bool := startsWord "builtin" ts && startsOp "#" (next ts)

/-- Something that only the compiler provides. -/
def builtin : Reader Unit :=
  asWritten do
    word "builtin"
    op "#"
    discard name
    group .paren
    return ((), true)

end WireRecords.Host
