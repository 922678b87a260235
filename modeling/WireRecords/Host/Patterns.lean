import WireRecords.Host.Member
import WireRecords.Host.Types

/-!
# Patterns

A range in a pattern may be open at an end. In the pattern of a slice such a range stands in
parentheses.
-/
namespace WireRecords.Host

open Program (Token)
open Reader

namespace Grammar

/-- Whether another alternative follows. -/
def startsAlternative (ts : List Token) : Bool :=
  startsOp "|" ts && !startsOp "||" ts && !startsOp "|=" ts

/-- Alternatives, separated by `|`. One may also stand before the first. The result is whether they
are a single range that is open at an end. -/
def alternatives (g : Grammar) : Reader Bool := do
  let isMarked ← seesOp "|"
  optionalOp "|"
  let isOpen ← g.pattern
  let isSeveral ← sees startsAlternative
  repeatWhile (sees startsAlternative) do
    op "|"
    discard g.pattern
  return isOpen && !isMarked && !isSeveral

def patterns (g : Grammar) : Reader Unit := discard g.alternatives

/-! ## Ranges -/

/-- What stands where a range is open at its end. -/
def startsOpenEnd (ts : List Token) : Bool :=
  ts.isEmpty || ["|", "=", ",", ";"].any (startsOp · ts) ||
    (startsOp ":" ts && !startsOp "::" ts) || startsWord "if" ts

/-- An end of a range. -/
def rangeBound (g : Grammar) : Reader Unit := do
  if ← sees startsLiteral then literal
  else if ← seesWord "const" then
    word "const"
    g.block true
  else
    require (← sees fun ts => startsSegment ts || startsOp "::" ts || startsOp "<" ts)
    discard (g.path true)

/-- The mark of a range and its end; whether it is open there. Three points stand for a range that
includes its end. -/
def rangeRest (g : Grammar) : Reader Bool := do
  let isClosed ← sees fun ts => startsOp "..=" ts || startsOp "..." ts
  if ← seesOp "..." then
    discard (aside (op "..."))
    pass (Token.operator "..=")
  else if ← seesOp "..=" then op "..="
  else op ".."
  let isOpen ← sees startsOpenEnd
  require !(isClosed && isOpen)
  if !isOpen then g.rangeBound
  return isOpen

/-! ## Records -/

/-- A field in the pattern of a record. -/
def fieldPattern (g : Grammar) : Reader Unit := do
  let isBound ← sees fun ts => ["box", "ref", "mut"].any (startsWord · ts)
  if isBound then
    optionalWord "box"
    optionalWord "ref"
    optionalWord "mut"
    discard name
  else
    let isNamed ← member
    if !isNamed || (← seesOp ":") then
      op ":"
      g.patterns

/-- The fields in the pattern of a record. The last may stand for all others. -/
def fieldPatterns (g : Grammar) : Reader Unit :=
  inside .brace do
    go ((← get).ahead.length + 1)
where
  go : Nat → Reader Unit
    | 0 => failure
    | n + 1 =>
      whenever (sees (!·.isEmpty)) do
        g.outerAttributes
        if ← seesOp ".." then op ".."
        else
          g.fieldPattern
          whenever (sees (!·.isEmpty)) do
            op ","
            go n

/-! ## Forms of patterns -/

/-- A pattern that starts with a path. -/
def pathPattern (g : Grammar) : Reader Bool := do
  let form ← g.path true
  if !form.isQualified && form.isPlain && (← sees startsMacroCall) then
    op "!"
    discard macroArguments
    return false
  else if ← seesGroup .brace then
    g.fieldPatterns
    return false
  else if ← seesGroup .paren then
    commaGroup .paren g.patterns
    return false
  else if ← seesOp ".." then g.rangeRest
  else return false

/-- Whether a pattern starts with a path, and is more than a name. -/
def startsPathPattern (ts : List Token) : Bool :=
  let after := next ts
  (startsName ts && (startsOp "::" after || startsOp "!" after || startsGroup .brace after ||
    startsGroup .paren after || startsOp ".." after)) ||
  (startsWord "self" ts && startsOp "::" after) || startsOp "::" ts || startsOp "<" ts ||
  ["Self", "super", "crate"].any (startsWord · ts)

def patternForm (g : Grammar) : Reader Bool := do
  let closed (p : Reader Unit) : Reader Bool := do
    p
    return false
  if ← sees startsPathPattern then g.pathPattern
  else if ← seesWord "_" then closed (word "_")
  else if ← seesWord "box" then
    closed <| asWritten do
      word "box"
      discard g.pattern
      return ((), true)
  else if (← sees startsLiteral) || (← seesWord "const") then
    g.rangeBound
    if ← seesOp ".." then g.rangeRest else return false
  else if ← sees fun ts => startsName ts || ["ref", "mut", "self"].any (startsWord · ts) then
    closed do
      optionalWord "ref"
      optionalWord "mut"
      if ← seesWord "self" then word "self" else discard name
      whenever (seesOp "@") do
        op "@"
        discard g.pattern
  else if ← seesOp "&" then
    closed do
      op "&"
      optionalWord "mut"
      discard g.pattern
  else if ← seesGroup .paren then closed (commaGroup .paren g.patterns)
  else if ← seesGroup .bracket then
    closed <| commaGroup .bracket do
      require !(← g.alternatives)
  else
    require !(← seesOp "...")
    -- Without an end the mark stands for what is left out, and is no range.
    return !(← g.rangeRest)

end Grammar

end WireRecords.Host
