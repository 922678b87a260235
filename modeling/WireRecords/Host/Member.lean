import WireRecords.Host.Reader
import WireRecords.Program.Lexer

/-!
# Members

Members of values have names or numbers. A number is passed on in decimal digits, however it is
written.
-/
namespace WireRecords.Host

open Program (Token)
open Program.Lexer (hexValue?)

/-- The value of digits, among which underscores may stand. -/
def valueOfDigits? (base : Nat) : Option Nat → List Char → Option Nat
  | value?, [] => value?
  | value?, c :: cs =>
    if c = '_' then valueOfDigits? base value? cs
    else
      match hexValue? c with
      | some d =>
        if d < base then valueOfDigits? base (some (base * value?.getD 0 + d)) cs else none
      | none => none

/-- Numbers of members are words of 32 bits. -/
def memberBound : Nat := 0x100000000

/-- The member that a whole number without a suffix stands for. -/
def memberNumber? (cs : List Char) : Option Nat := do
  let value ← match cs with
    | '0' :: 'x' :: cs => valueOfDigits? 16 none cs
    | '0' :: 'o' :: cs => valueOfDigits? 8 none cs
    | '0' :: 'b' :: cs => valueOfDigits? 2 none cs
    | cs => valueOfDigits? 10 none cs
  if value < memberBound then some value else none

/-- The members that a number stands for: a number with a point is two members of each other, or
one if nothing follows the point. -/
def memberNumbers? (s : String) : Option (List Nat × Bool) :=
  let parts := s.splitOn "."
  let isOpen := parts.getLast? == some "" && 1 < parts.length
  let parts := if isOpen then parts.dropLast else parts
  (parts.mapM fun p => memberNumber? p.toList).map fun ns => (ns, isOpen)

namespace Reader

/-- The number of a member. -/
def memberNumber : Reader Unit := do
  let (t, _) ← aside take
  match t with
  | .literal s =>
    match Host.memberNumber? s.toList with
    | some n => pass [.literal (toString n)]
    | none => failure
  | _ => failure

/-- A member, by name or by number; whether it has a name. -/
def member : Reader Bool := do
  if ← sees startsName then
    discard name
    return true
  else
    memberNumber
    return false

/-- The members of members that one number stands for; whether another one has to follow. -/
def memberPath : Reader Bool := do
  let (t, _) ← aside take
  match t with
  | .literal s =>
    match memberNumbers? s with
    | some (ns, isOpen) =>
      pass ((ns.map fun n => [Token.literal (toString n)]).intersperse (Token.operator ".")).flatten
      if isOpen then pass (Token.operator ".")
      return isOpen
    | none => failure
  | _ => failure

end Reader

end WireRecords.Host
