import WireRecords.Span

/-!
# Diagnostics

What is told about a rejected directive: a code, a message, and labels that point into the text.
-/
namespace WireRecords

inductive Code where
  | syntaxError
  | emptyField
  | invalidEndian
  | missingTerminator
  | duplicateRecord
  | duplicateField
  | undeclaredWidthField
  | forwardWidthField
  | invalidWidthField
  | widthMismatch
  | missingSliceWidth
  | invalidDynamicWidth
  | invalidWidthExpression
  | recursiveRecord
  | invalidElement
  | invalidPointer
  | missingMetadata
  | sealedRecord
deriving DecidableEq, Repr, Inhabited

namespace Code

def number : Code → Nat
  | syntaxError => 1
  | emptyField => 2
  | invalidEndian => 3
  | missingTerminator => 4
  | duplicateRecord => 5
  | duplicateField => 6
  | undeclaredWidthField => 10
  | forwardWidthField => 11
  | invalidWidthField => 12
  | widthMismatch => 13
  | missingSliceWidth => 14
  | invalidDynamicWidth => 15
  | invalidWidthExpression => 16
  | recursiveRecord => 17
  | invalidElement => 18
  | invalidPointer => 19
  | missingMetadata => 20
  | sealedRecord => 21

def text (c : Code) : String := "E" ++ toString c.number

end Code

/-- A remark on the bytes from `start` to `stop` of a directive. A primary label is on the cause,
others on what helps to understand it. -/
structure Label where
  isPrimary : Bool
  file : Nat
  start : Nat
  stop : Nat
  message : String := ""
deriving DecidableEq, Repr, Inhabited

def Span.primary (s : Span) (message : String := "") : Label :=
  ⟨true, s.file, s.start.offset, s.stop.offset, message⟩

def Span.secondary (s : Span) (message : String) : Label :=
  ⟨false, s.file, s.start.offset, s.stop.offset, message⟩

/-- A directive that has been looked at, under the name that diagnostics give it. -/
structure Source where
  name : String
  text : String
deriving DecidableEq, Repr, Inhabited

structure Diagnostic where
  code : Option Code
  message : String
  labels : List Label := []
deriving DecidableEq, Repr, Inhabited

end WireRecords
