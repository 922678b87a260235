import WireRecords.Diagnostic
import WireRecords.Directive.Expectation

/-!
# Parsing directives

From the text of a directive to the directive, or to the reason why it is none.
-/
namespace WireRecords

namespace Directive

/-- Why a text is not a directive. -/
inductive SyntaxError where
  /-- None of these rules applies at the offset. -/
  | expected (rules : List Rule) (offset : Nat)
  /-- The rest of the text, up to its end `stop`, starts no field. -/
  | trailing (start stop : Nat)
  /-- A number that is not a 64-bit word. -/
  | oversized (digits : List Char)
  | invalidEndian (span : Span) (word : List Char)
  /-- A field with neither width nor type. -/
  | emptyField (span : Span) (id : String)
deriving DecidableEq, Repr, Inhabited

/-- The diagnostic for the directive called `name`, the one numbered `file`. -/
def SyntaxError.diagnostic (name : String) (file : Nat) : SyntaxError → Diagnostic
  | expected rules offset =>
    { code := some .syntaxError
      message := s!"failed to parse directive '{name}': expected " ++
        enumerate (rules.map Rule.name)
      labels := [⟨true, file, offset, offset, ""⟩] }
  | trailing start stop =>
    { code := some .missingTerminator
      message := s!"failed to parse directive '{name}': expected field or terminator"
      labels := [⟨true, file, start, stop, "unexpected trailing content"⟩] }
  | oversized digits =>
    { code := some .syntaxError
      message := "cannot convert '" ++ String.ofList digits ++ "' to usize" }
  | invalidEndian span word =>
    { code := some .invalidEndian
      message := "endian must be LE or BE"
      labels := [span.primary ("found `" ++ String.ofList word ++ "`")] }
  | emptyField span id =>
    { code := some .emptyField
      message := "width and type cannot both be empty"
      labels := [span.primary s!"in field `{id}`"] }

def digitValue (c : Char) : Nat :=
  if isDigit c then c.toNat - '0'.toNat
  else if 'a' ≤ c then c.toNat - 'a'.toNat + 10
  else c.toNat - 'A'.toNat + 10

/-- The value of digits, the most significant first. -/
def ofDigits (base : Nat) (digits : List Char) : Nat :=
  digits.foldl (fun n c => base * n + digitValue c) 0

def numberValue : List Char → Nat
  | '0' :: 'x' :: digits | '0' :: 'X' :: digits => ofDigits 16 digits
  | digits => ofDigits 10 digits

def word (digits : List Char) : Except SyntaxError Nat :=
  let n := numberValue digits
  if n < wordCount then .ok n else .error (.oversized digits)

def WidthTree.resolve : WidthTree → Except SyntaxError Width
  | number digits => do return .literal (← word digits)
  | field id => .ok (.field id)
  | binary op lhs rhs => do
    let lhs ← lhs.resolve
    let rhs ← rhs.resolve
    return .binary op lhs rhs

def TypeTree.resolve : TypeTree → Except SyntaxError TypeExpr
  | named path => .ok (.named path)
  | slice element => do return .slice (← element.resolve)
  | array digits element => do
    let length ← word digits
    let element ← element.resolve
    return .array length element
  | pointer target => do return .pointer (← target.resolve)
  | constant value => .ok (.constant value)

/-- Turns suffixes of a text into offsets and spans of the directive numbered `file`. -/
structure Place where
  file : Nat
  text : List Char

def Place.span (p : Place) (start rest : List Char) : Span :=
  let size := Text.byteSize p.text
  Span.ofOffsets p.file (lineStarts p.text) (size - Text.byteSize start) (size - Text.byteSize rest)

def resolveEndian (p : Place) : Option (List Char × List Char) → Except SyntaxError Endian
  | none => .ok .little
  | some (word, rest) =>
    match Endian.ofMark? (String.ofList word) with
    | some e => .ok e
    | none => .error (.invalidEndian (p.span (word ++ rest) rest) word)

def FieldTree.resolve (p : Place) (f : FieldTree) : Except SyntaxError FieldSyntax := do
  let width ← f.width.mapM WidthTree.resolve
  let type ← f.type.mapM TypeTree.resolve
  let endian ← resolveEndian p f.endian
  let span := p.span f.start f.rest
  if width.isNone && type.isNone then .error (.emptyField span f.id)
  else .ok ⟨span, f.id, width, type, endian⟩

def Head.resolve (p : Place) (h : Head) : Except SyntaxError Directive := do
  let fields ← h.fields.mapM (FieldTree.resolve p)
  return ⟨p.span p.text [], h.id.getD anonymous, fields⟩

/-- The fault of a text whose head is not complete. Text that opens no further field is blamed as a
whole. -/
def Head.fault (text : List Char) (h : Head) : SyntaxError :=
  let trailing := Text.trimStart h.rest
  if !trailing.isEmpty && trailing.head? != some ';' && !trailing.contains '[' then
    let size := Text.byteSize text
    .trailing (size - Text.byteSize trailing) size
  else
    let (rules, offset) := expectations text
    .expected rules offset

end Directive

/-- Parses the directive numbered `file`. -/
def Directive.parse (file : Nat) (text : String) : Except SyntaxError Directive :=
  let cs := text.toList
  let head := Head.read cs
  if head.isComplete then head.resolve ⟨file, cs⟩ else .error (head.fault cs)

end WireRecords
