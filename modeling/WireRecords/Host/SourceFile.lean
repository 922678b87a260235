import WireRecords.Host.Items
import WireRecords.Program.Lexer

/-!
# Program files

Reads the text of a program file, or of a single module.
-/
namespace WireRecords.Host

open Program (Token)
open Program.Lexer (withoutMark)

/-- Removes a first line that names an interpreter. The line starts like an attribute, but no
bracket follows. -/
def withoutInterpreter : List Char → List Char
  | '#' :: '!' :: cs =>
    if (Program.Lexer.skip cs.length cs).head? = some '[' then '#' :: '!' :: cs
    else cs.dropWhile (· ≠ '\n')
  | cs => cs

/-- The grammar for a text: forms cannot be nested deeper than the text is long. -/
def grammarFor (cs : List Char) : Grammar := grammar (2 * cs.length + 2)

/-- Reads all tokens of a text. -/
def readAll? {α : Type} (p : Grammar → Reader α) (cs : List Char) : Option α := do
  let ts ← Program.Lexer.tokens cs
  match ← (p (grammarFor cs)).run ⟨ts, []⟩ with
  | (a, ⟨[], _⟩) => some a
  | _ => none

/-- The items of a program file, or nothing if the text is none. -/
def outlines? (text : String) : Option (List Outline) :=
  readAll? (fun g => do
      g.innerAttributes
      Reader.untilEnd g.item)
    (withoutInterpreter (withoutMark text.toList))

/-- A module and the tokens of its parts. -/
structure Module where
  attributes : List Token := []
  visibility : List Token := []
  name : String
  body : List Token := []
  outlines : List Outline := []
deriving Inhabited

/-- A module that stands alone. Attributes inside it count as attributes before it. -/
def Grammar.soleModule (g : Grammar) : Reader Module := do
  let ((), attributes) ← Reader.aside g.outerAttributes
  let (_, visibility) ← Reader.aside Host.visibility
  Reader.optionalWord "unsafe"
  Reader.word "mod"
  let name ← moduleName
  if ← Reader.seesOp ";" then
    Reader.op ";"
    return { attributes, visibility, name }
  else
    let ((inner, outlines), body) ← Reader.inside .brace do
      let ((), inner) ← Reader.aside g.innerAttributes
      let (outlines, body) ← Reader.aside (Reader.untilEnd g.item)
      return ((inner, outlines), body)
    return { attributes := attributes ++ inner, visibility, name, body, outlines }

def Module.ofText? (text : String) : Option Module := readAll? Grammar.soleModule text.toList

end WireRecords.Host
