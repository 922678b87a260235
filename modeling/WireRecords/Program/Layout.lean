/-!
# Layout

Text with places where a line may be broken, and the choice of the places that are used. Places are
grouped in boxes: a box that fits on the rest of the line is not broken at all; in one that does
not, either every place breaks, or each place does before which the line would get too long.
-/
namespace WireRecords.Program

/-- A place where a line may be broken. -/
structure Break where
  /-- Blanks that stand here if the line is not broken. -/
  blanks : Nat := 0
  /-- Added to the indentation of the line that starts here. -/
  offset : Int := 0
  /-- Whether a comma ends the line that is broken here. -/
  comma : Bool := false
  isNever : Bool := false
  /-- Whether there is no such place at the end of a box. -/
  isInner : Bool := false
deriving DecidableEq, Repr, Inhabited

inductive Doc where
  | text (text : String)
  | place (place : Break)
  /-- A box, with the indentation of its lines relative to the lines around. In a consistent box
  every place breaks or none does. -/
  | box (indent : Int) (isConsistent : Bool) (body : List Doc)
  /-- Takes no place, but is too wide for every line. -/
  | overflow
deriving Repr, Inhabited

namespace Doc

/-- Wider than any line. -/
def unbounded : Nat := 0xffff

mutual

/-- The width on one line, in bytes. -/
def width : Doc → Nat
  | text s => s.utf8ByteSize
  | place b => b.blanks
  | box _ _ body => widthOf body
  | overflow => unbounded

def widthOf : List Doc → Nat
  | [] => 0
  | d :: ds => d.width + widthOf ds

end

/-- The width up to the next place; `after` is what follows the documents. -/
def reach (after : Nat) : List Doc → Nat
  | [] => after
  | place _ :: _ => 0
  | d :: ds => d.width + reach after ds

/-- How the places of a box are treated. -/
inductive Mode where
  /-- The box fits, and nothing is broken. -/
  | fitting
  /-- Every place is broken. -/
  | consistent
  /-- A place is broken if what follows does not fit. -/
  | filling
deriving DecidableEq, Repr, Inhabited

/-- The width of a line. -/
def margin : Int := 89

/-- The least room on a line, whatever its indentation. -/
def minRoom : Int := 60

/-- What is printed so far. -/
structure Printed where
  output : String := ""
  /-- The room left on the line. -/
  room : Int := margin
  /-- Blanks due before the next text of the line. -/
  pending : Nat := 0
deriving DecidableEq, Repr, Inhabited

namespace Printed

/-- Writes the blanks that are due. -/
def indented (p : Printed) : String :=
  p.output ++ String.ofList (List.replicate p.pending ' ')

def put (p : Printed) (s : String) : Printed :=
  { p with output := p.indented ++ s, pending := 0, room := p.room - s.utf8ByteSize }

/-- Passes a place after which `size` follows up to the next one. -/
def pass (p : Printed) (mode : Mode) (indent : Int) (b : Break) (size : Nat) : Printed :=
  let isFitting :=
    b.isNever ||
      match mode with
      | .fitting => true
      | .consistent => false
      | .filling => size ≤ p.room
  if isFitting then { p with pending := p.pending + b.blanks, room := p.room - b.blanks }
  else
    { output := (if b.comma then p.indented ++ "," else p.output) ++ "\n"
      pending := (indent + b.offset).toNat
      room := max (margin - (indent + b.offset)) minRoom }

end Printed

/-- Prints documents. `after` is the width of what follows them up to the next place. -/
def print (mode : Mode) (indent : Int) (after : Nat) (p : Printed) : List Doc → Printed
  | [] => p
  | text s :: ds => print mode indent after (p.put s) ds
  | place b :: ds => print mode indent after (p.pass mode indent b (b.blanks + reach after ds)) ds
  | overflow :: ds => print mode indent after p ds
  | box offset isConsistent body :: ds =>
    let next := reach after ds
    let p :=
      if p.room < widthOf body + next then
        print (if isConsistent then .consistent else .filling) (indent + offset) next p body
      else print .fitting indent next p body
    print mode indent after p ds

/-- The text of documents. -/
def render (ds : List Doc) : String := (print .filling 0 0 {} ds).output

end Doc

end WireRecords.Program
