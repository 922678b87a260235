/-!
# Positions and spans

Where something stands in the text of a directive. Offsets count bytes; lines and columns count
from zero.
-/
namespace WireRecords

structure Position where
  offset : Nat := 0
  line : Nat := 0
  column : Nat := 0
deriving DecidableEq, Repr, Inhabited

namespace Position

/-- The last line that starts at or before `offset`, searched from line `line` on. -/
def locate (offset : Nat) : Position → Nat → List Nat → Position
  | found, _, [] => found
  | found, line, start :: starts =>
    if offset < start then found
    else locate offset ⟨offset, line, offset - start⟩ (line + 1) starts

/-- The position of an offset in a text whose lines start at `lineStarts`. -/
def ofOffset (lineStarts : List Nat) (offset : Nat) : Position :=
  locate offset ⟨offset, 0, offset⟩ 0 lineStarts

/-- Positions are ordered by offset, then line, then column. -/
def order (a b : Position) : Ordering :=
  (compare a.offset b.offset).then ((compare a.line b.line).then (compare a.column b.column))

end Position

/-- The offsets at which lines start: zero, and behind every line feed. -/
def lineStarts (text : List Char) : List Nat :=
  0 :: go 0 text
where
  go : Nat → List Char → List Nat
    | _, [] => []
    | offset, c :: cs =>
      let next := offset + c.utf8Size
      if c = '\n' then next :: go next cs else go next cs

/-- A stretch of the directive numbered `file`. -/
structure Span where
  file : Nat := 0
  start : Position := {}
  stop : Position := {}
deriving DecidableEq, Repr, Inhabited

namespace Span

def ofOffsets (file : Nat) (lineStarts : List Nat) (start stop : Nat) : Span :=
  ⟨file, Position.ofOffset lineStarts start, Position.ofOffset lineStarts stop⟩

/-- Line and columns when the span stays on one line, both ends otherwise. -/
def text (s : Span) : String :=
  if s.start.line = s.stop.line then
    s!"{s.start.line}:{s.start.column}-{s.stop.column}"
  else
    s!"{s.start.line}:{s.start.column}-{s.stop.line}:{s.stop.column}"

end Span

end WireRecords
