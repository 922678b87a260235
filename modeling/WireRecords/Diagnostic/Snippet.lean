import WireRecords.Diagnostic
import WireRecords.Text.Columns

/-!
# Diagnostics for the terminal

A diagnostic is shown as a headline, followed by the labelled lines of each directive it refers to.
Labels within one line are carets under it; a label over several lines is a bracket to its left.
-/
namespace WireRecords.Snippet

/-- A character at its offset in a line, with the columns it takes. -/
structure Cell where
  offset : Nat
  char : Char
  columns : Nat
deriving DecidableEq, Repr, Inhabited

/-- The characters of a line. A tab reaches to the next multiple of four columns. -/
def cells (line : List Char) : List Cell :=
  go 0 0 line
where
  go : Nat → Nat → List Char → List Cell
    | _, _, [] => []
    | offset, column, c :: cs =>
      let columns := if c = '\t' then 4 - column % 4 else Text.columns c
      ⟨offset, c, columns⟩ :: go (offset + c.utf8Size) (column + columns) cs

def repeated (c : Char) (count : Nat) : String := String.ofList (List.replicate count c)

def blanks (count : Nat) : String := repeated ' ' count

def Cell.text (c : Cell) : String := if c.char = '\t' then blanks c.columns else toString c.char

def concat (parts : List String) : String := parts.foldl (· ++ ·) ""

/-- A label within one line, by offsets in that line. -/
structure Mark where
  isPrimary : Bool
  start : Nat
  stop : Nat
  message : String
deriving DecidableEq, Repr, Inhabited

namespace Mark

def overlaps (m : Mark) (start stop : Nat) : Bool := max m.start start < min m.stop stop

/-- Marks are kept in the order of their ranges; of two equal ones the later comes first. -/
def insert (m : Mark) : List Mark → List Mark
  | [] => [m]
  | n :: ns =>
    if n.start < m.start || (n.start == m.start && n.stop < m.stop) then n :: insert m ns
    else m :: n :: ns

def maxStart (ms : List Mark) : Nat := ms.foldl (fun k m => max k m.start) 0

def maxStop (ms : List Mark) : Nat := ms.foldl (fun k m => max k m.stop) 0

/-- The mark that ends last, if its message can follow it on the line of carets: the message is
not empty and the mark overlaps no other one. -/
def trailing? (ms : List Mark) : Option Nat :=
  let candidate := (ms.zipIdx.foldl (fun (state : Nat × Option Nat) (m, i) =>
    if state.1 ≤ m.stop then (m.stop, if m.message.isEmpty then none else some i)
    else state) (0, none)).2
  candidate.filter fun i =>
    match ms[i]? with
    | some t => !(ms.zipIdx.any fun (m, k) => k != i && m.overlaps t.start t.stop)
    | none => false

/-- The marks whose message hangs below the carets. -/
def hanging (ms : List Mark) : List Mark :=
  let trailing := trailing? ms
  (ms.zipIdx.filter fun (m, i) => !m.message.isEmpty && trailing != some i).map (·.1)

/-- The character under a column: a caret for a primary mark, a dash for another one. -/
def caret? (ms : List Mark) (start stop : Nat) : Option Char :=
  let covering := ms.filter (·.overlaps start stop)
  if covering.isEmpty then none else some (if covering.any (·.isPrimary) then '^' else '-')

def carets (line : List Cell) (size : Nat) (ms : List Mark) : String :=
  let stop := maxStop ms
  let under (c : Cell) : String :=
    match caret? ms c.offset (c.offset + c.char.utf8Size) with
    | some caret => repeated caret c.columns
    | none => if c.offset < stop then blanks c.columns else ""
  let message :=
    match (trailing? ms).bind (ms[·]?) with
    | some t => " " ++ t.message
    | none => ""
  concat ((line ++ [({ offset := size, char := ' ', columns := 1 } : Cell)]).map under) ++ message

/-- Lines that lead from the carets down to the messages below. -/
def pointers (line : List Cell) (ms : List Mark) : String :=
  let last := maxStart ms
  let hung := hanging ms
  concat (line.map fun c =>
    let isHung := hung.any fun m => c.offset ≤ m.start && m.start < c.offset + c.char.utf8Size
    let pad := if c.offset ≤ last then blanks (if isHung then c.columns - 1 else c.columns) else ""
    if isHung then "│" ++ pad else pad)

/-- The lines under a line of the directive. -/
def lines (line : List Cell) (size : Nat) (ms : List Mark) : List String :=
  if ms.isEmpty then []
  else
    let hung := hanging ms
    carets line size ms ::
      if hung.isEmpty then []
      else
        pointers line ms :: hung.reverse.map fun m =>
          pointers (line.takeWhile (·.offset < m.start)) ms ++ m.message

end Mark

/-- What a label over several lines has at one of them. -/
inductive Edge where
  | top (start : Nat)
  | left
  | bottom (stop : Nat) (message : String)
deriving DecidableEq, Repr, Inhabited

/-- A label over several lines, drawn in the gutter column `column`. -/
structure Bracket where
  column : Nat
  isPrimary : Bool
  edge : Edge
deriving DecidableEq, Repr, Inhabited

namespace Bracket

/-- A bracket that starts in the indentation is opened in front of its line. -/
def opensInFront (indentation : Nat) : Edge → Bool
  | .top start => start ≤ indentation
  | _ => false

/-- The gutter before a line of the directive. -/
def sourceGutter (indentation count : Nat) (bs : List Bracket) : String :=
  concat ((List.range count).map fun column =>
    match bs.find? (·.column == column) with
    | some b =>
      match b.edge with
      | .top _ => if opensInFront indentation b.edge then " ╭" else "  "
      | _ => " │"
    | none => "  ")

/-- The gutter before the carets of a line. -/
def gutter (count : Nat) (bs : List Bracket) : String :=
  concat ((List.range count).map fun column =>
    match bs.find? (·.column == column) with
    | some b =>
      match b.edge with
      | .top _ => "  "
      | _ => " │"
    | none => "  ")

/-- The gutter of the line that draws the bracket `own`. Brackets on its left that are still open,
or open already, cross it; on its right it is a horizontal line. -/
def ownGutter (own : Bracket) (count : Nat) (bs : List Bracket) : String :=
  concat ((List.range count).map fun column =>
    let isBehind := own.column < column
    let rule := if isBehind then "──" else "  "
    let crossing := if isBehind then "─│" else " │"
    match bs.find? (·.column == column) with
    | none => rule
    | some b =>
      match b.edge with
      | .left => crossing
      | .top _ =>
        if b.column < own.column then crossing else if b.column = own.column then " ╭" else rule
      | .bottom _ _ =>
        if own.column < b.column then crossing else if b.column = own.column then " ╰" else rule)

def caret (b : Bracket) : String := if b.isPrimary then "^" else "'"

/-- The lines that open and close brackets at a line of the directive. -/
def lines (line : List Cell) (indentation count : Nat) (bs : List Bracket) : List String :=
  bs.filterMap fun b =>
    let across (cs : List Cell) := concat (cs.map fun c => repeated '─' c.columns)
    match b.edge with
    | .left => none
    | .top start =>
      if opensInFront indentation b.edge then none
      else some (ownGutter b count bs ++ across (line.takeWhile (·.offset < start + 1)) ++ b.caret)
    | .bottom stop message =>
      let tail := if message.isEmpty then "" else " " ++ message
      some (ownGutter b count bs ++ across (line.takeWhile (·.offset < stop)) ++ b.caret ++ tail)

end Bracket

/-- A line of a directive with the labels on it. -/
structure Line where
  index : Nat
  text : List Char
  marks : List Mark
  brackets : List Bracket
  /-- Whether the line is shown, and not left out of a long bracket. -/
  isShown : Bool
deriving DecidableEq, Repr, Inhabited

/-- A label with the lines it starts and ends on, and the offsets of these lines. -/
structure Placed where
  label : Label
  startLine : Nat
  stopLine : Nat
  startOffset : Nat
  stopOffset : Nat
deriving DecidableEq, Repr, Inhabited

def Placed.ofLabel (starts : List Nat) (l : Label) : Placed :=
  let start := Position.ofOffset starts l.start
  let stop := Position.ofOffset starts l.stop
  ⟨l, start.line, stop.line, start.column, stop.column⟩

namespace Placed

def isWithinLine (p : Placed) : Bool := p.startLine == p.stopLine

/-- An empty label still gets one caret. -/
def mark (p : Placed) : Mark :=
  ⟨p.label.isPrimary, p.startOffset, max p.stopOffset (p.startOffset + 1), p.label.message⟩

def edge? (p : Placed) (line : Nat) : Option Edge :=
  if line = p.startLine then some (.top p.startOffset)
  else if line = p.stopLine then some (.bottom p.stopOffset p.label.message)
  else if p.startLine < line && line < p.stopLine then some .left
  else none

/-- A long bracket shows the three lines behind its first one, and the one before its last. -/
def isNearEdge (p : Placed) (line : Nat) : Bool :=
  p.startLine ≤ line && line ≤ p.stopLine &&
    (line - p.startLine ≤ 3 || p.stopLine - line ≤ 1)

end Placed

/-- The lines of a text, with the line feeds that end them. -/
def splitLines (text : List Char) : List (List Char) :=
  go [] text
where
  go : List Char → List Char → List (List Char)
    | line, [] => [line.reverse]
    | line, c :: cs => if c = '\n' then (c :: line).reverse :: go [] cs else go (c :: line) cs

def trimLine (line : List Char) : List Char :=
  (line.reverse.dropWhile fun c => c == '\n' || c == '\r' || c == '\x00').reverse

def labelledLines (text : List Char) (labels : List Placed) : List Line :=
  let within := labels.filter (·.isWithinLine)
  let across := (labels.filter (!·.isWithinLine)).zipIdx
  (splitLines text).zipIdx.map fun (line, index) =>
    let marks := (within.filter (·.startLine == index)).foldl (fun ms p => p.mark.insert ms) []
    let brackets := across.filterMap fun (p, column) =>
      (p.edge? index).map (⟨column, p.label.isPrimary, ·⟩)
    ⟨index, trimLine line, marks, brackets,
      !marks.isEmpty || across.any (fun (p, _) => p.isNearEdge index)⟩

/-- The margins of a snippet: the columns for line numbers and for brackets. -/
structure Margins where
  digits : Nat
  brackets : Nat
deriving DecidableEq, Repr, Inhabited

namespace Margins

def border (m : Margins) : String := blanks m.digits ++ " │"

def number (m : Margins) (line : Nat) : String :=
  let digits := toString (line + 1)
  blanks (m.digits - digits.length) ++ digits ++ " │"

/-- A line of the directive and all that belongs to it. -/
def lines (m : Margins) (l : Line) (marks : List Mark) : List String :=
  let line := cells l.text
  let indentation := Text.byteSize (l.text.takeWhile Text.isBlank)
  let source := m.number l.index ++ Bracket.sourceGutter indentation m.brackets l.brackets ++ " " ++
    concat (line.map Cell.text)
  let inner := m.border ++ Bracket.gutter m.brackets l.brackets ++ " "
  source :: (Mark.lines line (Text.byteSize l.text) marks).map (inner ++ ·) ++
    (Bracket.lines line indentation m.brackets l.brackets).map (m.border ++ ·)

/-- The lines that are shown, and between two of them the one line that is missing or a mark for
several. -/
def snippet (m : Margins) (all : List Line) : List Line → List String
  | [] => []
  | [l] => m.lines l l.marks
  | l :: next :: rest =>
    let between :=
      if next.index = l.index + 1 then []
      else
        match all[l.index + 1]? with
        | some missing =>
          if next.index = l.index + 2 then m.lines missing []
          else [blanks m.digits ++ " ·" ++ Bracket.gutter m.brackets next.brackets]
        | none => []
    m.lines l l.marks ++ between ++ snippet m all (next :: rest)

end Margins

/-- The label that a snippet is located by: the first one of the highest style. -/
def principal? (labels : List Placed) : Option Placed :=
  labels.foldl (fun best p =>
    match best with
    | none => some p
    | some b =>
      if (p.label.isPrimary && !b.label.isPrimary) ||
          (p.label.isPrimary == b.label.isPrimary && p.label.start < b.label.start) then some p
      else best) none

/-- The number of characters before an offset of a line. -/
def charactersBefore (line : List Char) (offset : Nat) : Nat :=
  ((cells line).filter fun c => c.offset + c.char.utf8Size ≤ offset).length

/-- The snippet of one directive. -/
def fileLines (digits : Nat) (source : Source) (labels : List Placed) : List String :=
  let text := source.text.toList
  let all := labelledLines text labels
  let m : Margins := ⟨digits, (labels.filter (!·.isWithinLine)).length⟩
  let locus :=
    match principal? labels with
    | some p =>
      let line := (splitLines text)[p.startLine]?.getD []
      let column := charactersBefore line p.startOffset + 1
      s!"{source.name}:{p.startLine + 1}:{column}"
    | none => source.name
  [blanks digits ++ " ┌─ " ++ locus, m.border ++ Bracket.gutter m.brackets []] ++
    m.snippet all (all.filter (·.isShown))

/-- The files that labels refer to, in the order of their first label. -/
def filesOf (labels : List Label) : List Nat :=
  labels.foldl (fun files l => if l.file ∈ files then files else files ++ [l.file]) []

end WireRecords.Snippet

namespace WireRecords

open Snippet in
/-- A diagnostic as it is shown to the user; `sources` are the directives its labels number. -/
def Diagnostic.render (sources : List Source) (d : Diagnostic) : String :=
  let header :=
    match d.code with
    | some c => s!"error[{c.text}]: {d.message}"
    | none => s!"error: {d.message}"
  let files := (filesOf d.labels).filterMap fun file =>
    (sources[file]?).map fun source =>
      let starts := lineStarts source.text.toList
      (source, (d.labels.filter (·.file == file)).map (Placed.ofLabel starts))
  let digits := files.foldl (fun n (_, labels) =>
    labels.foldl (fun n p => max n (toString (p.stopLine + 1)).length) n) 0
  let snippets := files.map fun (source, labels) => (fileLines digits source labels, labels)
  let body := snippets.zipIdx.flatMap fun ((lines, labels), i) =>
    if i + 1 < snippets.length then
      let brackets := (labels.filter (!·.isWithinLine)).length
      lines ++ [(⟨digits, brackets⟩ : Margins).border ++ Bracket.gutter brackets []]
    else lines
  concat ((header :: body ++ [""]).map (· ++ "\n"))

end WireRecords
