/-!
# Blank characters and lines

The white space of Unicode, the trimming that removes it, and the division of a text into lines.
-/
namespace WireRecords.Text

/-- The characters with the Unicode property `White_Space`. -/
def isBlank (c : Char) : Bool :=
  let n := c.toNat
  (9 ≤ n && n ≤ 13) || n == 0x20 || n == 0x85 || n == 0xa0 || n == 0x1680 ||
    (0x2000 ≤ n && n ≤ 0x200a) || n == 0x2028 || n == 0x2029 || n == 0x202f || n == 0x205f ||
    n == 0x3000

def trimStart (cs : List Char) : List Char := cs.dropWhile isBlank

def trimEnd (cs : List Char) : List Char := (cs.reverse.dropWhile isBlank).reverse

def trim (cs : List Char) : List Char := trimEnd (trimStart cs)

/-- What follows `pre` in `cs`, when `cs` starts with it. -/
def dropPrefix? : List Char → List Char → Option (List Char)
  | [], cs => some cs
  | _ :: _, [] => none
  | p :: pre, c :: cs => if p = c then dropPrefix? pre cs else none

/-- Drops one carriage return from the end of a line. -/
def dropReturn (line : List Char) : List Char :=
  if line.getLast? = some '\r' then line.dropLast else line

/-- The lines of a text. A line ends at a line feed, which may have one carriage return before it;
what follows the last line feed is a line too unless it is empty. -/
def lines (cs : List Char) : List (List Char) :=
  go [] cs
where
  /-- `line` holds what is read of the current line, last character first. -/
  go : List Char → List Char → List (List Char)
    | [], [] => []
    | line, [] => [line.reverse]
    | line, c :: cs =>
      if c = '\n' then dropReturn line.reverse :: go [] cs else go (c :: line) cs

/-- The number of bytes of a text in UTF-8. -/
def byteSize : List Char → Nat
  | [] => 0
  | c :: cs => c.utf8Size + byteSize cs

/-- Whether the code point of `c` lies in one of the closed ranges. -/
def inRanges (ranges : List (Nat × Nat)) (c : Char) : Bool :=
  ranges.any fun (lo, hi) => lo ≤ c.toNat && c.toNat ≤ hi

end WireRecords.Text
