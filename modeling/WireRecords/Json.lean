import WireRecords.Text.Quoted

/-!
# JSON documents

Values without fractions or signs, which records do not need, and their text: two blanks for each
level of nesting, one entry a line.
-/
namespace WireRecords

inductive Json where
  | null
  | number (value : Nat)
  | string (value : String)
  | array (items : List Json)
  | object (entries : List (String × Json))
deriving Repr, Inhabited

namespace Json

def escape (c : Char) : List Char :=
  if c = '"' then ['\\', '"']
  else if c = '\\' then ['\\', '\\']
  else if c = '\x08' then ['\\', 'b']
  else if c = '\t' then ['\\', 't']
  else if c = '\n' then ['\\', 'n']
  else if c = '\x0c' then ['\\', 'f']
  else if c = '\r' then ['\\', 'r']
  else if c.toNat < 0x20 then
    ['\\', 'u', '0', '0', Text.hexDigit (c.toNat / 16), Text.hexDigit (c.toNat % 16)]
  else [c]

def quote (s : String) : List Char := '"' :: s.toList.flatMap escape ++ ['"']

/-- A line break and the indentation of a level. -/
def newline (level : Nat) : List Char := '\n' :: List.replicate (2 * level) ' '

mutual

/-- The text of a value whose surroundings have the given level. -/
def render (level : Nat) : Json → List Char
  | null => ['n', 'u', 'l', 'l']
  | number n => Nat.toDigits 10 n
  | string s => quote s
  | array [] => ['[', ']']
  | array (j :: js) =>
    '[' :: newline (level + 1) ++ render (level + 1) j ++ renderItems (level + 1) js ++
      newline level ++ [']']
  | object [] => ['\x7b', '\x7d']
  | object ((key, j) :: es) =>
    '\x7b' :: newline (level + 1) ++ quote key ++ [':', ' '] ++ render (level + 1) j ++
      renderEntries (level + 1) es ++ newline level ++ ['\x7d']

/-- The items behind the first one. -/
def renderItems (level : Nat) : List Json → List Char
  | [] => []
  | j :: js => ',' :: newline level ++ render level j ++ renderItems level js

/-- The entries behind the first one. -/
def renderEntries (level : Nat) : List (String × Json) → List Char
  | [] => []
  | (key, j) :: es =>
    ',' :: newline level ++ quote key ++ [':', ' '] ++ render level j ++ renderEntries level es

end

def text (j : Json) : String := String.ofList (render 0 j)

end Json

end WireRecords
