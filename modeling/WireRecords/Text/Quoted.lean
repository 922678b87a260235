import WireRecords.Text.Extending
import WireRecords.Text.Printable

/-!
# Quoted text

A text between double quotes, with escapes for the quote, the backslash and whatever could not be
seen. `quote` writes every NUL as `\0`; `quoteLiteral` keeps a NUL apart from a digit that follows.
-/
namespace WireRecords.Text

def hexDigit (n : Nat) : Char :=
  if n < 10 then Char.ofNat (0x30 + n) else Char.ofNat (0x57 + n)

def upperHexDigit (n : Nat) : Char :=
  if n < 10 then Char.ofNat (0x30 + n) else Char.ofNat (0x37 + n)

/-- Lower-case hexadecimal digits without leading zeros. -/
def hex (n : Nat) : List Char := Nat.toDigits 16 n

/-- The code point of a character between braces. -/
def escapeCodePoint (c : Char) : List Char :=
  ['\\', 'u', '\x7b'] ++ hex c.toNat ++ ['\x7d']

def escape (c : Char) : List Char :=
  if c = '\x00' then ['\\', '0']
  else if c = '\t' then ['\\', 't']
  else if c = '\r' then ['\\', 'r']
  else if c = '\n' then ['\\', 'n']
  else if c = '"' then ['\\', '"']
  else if c = '\\' then ['\\', '\\']
  else if isExtending c then escapeCodePoint c
  else if isPrintable c then [c]
  else escapeCodePoint c

def quote (s : String) : String :=
  String.ofList ('"' :: s.toList.flatMap escape ++ ['"'])

def isOctalDigit (c : Char) : Bool := '0' ≤ c && c ≤ '7'

/-- Whether the text starts with a digit that a NUL escape before it would swallow. -/
def startsOctal : List Char → Bool
  | c :: _ => isOctalDigit c
  | [] => false

def escapeLiteral : List Char → List Char
  | [] => []
  | c :: cs =>
    (if c = '\x00' && startsOctal cs then ['\\', 'x', '0', '0'] else escape c) ++ escapeLiteral cs

/-- A text as a string literal of generated code. -/
def quoteLiteral (s : String) : String :=
  String.ofList ('"' :: escapeLiteral s.toList ++ ['"'])

def escapeByte (b : UInt8) (next : Option UInt8) : List Char :=
  let n := b.toNat
  if n = 0 then
    if next.any (fun d => 0x30 ≤ d.toNat && d.toNat ≤ 0x37) then ['\\', 'x', '0', '0']
    else ['\\', '0']
  else if n = 9 then ['\\', 't']
  else if n = 10 then ['\\', 'n']
  else if n = 13 then ['\\', 'r']
  else if n = 0x22 then ['\\', '"']
  else if n = 0x5c then ['\\', '\\']
  else if 0x20 ≤ n && n ≤ 0x7e then [Char.ofNat n]
  else ['\\', 'x', upperHexDigit (n / 16), upperHexDigit (n % 16)]

def escapeBytes : List UInt8 → List Char
  | [] => []
  | b :: bs => escapeByte b bs.head? ++ escapeBytes bs

/-- Bytes as a byte-string literal of generated code. -/
def quoteBytes (bs : List UInt8) : String :=
  String.ofList ('b' :: '"' :: escapeBytes bs ++ ['"'])

/-- Two lower-case hexadecimal digits. -/
def hexByte (b : UInt8) : List Char := [hexDigit (b.toNat / 16), hexDigit (b.toNat % 16)]

end WireRecords.Text
