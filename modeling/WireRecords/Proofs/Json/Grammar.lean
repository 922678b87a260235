import Mathlib
import WireRecords.Json

/-!
# The grammar of JSON

All JSON texts and the values they spell: blanks between tokens, signs, fractions and exponents of
numbers, and every escape of strings. Structured forms relate a text to what follows in it, so
`Value cs v rest` says that `cs` is a spelling of `v` with `rest` behind it.
-/
namespace WireRecords.Json

/-- A JSON value. Numbers are kept as they are written. -/
inductive Tree where
  | null
  | bool (value : Bool)
  | number (lexeme : List Char)
  | string (value : String)
  | array (items : List Tree)
  | object (members : List (String × Tree))
deriving Inhabited

/-! ### Tokens -/

/-- The blanks that may stand between tokens. -/
def isSpace (c : Char) : Bool := c == ' ' || c == '\t' || c == '\n' || c == '\r'

/-- `rest` stands behind blanks, or behind none. -/
def Blanks (cs rest : List Char) : Prop :=
  ∃ blanks, (∀ c ∈ blanks, isSpace c = true) ∧ cs = blanks ++ rest

def Digits (ds : List Char) : Prop := ds ≠ [] ∧ ∀ d ∈ ds, d.isDigit = true

/-- No integer but zero starts with a zero. -/
inductive Integer : List Char → Prop
  | zero : Integer ['0']
  | positive {d : Char} {ds : List Char} (first : d.isDigit = true) (ne : d ≠ '0')
      (others : ∀ e ∈ ds, e.isDigit = true) : Integer (d :: ds)

inductive Fraction : List Char → Prop
  | absent : Fraction []
  | present {ds : List Char} (h : Digits ds) : Fraction ('.' :: ds)

inductive Exponent : List Char → Prop
  | absent : Exponent []
  | present {mark : Char} {sign ds : List Char} (marked : mark = 'e' ∨ mark = 'E')
      (signed : sign = [] ∨ sign = ['+'] ∨ sign = ['-']) (h : Digits ds) :
      Exponent (mark :: (sign ++ ds))

inductive Number : List Char → Prop
  | intro {sign integer fraction exponent : List Char} (signed : sign = [] ∨ sign = ['-'])
      (whole : Integer integer) (part : Fraction fraction) (power : Exponent exponent) :
      Number (sign ++ (integer ++ (fraction ++ exponent)))

/-- What a letter behind a backslash stands for. -/
def shortEscape? : Char → Option Char
  | '"' => some '"'
  | '\\' => some '\\'
  | '/' => some '/'
  | 'b' => some '\x08'
  | 'f' => some '\x0c'
  | 'n' => some '\n'
  | 'r' => some '\r'
  | 't' => some '\t'
  | _ => none

def hexValue? (c : Char) : Option Nat :=
  if c.isDigit then some (c.toNat - '0'.toNat)
  else if 'a' ≤ c ∧ c ≤ 'f' then some (c.toNat - 'a'.toNat + 10)
  else if 'A' ≤ c ∧ c ≤ 'F' then some (c.toNat - 'A'.toNat + 10)
  else none

/-- The code unit that four hexadecimal digits spell. -/
def codeUnit? (a b c d : Char) : Option Nat :=
  match hexValue? a, hexValue? b, hexValue? c, hexValue? d with
  | some a, some b, some c, some d => some (((a * 16 + b) * 16 + c) * 16 + d)
  | _, _, _, _ => none

def isHighSurrogate (n : Nat) : Bool := 0xd800 ≤ n && n < 0xdc00

def isLowSurrogate (n : Nat) : Bool := 0xdc00 ≤ n && n < 0xe000

/-- The character of a pair of surrogates. -/
def ofSurrogates (high low : Nat) : Char :=
  Char.ofNat (0x10000 + (high - 0xd800) * 0x400 + (low - 0xdc00))

/-- Between its quotes a string is spelled character by character. -/
inductive Content : List Char → List Char → Prop
  | nil : Content [] []
  | plain {c : Char} {cs s : List Char} (printable : 0x20 ≤ c.toNat) (unquoted : c ≠ '"')
      (unescaped : c ≠ '\\') (tail : Content cs s) : Content (c :: cs) (c :: s)
  | short {mark c : Char} {cs s : List Char} (escape : shortEscape? mark = some c)
      (tail : Content cs s) : Content ('\\' :: mark :: cs) (c :: s)
  | unit {a b c d : Char} {n : Nat} {cs s : List Char} (spelled : codeUnit? a b c d = some n)
      (high : isHighSurrogate n = false) (low : isLowSurrogate n = false) (tail : Content cs s) :
      Content ('\\' :: 'u' :: a :: b :: c :: d :: cs) (Char.ofNat n :: s)
  | pair {a b c d e f g h : Char} {m n : Nat} {cs s : List Char}
      (first : codeUnit? a b c d = some m) (second : codeUnit? e f g h = some n)
      (high : isHighSurrogate m = true) (low : isLowSurrogate n = true) (tail : Content cs s) :
      Content ('\\' :: 'u' :: a :: b :: c :: d :: '\\' :: 'u' :: e :: f :: g :: h :: cs)
        (ofSurrogates m n :: s)

/-- A string in its quotes, with `rest` behind it. -/
inductive Quoted : List Char → String → List Char → Prop
  | intro {body s rest : List Char} (h : Content body s) :
      Quoted ('"' :: (body ++ '"' :: rest)) (String.ofList s) rest

/-! ### Values -/

mutual

inductive Value : List Char → Tree → List Char → Prop
  | null {rest : List Char} : Value ('n' :: 'u' :: 'l' :: 'l' :: rest) .null rest
  | trueWord {rest : List Char} : Value ('t' :: 'r' :: 'u' :: 'e' :: rest) (.bool true) rest
  | falseWord {rest : List Char} :
      Value ('f' :: 'a' :: 'l' :: 's' :: 'e' :: rest) (.bool false) rest
  | number {lexeme rest : List Char} (h : Number lexeme) :
      Value (lexeme ++ rest) (.number lexeme) rest
  | string {cs rest : List Char} {s : String} (h : Quoted cs s rest) : Value cs (.string s) rest
  | emptyArray {cs rest : List Char} (h : Blanks cs (']' :: rest)) :
      Value ('[' :: cs) (.array []) rest
  | array {cs rest : List Char} {items : List Tree} (h : Items cs items rest) :
      Value ('[' :: cs) (.array items) rest
  | emptyObject {cs rest : List Char} (h : Blanks cs ('\x7d' :: rest)) :
      Value ('\x7b' :: cs) (.object []) rest
  | object {cs rest : List Char} {members : List (String × Tree)} (h : Members cs members rest) :
      Value ('\x7b' :: cs) (.object members) rest

/-- One item or more, up to the bracket that closes them. -/
inductive Items : List Char → List Tree → List Char → Prop
  | last {cs a b rest : List Char} {v : Tree} (before : Blanks cs a) (value : Value a v b)
      (after : Blanks b (']' :: rest)) : Items cs [v] rest
  | more {cs a b next rest : List Char} {v : Tree} {items : List Tree} (before : Blanks cs a)
      (value : Value a v b) (after : Blanks b (',' :: next)) (others : Items next items rest) :
      Items cs (v :: items) rest

/-- One member or more, up to the brace that closes them. -/
inductive Members : List Char → List (String × Tree) → List Char → Prop
  | last {cs a b c d e rest : List Char} {key : String} {v : Tree} (before : Blanks cs a)
      (name : Quoted a key b) (colon : Blanks b (':' :: c)) (gap : Blanks c d)
      (value : Value d v e) (after : Blanks e ('\x7d' :: rest)) : Members cs [(key, v)] rest
  | more {cs a b c d e next rest : List Char} {key : String} {v : Tree}
      {members : List (String × Tree)} (before : Blanks cs a) (name : Quoted a key b)
      (colon : Blanks b (':' :: c)) (gap : Blanks c d) (value : Value d v e)
      (after : Blanks e (',' :: next)) (others : Members next members rest) :
      Members cs ((key, v) :: members) rest

end

/-- A JSON text is the spelling of a value among blanks. -/
def Spells (cs : List Char) (v : Tree) : Prop :=
  ∃ a b, Blanks cs a ∧ Value a v b ∧ Blanks b []

end WireRecords.Json
