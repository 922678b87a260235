import WireRecords.Program.Names
import WireRecords.Program.Token
import WireRecords.Text.Blank
import WireRecords.Text.Identifier
import WireRecords.Text.Quoted

/-!
# Lexing

Reads program text as a tree of tokens. Comments are skipped, except those that document what
follows: they become attributes. A scan returns what is left of the text, or nothing if the text
does not start with what is looked for.
-/
namespace WireRecords.Program.Lexer

open Text (startsIdentifier continuesIdentifier)

abbrev Scan := List Char → Option (List Char)

/-! ## Blanks and comments -/

/-- The marks of writing direction count as blanks. -/
def isBlank (c : Char) : Bool := Text.isBlank c || c == '\u200e' || c == '\u200f'

/-- A line and what follows it; the characters that end the line belong to neither. -/
def restOfLine : List Char → List Char × List Char
  | [] => ([], [])
  | '\n' :: cs => ([], '\n' :: cs)
  | '\r' :: '\n' :: cs => ([], '\n' :: cs)
  | c :: cs =>
    let (line, rest) := restOfLine cs
    (c :: line, rest)

/-- Skips a comment, `depth` levels of which are open. Comments nest. -/
def closeComment : Nat → Scan
  | depth, '/' :: '*' :: cs => closeComment (depth + 1) cs
  | depth, '*' :: '/' :: cs => if depth ≤ 1 then some cs else closeComment (depth - 1) cs
  | depth, _ :: cs => closeComment depth cs
  | _, [] => none

/-- A comment that documents nothing. -/
def comment : Scan
  | '/' :: '/' :: cs =>
    match cs with
    | '!' :: _ => none
    | '/' :: '/' :: _ => some (restOfLine cs).2
    | '/' :: _ => none
    | _ => some (restOfLine cs).2
  | '/' :: '*' :: cs =>
    match cs with
    | '*' :: '/' :: rest => some rest
    | '!' :: _ => none
    | '*' :: '*' :: _ => closeComment 1 cs
    | '*' :: _ => none
    | _ => closeComment 1 cs
  | _ => none

/-- Skips blanks and comments, at most `fuel` of them. -/
def skip : Nat → List Char → List Char
  | 0, cs => cs
  | _, [] => []
  | fuel + 1, c :: cs =>
    if isBlank c then skip fuel cs
    else
      match comment (c :: cs) with
      | some rest => skip fuel rest
      | none => c :: cs

/-- A comment that documents what follows, or what is around it. -/
structure Documentation where
  text : List Char
  isInner : Bool
deriving DecidableEq, Repr, Inhabited

/-- The text of a comment that ends where `rest` starts. -/
def commentText (cs rest : List Char) : List Char := cs.take (cs.length - rest.length - 2)

def documentation : List Char → Option (Documentation × List Char)
  | '/' :: '/' :: '!' :: cs =>
    let (line, rest) := restOfLine cs
    some (⟨line, true⟩, rest)
  | '/' :: '*' :: '!' :: cs => do
    let rest ← closeComment 1 cs
    return (⟨commentText cs rest, true⟩, rest)
  | '/' :: '/' :: '/' :: cs =>
    if cs.head? = some '/' then none
    else
      let (line, rest) := restOfLine cs
      some (⟨line, false⟩, rest)
  | '/' :: '*' :: '*' :: cs =>
    if cs.head? = some '*' then none
    else do
      let rest ← closeComment 1 cs
      return (⟨commentText cs rest, false⟩, rest)
  | _ => none

/-- A carriage return stands only before a line feed. -/
def hasBareReturn : List Char → Bool
  | '\r' :: '\n' :: cs => hasBareReturn cs
  | '\r' :: _ => true
  | _ :: cs => hasBareReturn cs
  | [] => false

/-- Documentation as an attribute. -/
def Documentation.tokens (d : Documentation) : List Token :=
  [Token.punct '#' false] ++ (if d.isInner then [.punct '!' false] else []) ++
    [.brackets [.ident "doc", .punct '=' false,
      .literal (Text.quoteLiteral (String.ofList d.text))]]

/-! ## Names -/

/-- A name without a mark. -/
def bareName : List Char → Option (List Char × List Char)
  | c :: cs =>
    if startsIdentifier c then
      some (c :: cs.takeWhile continuesIdentifier, cs.dropWhile continuesIdentifier)
    else none
  | [] => none

/-- A name that may be marked as plain. -/
def anyName : List Char → Option (String × List Char)
  | 'r' :: '#' :: cs => do
    let (name, rest) ← bareName cs
    let name := String.ofList name
    if name = "_" || pathKeywords.contains name then none else some ("r#" ++ name, rest)
  | cs => do
    let (name, rest) ← bareName cs
    return (String.ofList name, rest)

/-- Starts of literals that are not names. -/
def literalStarts : List String :=
  ["r\"", "r#\"", "r##", "b\"", "b'", "br\"", "br#", "c\"", "cr\"", "cr#"]

def name (cs : List Char) : Option (String × List Char) :=
  if literalStarts.any fun s => s.toList.isPrefixOf cs then none else anyName cs

/-! ## Literals -/

/-- What may stand in a text. -/
inductive Alphabet where
  | characters
  | bytes
  /-- Characters without the one that ends a text in memory. -/
  | terminated
deriving DecidableEq, Repr, Inhabited

def Alphabet.allows : Alphabet → Char → Bool
  | characters, _ => true
  | bytes, c => c.toNat < 128
  | terminated, c => c.toNat != 0

def hexValue? (c : Char) : Option Nat :=
  if c.isDigit then some (c.toNat - '0'.toNat)
  else if 'a' ≤ c && c ≤ 'f' then some (c.toNat - 'a'.toNat + 10)
  else if 'A' ≤ c && c ≤ 'F' then some (c.toNat - 'A'.toNat + 10)
  else none

/-- The rest of a character given by its number, of which `count` digits are read. -/
def numberedCharacter (alphabet : Alphabet) (value count : Nat) : Scan
  | [] => none
  | c :: cs =>
    match hexValue? c with
    | some d =>
      if count = 6 then none else numberedCharacter alphabet (16 * value + d) (count + 1) cs
    | none =>
      if count = 0 then none
      else if c = '_' then numberedCharacter alphabet value count cs
      else if c = '\x7d' && value.isValidChar && (alphabet != .terminated || value != 0) then
        some cs
      else none

/-- The rest of an escape, after its backslash. -/
def escaped (alphabet : Alphabet) : Scan
  | 'x' :: a :: b :: cs => do
    let a ← hexValue? a
    let b ← hexValue? b
    if alphabet = .characters && 7 < a then none
    else if alphabet = .terminated && a = 0 && b = 0 then none
    else some cs
  | 'u' :: '\x7b' :: cs => if alphabet = .bytes then none else numberedCharacter alphabet 0 0 cs
  | '0' :: cs => if alphabet = .terminated then none else some cs
  | c :: cs => if ['n', 'r', 't', '\\', '\'', '"'].contains c then some cs else none
  | [] => none

/-- Skips the blanks at the start of the line that goes on with a text. -/
def continued : Scan
  | [] => none
  | '\r' :: '\n' :: cs => continued cs
  | '\r' :: _ => none
  | c :: cs => if c = ' ' || c = '\t' || c = '\n' then continued cs else some (c :: cs)

/-- The rest of a text in quotes. -/
def quoted (alphabet : Alphabet) : Nat → Scan
  | 0, _ => none
  | _, [] => none
  | fuel + 1, c :: cs =>
    match c, cs with
    | '"', cs => some cs
    | '\r', '\n' :: cs => quoted alphabet fuel cs
    | '\r', _ => none
    | '\\', '\n' :: cs => (continued cs).bind (quoted alphabet fuel)
    | '\\', '\r' :: '\n' :: cs => (continued cs).bind (quoted alphabet fuel)
    | '\\', cs => (escaped alphabet cs).bind (quoted alphabet fuel)
    | c, cs => if alphabet.allows c then quoted alphabet fuel cs else none

/-- The rest of a text that ends with a quote and `hashes` marks. -/
def untilHashes (alphabet : Alphabet) (hashes : Nat) : Scan
  | [] => none
  | '\r' :: '\n' :: cs => untilHashes alphabet hashes cs
  | c :: cs =>
    if c = '"' && (List.replicate hashes '#').isPrefixOf cs then some (cs.drop hashes)
    else if c = '\r' || !alphabet.allows c then none
    else untilHashes alphabet hashes cs

/-- The rest of a text without escapes. -/
def raw (alphabet : Alphabet) (cs : List Char) : Option (List Char) :=
  let hashes := (cs.takeWhile (· == '#')).length
  match cs.drop hashes with
  | '"' :: rest => if 255 < hashes then none else untilHashes alphabet hashes rest
  | _ => none

/-- The rest of a single character, after its quote. -/
def character (alphabet : Alphabet) (cs : List Char) : Option (List Char) := do
  let rest ← match cs with
    | '\\' :: cs => escaped alphabet cs
    | c :: cs => if alphabet.allows c then some cs else none
    | [] => none
  match rest with
  | '\'' :: rest => some rest
  | _ => none

/-- A name that follows a literal directly belongs to it. -/
def withSuffix (cs : List Char) : List Char := ((bareName cs).map (·.2)).getD cs

def text : Scan
  | '"' :: cs => (quoted .characters (cs.length + 1) cs).map withSuffix
  | 'r' :: cs => (raw .characters cs).map withSuffix
  | 'b' :: '"' :: cs => (quoted .bytes (cs.length + 1) cs).map withSuffix
  | 'b' :: 'r' :: cs => (raw .bytes cs).map withSuffix
  | 'b' :: '\'' :: cs => (character .bytes cs).map withSuffix
  | 'c' :: '"' :: cs => (quoted .terminated (cs.length + 1) cs).map withSuffix
  | 'c' :: 'r' :: cs => (raw .terminated cs).map withSuffix
  | '\'' :: cs => (character .characters cs).map withSuffix
  | _ => none

/-- A number does not run into a name. -/
def wordEnd (cs : List Char) : Option (List Char) :=
  let rest := withSuffix cs
  match rest with
  | c :: _ => if continuesIdentifier c then none else some rest
  | [] => some rest

/-- The rest of an exponent; `before` is what is left if there is none after all. -/
def exponent (before : Option (List Char)) (hasSign hasValue : Bool) : Scan
  | [] => if hasValue then some [] else before
  | c :: cs =>
    if c = '+' || c = '-' then
      if hasValue then some (c :: cs)
      else if hasSign then before
      else exponent before true hasValue cs
    else if c.isDigit then exponent before hasSign true cs
    else if c = '_' then exponent before hasSign hasValue cs
    else if hasValue then some (c :: cs)
    else before

/-- The rest of a number with a point or an exponent. -/
def fraction (hasPoint : Bool) : Scan
  | [] => if hasPoint then some [] else none
  | c :: cs =>
    if c.isDigit || c = '_' then fraction hasPoint cs
    else if c = '.' && !hasPoint then
      if (cs.head?.map fun c => c == '.' || startsIdentifier c).getD false then none
      else fraction true cs
    else if c = 'e' || c = 'E' then
      exponent (if hasPoint then some (c :: cs) else none) false false cs
    else if hasPoint then some (c :: cs)
    else none

/-- The rest of the digits of a whole number. -/
def digits (base : Nat) (isEmpty : Bool) : Scan
  | [] => if isEmpty then none else some []
  | c :: cs =>
    if c = '_' then if isEmpty && base = 10 then none else digits base isEmpty cs
    else
      match hexValue? c with
      | some d =>
        if d < base then digits base false cs
        else if c.isDigit then none
        else if isEmpty then none
        else some (c :: cs)
      | none => if isEmpty then none else some (c :: cs)

def wholeNumber : Scan
  | '0' :: 'x' :: cs => digits 16 true cs
  | '0' :: 'o' :: cs => digits 8 true cs
  | '0' :: 'b' :: cs => digits 2 true cs
  | cs => digits 10 true cs

def number (cs : List Char) : Option (List Char) :=
  match cs with
  | [] => none
  | c :: rest =>
    if c.isDigit then ((fraction false rest).bind wordEnd).or ((wholeNumber cs).bind wordEnd)
    else none

def literal (cs : List Char) : Option (String × List Char) :=
  ((text cs).or (number cs)).map fun rest =>
    (String.ofList (cs.take (cs.length - rest.length)), rest)

/-! ## Marks -/

def markCharacters : List Char := "~!@#$%^&*-=+|;:,<.>/?'".toList

/-- A punctuation mark; what starts a comment is none. -/
def mark : List Char → Option (Char × List Char)
  | '/' :: '/' :: _ => none
  | '/' :: '*' :: _ => none
  | c :: cs => if markCharacters.contains c then some (c, cs) else none
  | [] => none

/-- A mark, joined to the next character if that is a mark too. A quote is one only before the name
of a lifetime. -/
def punctuation (cs : List Char) : Option (Token × List Char) := do
  let (c, rest) ← mark cs
  if c = '\'' then
    let (_, after) ← anyName rest
    let isMarked := "r#".toList.isPrefixOf rest
    if after.head? = some '\'' || (after.head? = some '#' && !isMarked) then none
    else return (.punct c true, rest)
  else return (.punct c (mark rest).isSome, rest)

def leaf (cs : List Char) : Option (Token × List Char) :=
  match literal cs with
  | some (text, rest) => some (.literal text, rest)
  | none =>
    match punctuation cs with
    | some r => some r
    | none => (name cs).map fun (n, rest) => (.ident n, rest)

/-! ## Trees -/

def opening? : Char → Option Delimiter
  | '(' => some .paren
  | '[' => some .bracket
  | '\x7b' => some .brace
  | _ => none

def closing? : Char → Option Delimiter
  | ')' => some .paren
  | ']' => some .bracket
  | '\x7d' => some .brace
  | _ => none

/-- A mark that a compiler leaves where an expression is broken. It counts as a literal. -/
def brokenMark : String := "(/*ERROR*/)"

/-- Reads tokens inside the open groups of `stack`, the innermost first; `done` are the tokens of
the innermost group, the last first. -/
def trees : Nat → List (Delimiter × List Token) → List Token → List Char → Option (List Token)
  | 0, _, _, _ => none
  | fuel + 1, stack, done, cs =>
    let cs := skip fuel cs
    match documentation cs with
    | some (d, rest) =>
      if hasBareReturn d.text then none
      else trees fuel stack (d.tokens.reverse ++ done) rest
    | none =>
      match cs with
      | [] => if stack.isEmpty then some done.reverse else none
      | c :: rest =>
        if brokenMark.toList.isPrefixOf cs then
          trees fuel stack (.literal brokenMark :: done) (cs.drop brokenMark.length)
        else
          match opening? c, closing? c, stack with
          | some d, _, _ => trees fuel ((d, done) :: stack) [] rest
          | none, some d, (opened, outer) :: stack =>
            if d = opened then trees fuel stack (.group d done.reverse :: outer) rest else none
          | none, some _, [] => none
          | none, none, _ =>
            match leaf cs with
            | some (t, rest) => trees fuel stack (t :: done) rest
            | none => none

/-- Removes the mark of byte order at the start of a text. -/
def withoutMark : List Char → List Char
  | '\uFEFF' :: cs => cs
  | cs => cs

/-- The tokens of a text. -/
def tokens (cs : List Char) : Option (List Token) :=
  let cs := withoutMark cs
  trees (cs.length + 1) [] [] cs

end WireRecords.Program.Lexer
