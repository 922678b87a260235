
/-!
# Tokens

Program text as a tree of tokens, and the text that a list of tokens is printed as: one blank
between two tokens, and none after a mark that is joined to the next one.
-/
namespace WireRecords.Program

inductive Delimiter where
  | paren
  | bracket
  | brace
deriving DecidableEq, Repr, Inhabited

inductive Token where
  | ident (name : String)
  | literal (text : String)
  /-- One punctuation mark. A joined mark forms an operator with the mark after it. -/
  | punct (mark : Char) (isJoined : Bool)
  | group (delimiter : Delimiter) (body : List Token)
deriving Repr, Inhabited

namespace Token

/-- The marks of an operator, all but the last joined to the next. -/
def marks : List Char → List Token
  | [] => []
  | [c] => [punct c false]
  | c :: cs => punct c true :: marks cs

def operator (s : String) : List Token := marks s.toList

def parens (body : List Token) : Token := group .paren body

def brackets (body : List Token) : Token := group .bracket body

def braces (body : List Token) : Token := group .brace body

/-- What stands between a token and the next. -/
def gap : Token → String
  | punct _ true => ""
  | _ => " "

mutual

/-- The pieces of text of a token. A group in braces has blanks inside its braces. -/
def pieces : Token → List String
  | ident name => [name]
  | literal text => [text]
  | punct mark _ => [String.singleton mark]
  | group .paren body => "(" :: (listPieces body ++ [")"])
  | group .bracket body => "[" :: (listPieces body ++ ["]"])
  | group .brace [] => ["\x7b \x7d"]
  | group .brace body => "\x7b " :: (listPieces body ++ [" \x7d"])

def listPieces : List Token → List String
  | [] => []
  | [t] => t.pieces
  | t :: ts => t.pieces ++ (t.gap :: listPieces ts)

end

/-- The text of a list of tokens. -/
def text (ts : List Token) : String := String.join (listPieces ts)

/-- Separates lists of tokens by commas. -/
def commaSeparated : List (List Token) → List Token
  | [] => []
  | [ts] => ts
  | ts :: tss => ts ++ (punct ',' false :: commaSeparated tss)

/-- Ends every list of tokens with a comma. -/
def commaEnded (tss : List (List Token)) : List Token :=
  tss.flatMap fun ts => ts ++ [punct ',' false]

/-- A path, its segments joined by `::`. -/
def path : List String → List Token
  | [] => []
  | [s] => [ident s]
  | s :: ss => ident s :: (operator "::" ++ path ss)

end Token

end WireRecords.Program
