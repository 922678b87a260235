import WireRecords.Directive.Concrete

/-!
# What a directive was expected to continue with

The grammar of directives as data, and a recogniser that remembers which rules were tried in vain
at the furthest position. It is consulted only for a text that has been refused, to say what could
have stood where reading stopped.
-/
namespace WireRecords.Directive

/-- The rules of the grammar, in the order in which they are listed to the user. -/
inductive Rule where
  | endOfInput
  | alpha
  | digit
  | hexdigit
  | alphanum
  | identifier
  | intvalue
  | hexvalue
  | integer
  | string
  | addOp
  | mulOp
  | widthProduct
  | widthSum
  | width
  | typePath
  | sliceType
  | arrayType
  | pointerType
  | typeExpr
  | endianness
  | field
  | recordId
  | directive
deriving DecidableEq, Repr, Inhabited

namespace Rule

/-- Every rule, in order. -/
def all : List Rule :=
  [endOfInput, alpha, digit, hexdigit, alphanum, identifier, intvalue, hexvalue, integer, string,
    addOp, mulOp, widthProduct, widthSum, width, typePath, sliceType, arrayType, pointerType,
    typeExpr, endianness, field, recordId, directive]

def name : Rule → String
  | endOfInput => "EOI"
  | alpha => "alpha"
  | digit => "digit"
  | hexdigit => "hexdigit"
  | alphanum => "alphanum"
  | identifier => "identifier"
  | intvalue => "intvalue"
  | hexvalue => "hexvalue"
  | integer => "integer"
  | string => "string"
  | addOp => "add_op"
  | mulOp => "mul_op"
  | widthProduct => "width_product"
  | widthSum => "width_sum"
  | width => "width"
  | typePath => "type_path"
  | sliceType => "slice_type"
  | arrayType => "array_type"
  | pointerType => "pointer_type"
  | typeExpr => "type_expr"
  | endianness => "endianness"
  | field => "field"
  | recordId => "record_id"
  | directive => "directive"

/-- A token rule admits no spacing inside, and hides the rules it is made of. -/
def isToken : Rule → Bool
  | identifier | intvalue | hexvalue | integer | string | endianness => true
  | _ => false

end Rule

/-- What a rule is made of. -/
inductive Pattern where
  | text (expected : List Char)
  | range (first last : Char)
  /-- Any character but this one. -/
  | anyBut (c : Char)
  /-- Succeeds, without moving, where this character does not stand. -/
  | notBefore (c : Char)
  | finish
  /-- One after the other, with spacing between them outside tokens. -/
  | seq (first second : Pattern)
  /-- The second only where the first fails. -/
  | alt (first second : Pattern)
  | optional (body : Pattern)
  | many (body : Pattern)
  | rule (r : Rule)
deriving DecidableEq, Repr, Inhabited

namespace Pattern

/-- The start of the text, before any spacing. -/
def start : Pattern := text []

def char (c : Char) : Pattern := text [c]

def atLeastOne (body : Pattern) : Pattern := seq body (many body)

/-- An operand of a width. -/
def widthOperand : Pattern :=
  alt (rule .integer) (alt (rule .identifier)
    (seq (char '(') (seq (rule .widthSum) (char ')'))))

end Pattern

open Pattern in
/-- The grammar. -/
def Rule.pattern : Rule → Pattern
  | endOfInput => finish
  | alpha => alt (range 'a' 'z') (alt (range 'A' 'Z') (char '_'))
  | digit => range '0' '9'
  | hexdigit => alt (rule digit) (alt (range 'a' 'f') (range 'A' 'F'))
  | alphanum => alt (rule alpha) (rule digit)
  | identifier => seq (rule alpha) (many (rule alphanum))
  | intvalue => atLeastOne (rule digit)
  | hexvalue => seq (alt (text ['0', 'x']) (text ['0', 'X'])) (atLeastOne (rule hexdigit))
  | integer => alt (rule hexvalue) (rule intvalue)
  | string => seq (char '"') (seq (many (anyBut '"')) (char '"'))
  | addOp => alt (char '+') (char '-')
  | mulOp => alt (char '*') (alt (char '/') (char '%'))
  | widthProduct => seq widthOperand (many (seq (rule mulOp) widthOperand))
  | widthSum => seq (rule widthProduct) (many (seq (rule addOp) (rule widthProduct)))
  | width => rule widthSum
  | typePath =>
    seq (rule identifier) (many (seq (alt (text [':', ':']) (char '.')) (rule identifier)))
  | sliceType => seq (char '[') (seq (char ']') (rule typeExpr))
  | arrayType => seq (char '[') (seq (rule integer) (seq (char ']') (rule typeExpr)))
  | pointerType => seq (char '*') (rule typeExpr)
  | typeExpr =>
    alt (rule sliceType) (alt (rule arrayType) (alt (rule pointerType)
      (alt (rule typePath) (rule string))))
  | endianness => atLeastOne (rule alphanum)
  | field =>
    seq (rule identifier) (seq (char '[') (seq (optional (rule width))
      (seq
        (optional (seq (char ',') (seq (optional (rule typeExpr))
          (optional (seq (char ',') (optional (rule endianness)))))))
        (char ']'))))
  | recordId => seq (rule identifier) (notBefore '[')
  | directive =>
    seq start (seq (optional (rule recordId)) (seq (many (rule field))
      (seq (optional (char ';')) (rule endOfInput))))

/-- A place in the text: the characters left, and the bytes before them. -/
structure Cursor where
  rest : List Char
  offset : Nat
deriving DecidableEq, Repr, Inhabited

namespace Cursor

def advance (k : Cursor) (count : Nat) : Cursor :=
  ⟨k.rest.drop count, k.offset + Text.byteSize (k.rest.take count)⟩

def skip (k : Cursor) : Cursor := k.advance (k.rest.takeWhile isSpacing).length

end Cursor

/-- The furthest position at which rules failed, and these rules. -/
structure Attempts where
  offset : Nat := 0
  rules : List Rule := []
deriving DecidableEq, Repr, Inhabited

namespace Attempts

def countAt (a : Attempts) (offset : Nat) : Nat :=
  if offset = a.offset then a.rules.length else 0

/-- Notes that `r` failed at `offset`, where `before` attempts were known when it was entered. The
rule stands for the attempts made inside it, unless there was exactly one. -/
def track (a : Attempts) (r : Rule) (offset before : Nat) : Attempts :=
  if a.countAt offset = before + 1 then a
  else if offset = a.offset then ⟨offset, a.rules.take before ++ [r]⟩
  else if offset > a.offset then ⟨offset, [r]⟩
  else a

end Attempts

/-- Recognises a pattern. The attempts survive also when the place is given up; `depth` bounds the
nesting of patterns. -/
def Pattern.recognize : Nat → Bool → Pattern → Cursor → Attempts → Attempts × Option Cursor
  | 0, _, _, _, a => (a, none)
  | depth + 1, inToken, p, k, a =>
    match p with
    | text expected =>
      if expected.isPrefixOf k.rest then (a, some (k.advance expected.length)) else (a, none)
    | range first last =>
      match k.rest with
      | c :: _ => if first ≤ c ∧ c ≤ last then (a, some (k.advance 1)) else (a, none)
      | [] => (a, none)
    | anyBut stop =>
      match k.rest with
      | c :: _ => if c = stop then (a, none) else (a, some (k.advance 1))
      | [] => (a, none)
    | notBefore stop => if k.rest.head? = some stop then (a, none) else (a, some k)
    | finish => if k.rest.isEmpty then (a, some k) else (a, none)
    | seq first second =>
      match recognize depth inToken first k a with
      | (a, some k) => recognize depth inToken second (if inToken then k else k.skip) a
      | (a, none) => (a, none)
    | alt first second =>
      match recognize depth inToken first k a with
      | (a, some k) => (a, some k)
      | (a, none) => recognize depth inToken second k a
    | .optional body =>
      match recognize depth inToken body k a with
      | (a, some k) => (a, some k)
      | (a, none) => (a, some k)
    | many body =>
      match recognize depth inToken body k a with
      | (a, none) => (a, some k)
      | (a, some k) => more depth inToken body k a
    | rule r =>
      let before := a.countAt k.offset
      match recognize depth (inToken || r.isToken) r.pattern k a with
      | (a, some k) => (a, some k)
      | (a', none) => (if inToken then a' else a'.track r k.offset before, none)
where
  /-- The repetitions behind the first one. -/
  more : Nat → Bool → Pattern → Cursor → Attempts → Attempts × Option Cursor
    | 0, _, _, k, a => (a, some k)
    | depth + 1, inToken, body, k, a =>
      match Pattern.recognize depth inToken body (if inToken then k else k.skip) a with
      | (a, none) => (a, some k)
      | (a, some k) => more depth inToken body k a

/-- The rules that could have continued the text where reading it failed, in order, and the offset
of that place. -/
def expectations (cs : List Char) : List Rule × Nat :=
  let (a, _) := Pattern.recognize (64 * (cs.length + 2)) false (.rule .directive) ⟨cs, 0⟩ {}
  (Rule.all.filter (· ∈ a.rules), a.offset)

/-- Alternatives as a reader expects them: `a`, `a or b`, `a, b, or c`. -/
def enumerate : List String → String
  | [] => ""
  | [a] => a
  | [a, b] => a ++ " or " ++ b
  | names => ", ".intercalate names.dropLast ++ ", or " ++ names.getLastD ""

end WireRecords.Directive
