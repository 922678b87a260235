import WireRecords.Directive

/-!
# Concrete syntax of directives

Reading a directive character by character. Numbers stay the digits that were written: whether they
fit a word, and whether a byte order is one, is asked only of a text that has the right shape.
Spaces and tabs may stand between any two tokens.

Every reader takes the characters that are left and returns what it read with the characters after
it. Readers that nest take a bound on their depth, which the length of the text provides.
-/
namespace WireRecords.Directive

def isAlpha (c : Char) : Bool := ('a' ≤ c && c ≤ 'z') || ('A' ≤ c && c ≤ 'Z') || c == '_'

def isDigit (c : Char) : Bool := '0' ≤ c && c ≤ '9'

def isHexDigit (c : Char) : Bool :=
  isDigit c || ('a' ≤ c && c ≤ 'f') || ('A' ≤ c && c ≤ 'F')

def isAlphanumeric (c : Char) : Bool := isAlpha c || isDigit c

def isSpacing (c : Char) : Bool := c == ' ' || c == '\t'

/-- Drops the spaces and tabs before a token. -/
def skip (cs : List Char) : List Char := cs.dropWhile isSpacing

/-- A width with its numbers as written. -/
inductive WidthTree where
  | number (digits : List Char)
  | field (id : String)
  | binary (op : Operator) (lhs rhs : WidthTree)
deriving DecidableEq, Repr, Inhabited

/-- A type with its numbers as written. -/
inductive TypeTree where
  | named (path : List String)
  | slice (element : TypeTree)
  | array (digits : List Char) (element : TypeTree)
  | pointer (target : TypeTree)
  | constant (value : String)
deriving DecidableEq, Repr, Inhabited

/-- A field as written, between the characters `start` and `rest`. The byte order comes with the
characters that follow it. -/
structure FieldTree where
  start : List Char
  rest : List Char
  id : String
  width : Option WidthTree
  type : Option TypeTree
  endian : Option (List Char × List Char)
deriving DecidableEq, Repr, Inhabited

def identifier : List Char → Option (String × List Char)
  | c :: cs =>
    if isAlpha c then
      some (String.ofList (c :: cs.takeWhile isAlphanumeric), cs.dropWhile isAlphanumeric)
    else none
  | [] => none

/-- One or more characters of a class. -/
def run (p : Char → Bool) (cs : List Char) : Option (List Char × List Char) :=
  match cs.takeWhile p with
  | [] => none
  | c :: word => some (c :: word, cs.dropWhile p)

/-- A hexadecimal number behind its mark `0x` or `0X`. -/
def hexNumber : List Char → Option (List Char × List Char)
  | '0' :: x :: cs =>
    if x = 'x' ∨ x = 'X' then
      match run isHexDigit cs with
      | some (word, rest) => some ('0' :: x :: word, rest)
      | none => none
    else none
  | _ => none

def number (cs : List Char) : Option (List Char × List Char) :=
  match hexNumber cs with
  | some r => some r
  | none => run isDigit cs

def sumOperator : Char → Option Operator
  | '+' => some .add
  | '-' => some .sub
  | _ => none

def productOperator : Char → Option Operator
  | '*' => some .mul
  | '/' => some .div
  | '%' => some .rem
  | _ => none

mutual

/-- A number, a field, or a sum in parentheses. -/
def widthAtom : Nat → List Char → Option (WidthTree × List Char)
  | 0, _ => none
  | depth + 1, cs =>
    match number cs with
    | some (digits, rest) => some (.number digits, rest)
    | none =>
      match identifier cs with
      | some (id, rest) => some (.field id, rest)
      | none =>
        match cs with
        | '(' :: rest =>
          match widthSum depth (skip rest) with
          | some (w, rest) =>
            match skip rest with
            | ')' :: rest => some (w, rest)
            | _ => none
          | none => none
        | _ => none

def widthProduct : Nat → List Char → Option (WidthTree × List Char)
  | 0, _ => none
  | depth + 1, cs =>
    match widthAtom depth cs with
    | some (w, rest) => widthFactors depth w rest
    | none => none

/-- The factors behind `lhs`, which associates to the left. -/
def widthFactors : Nat → WidthTree → List Char → Option (WidthTree × List Char)
  | 0, _, _ => none
  | depth + 1, lhs, cs =>
    match skip cs with
    | c :: rest =>
      match productOperator c with
      | some op =>
        match widthAtom depth (skip rest) with
        | some (rhs, rest) => widthFactors depth (.binary op lhs rhs) rest
        | none => some (lhs, cs)
      | none => some (lhs, cs)
    | [] => some (lhs, cs)

def widthSum : Nat → List Char → Option (WidthTree × List Char)
  | 0, _ => none
  | depth + 1, cs =>
    match widthProduct depth cs with
    | some (w, rest) => widthTerms depth w rest
    | none => none

/-- The terms behind `lhs`, which associates to the left. -/
def widthTerms : Nat → WidthTree → List Char → Option (WidthTree × List Char)
  | 0, _, _ => none
  | depth + 1, lhs, cs =>
    match skip cs with
    | c :: rest =>
      match sumOperator c with
      | some op =>
        match widthProduct depth (skip rest) with
        | some (rhs, rest) => widthTerms depth (.binary op lhs rhs) rest
        | none => some (lhs, cs)
      | none => some (lhs, cs)
    | [] => some (lhs, cs)

end

/-- The separator of two path segments. -/
def pathSeparator : List Char → Option (List Char)
  | ':' :: ':' :: rest => some rest
  | '.' :: rest => some rest
  | _ => none

/-- The segments that follow the first one. -/
def pathSegments : Nat → List Char → List String × List Char
  | 0, cs => ([], cs)
  | depth + 1, cs =>
    match pathSeparator (skip cs) with
    | some rest =>
      match identifier (skip rest) with
      | some (id, rest) =>
        let (ids, rest) := pathSegments depth rest
        (id :: ids, rest)
      | none => ([], cs)
    | none => ([], cs)

/-- Any text between two double quotes. -/
def quotedText : List Char → Option (String × List Char)
  | '"' :: cs =>
    match cs.dropWhile (· != '"') with
    | _ :: rest => some (String.ofList (cs.takeWhile (· != '"')), rest)
    | [] => none
  | _ => none

def typeTree : Nat → List Char → Option (TypeTree × List Char)
  | 0, _ => none
  | depth + 1, cs =>
    match cs with
    | '[' :: rest =>
      match skip rest with
      | ']' :: rest => (typeTree depth (skip rest)).map fun (t, rest) => (.slice t, rest)
      | inner =>
        match number inner with
        | some (digits, rest) =>
          match skip rest with
          | ']' :: rest =>
            (typeTree depth (skip rest)).map fun (t, rest) => (.array digits t, rest)
          | _ => none
        | none => none
    | '*' :: rest => (typeTree depth (skip rest)).map fun (t, rest) => (.pointer t, rest)
    | '"' :: _ => (quotedText cs).map fun (value, rest) => (.constant value, rest)
    | _ =>
      match identifier cs with
      | some (id, rest) =>
        let (ids, rest) := pathSegments depth rest
        some (.named (id :: ids), rest)
      | none => none

/-- A bound on the depth of every reader of a text. -/
def depthBound (cs : List Char) : Nat := 4 * cs.length + 4

/-- A reader that may also read nothing. -/
def attempt {α : Type} (read : List Char → Option (α × List Char)) (cs : List Char) :
    Option α × List Char :=
  match read cs with
  | some (a, rest) => (some a, rest)
  | none => (none, cs)

/-- Type and byte order, each behind its comma. -/
def typePart (cs : List Char) :
    Option TypeTree × Option (List Char × List Char) × List Char :=
  match cs with
  | ',' :: rest =>
    let (type, rest) := attempt (typeTree (depthBound rest)) (skip rest)
    match skip rest with
    | ',' :: rest' =>
      match run isAlphanumeric (skip rest') with
      | some (word, rest) => (type, some (word, rest), rest)
      | none => (type, none, rest')
    | _ => (type, none, rest)
  | _ => (none, none, cs)

def fieldTree (cs : List Char) : Option (FieldTree × List Char) :=
  match identifier cs with
  | some (id, rest) =>
    match skip rest with
    | '[' :: rest =>
      let (width, rest) := attempt (widthSum (depthBound rest)) (skip rest)
      let (type, endian, rest) := typePart (skip rest)
      match skip rest with
      | ']' :: rest => some (⟨cs, rest, id, width, type, endian⟩, rest)
      | _ => none
    | _ => none
  | none => none

/-- As many fields as can be read; `bound` is a bound on their number. -/
def fieldTrees : Nat → List Char → List FieldTree × List Char
  | 0, cs => ([], cs)
  | bound + 1, cs =>
    match fieldTree (skip cs) with
    | some (f, rest) =>
      let (fs, rest) := fieldTrees bound rest
      (f :: fs, rest)
    | none => ([], cs)

/-- The name of the record: an identifier that does not open a field. -/
def recordName (cs : List Char) : Option (String × List Char) :=
  match identifier cs with
  | some (id, rest) =>
    match skip rest with
    | '[' :: _ => none
    | _ => some (id, rest)
  | none => none

/-- Name and fields of a record, and the text behind them. -/
structure Head where
  id : Option String
  fields : List FieldTree
  rest : List Char
deriving DecidableEq, Repr, Inhabited

def Head.read (cs : List Char) : Head :=
  let (id, rest) := attempt recordName (skip cs)
  let (fields, rest) := fieldTrees cs.length rest
  ⟨id, fields, rest⟩

/-- A head may be closed by one semicolon, and nothing else may follow it. -/
def Head.isComplete (h : Head) : Bool :=
  match skip h.rest with
  | [] => true
  | ';' :: rest => (skip rest).isEmpty
  | _ => false

end WireRecords.Directive
