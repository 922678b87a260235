import WireRecords.Program.Layout
import WireRecords.Program.Tokens

/-!
# The text of files

Items, statements and expressions as documents. Lists of arguments, fields and parameters stand on
one line or one to a line; a chain of calls is broken before its dots.
-/
namespace WireRecords.Program

namespace Doc

/-- The indentation of one level. -/
def step : Int := 4

def word (s : String) : List Doc := [text s]

/-- A box without content vanishes, as does an inner place at its end. -/
def boxed (indent : Int) (isConsistent : Bool) (body : List Doc) : List Doc :=
  match body with
  | [place _] => []
  | body =>
    match body.getLast? with
    | some (place b) =>
      [box indent isConsistent (if b.isInner then body.dropLast else body)]
    | _ => [box indent isConsistent body]

def consistent (indent : Int) (body : List Doc) : List Doc := boxed indent true body

def filling (indent : Int) (body : List Doc) : List Doc := boxed indent false body

def space : List Doc := [place { blanks := 1 }]

def joint : List Doc := [place {}]

def never : List Doc := [place { isNever := true }]

def lineBreak : List Doc := [place { blanks := unbounded }]

/-- Documents in a list, separated by commas. If the list is broken, every one stands on a line of
its own and is followed by a comma. -/
def arguments (indent : Int) (docs : List (List Doc)) : List Doc :=
  consistent indent (joint ++ separated docs)
where
  separated : List (List Doc) → List Doc
    | [] => []
    | [d] => d ++ [place { offset := -step, comma := true }]
    | d :: ds => d ++ word "," ++ space ++ separated ds

/-- Lines, the last of which is followed by a line that is indented one level less. -/
def lines : List (List Doc) → List Doc
  | [] => []
  | [d] => d ++ [place { blanks := unbounded, offset := -step }]
  | d :: ds => d ++ lineBreak ++ lines ds

/-- The lines of a body, up to its closing brace. Without lines the braces stand together. -/
def body : List (List Doc) → List Doc
  | [] => [place { blanks := unbounded, offset := -step, isInner := true }]
  | ds => place { blanks := unbounded, isInner := true } :: lines ds

/-- A block in braces. A single value may stand on the line of the braces. -/
def block (isValue : Bool) : List (List Doc) → List Doc
  | [] => word "\x7b\x7d"
  | ds =>
    if isValue then
      word "\x7b" ++ space ++ ds.flatten ++ [place { blanks := 1, offset := -step }] ++ word "\x7d"
    else word "\x7b" ++ space ++ lines ds ++ word "\x7d"

/-- The fields of a construction, up to its closing brace. -/
def fields : List (List Doc) → List Doc
  | [] => [place { blanks := 1, offset := -step, isInner := true }]
  | ds => place { blanks := 1, isInner := true } :: separated ds
where
  separated : List (List Doc) → List Doc
    | [] => []
    | [d] => d ++ [place { blanks := 1, offset := -step, comma := true }]
    | d :: ds => d ++ word "," ++ space ++ separated ds

end Doc

open Doc (word consistent filling space joint never lineBreak step)

mutual

def Ty.doc : Ty → List Doc
  | .path segments [] => word ("::".intercalate segments)
  | .path segments arguments =>
    word ("::".intercalate segments) ++ word "<" ++ Doc.arguments step (docsOfTypes arguments) ++
      word ">"
  | .array element length => word "[" ++ element.doc ++ word ("; " ++ toString length) ++ word "]"
  | .slice element => word "[" ++ element.doc ++ word "]"
  | .reference isMutable target => word (if isMutable then "&mut " else "&") ++ target.doc
  | .bounded bound => word ("impl " ++ bound)
  | .unit => word "()"

def docsOfTypes : List Ty → List (List Doc)
  | [] => []
  | t :: ts => t.doc :: docsOfTypes ts

end

/-! ## Attributes and signatures -/

/-- Whether the comments inside a text are closed. -/
def isNested : Nat → List Char → Bool
  | depth, '/' :: '*' :: cs => isNested (depth + 1) cs
  | depth, '*' :: '/' :: cs => depth != 0 && isNested (depth - 1) cs
  | depth, _ :: cs => isNested depth cs
  | depth, [] => depth == 0

/-- Drops the blanks at the end of a line. -/
def trimLine (line : List Char) : List Char := (line.reverse.dropWhile (· == ' ')).reverse

/-- Drops the blanks at the end of every line but the last. -/
def trimLines : List Char → List Char
  | [] => []
  | c :: cs =>
    let rest := trimLines cs
    if c == ' ' && rest.head? == some '\n' then rest else c :: rest

/-- Documentation is written as a comment if it can be. -/
def docOfText (text : String) : List Doc :=
  let cs := text.toList
  if '\n' ∉ cs && cs.head? != some '/' then
    word "///" ++ word (String.ofList (trimLine cs)) ++ lineBreak
  else if isNested 0 cs && cs.getLast? != some '/' && cs.head? != some '/' &&
      cs.head? != some '*' then
    word "/**" ++ word (String.ofList (trimLines cs)) ++ word "*/" ++ lineBreak
  else word ("#[doc = " ++ Text.quoteLiteral text ++ "]") ++ space

def Attribute.layout : Attribute → List Doc
  | doc text | docComment text => docOfText text
  | list name arguments =>
    word ("#[" ++ name ++ "(" ++ ", ".intercalate arguments ++ ")]") ++ space

def docOfAttributes (as : List Attribute) : List Doc := as.flatMap Attribute.layout

def Parameter.doc : Parameter → List Doc
  | receiver isMutable => word (if isMutable then "&mut self" else "&self")
  | typed name type => word (name ++ ": ") ++ type.doc

def Signature.doc (s : Signature) : List Doc :=
  (if s.isPublic then word "pub " else []) ++ word "fn " ++ word s.name ++
    (match s.generic with
      | none => []
      | some (name, bound) =>
        word "<" ++ Doc.arguments 0 [word (name ++ ": " ++ bound)] ++ word ">") ++
    word "(" ++ never ++ Doc.arguments 0 (s.parameters.map Parameter.doc) ++ word ")" ++
    consistent (-step)
      (match s.result with
        | none => []
        | some type => word " -> " ++ type.doc)

/-! ## Expressions -/

/-- A name that is no longer than one level of indentation. -/
def isShortName : Expr → Bool
  | .path [name] => name.utf8ByteSize ≤ 4
  | _ => false

/-- Where an expression stands. -/
inductive Place where
  | inner
  /-- At the start of a statement. -/
  | start
  /-- Inside a chain of calls, which may start a statement. -/
  | link (isStart : Bool)
deriving DecidableEq, Repr, Inhabited

namespace Place

def isStart : Place → Bool
  | inner => false
  | start => true
  | link isStart => isStart

/-- What is no link of a chain is its first part, which is not indented. -/
def wrap (p : Place) (docs : List Doc) : List Doc :=
  match p with
  | link _ => consistent (-step) docs
  | _ => docs

/-- The box of a whole chain. -/
def chain (p : Place) (docs : List Doc) : List Doc :=
  match p with
  | link _ => docs
  | _ => consistent step docs

/-- The place before a dot. A short name at the start of a statement keeps its dot. -/
def beforeDot (p : Place) (base : Expr) : List Doc :=
  if p.isStart && isShortName base then [] else joint

/-- Where the called function of a call stands. -/
def ofCallee : Place → Place
  | link _ => link false
  | p => p

/-- The indentation of the arguments of a call. -/
def argumentIndent (p : Place) (base : Expr) : Int :=
  match p with
  | start => if isShortName base then -step else 0
  | _ => 0

end Place

/-- An only argument that brings its own lines needs no box. -/
def isBlockLike : Expr → Bool
  | .closure .. | .construct .. | .unit => true
  | .block _ hasAttribute _ => !hasAttribute
  | .unchecked _ => true
  | _ => false

/-- Whether what follows a condition moves to the next line when the condition is broken. -/
def movesAfter : Expr → Bool
  | .assign .. | .binary .. | .cast .. | .field .. | .index .. | .method .. => true
  | .call callee _ => movesAfter callee
  | .paren inner | .deref inner | .borrow _ inner | .propagate inner | .returned inner =>
    movesAfter inner
  | .range _ stop => movesAfter stop
  | _ => false

/-- What separates a condition from the brace after it. -/
def afterCondition (e : Expr) : List Doc := if movesAfter e then space else word " "

/-- Loops and branches end without a semicolon. -/
def endsWithBlock : Expr → Bool
  | .forEach .. | .whileLoop .. | .branch _ _ none => true
  | _ => false

/-- Statements that get a semicolon even at the end of a block. -/
def needsSemicolon : Expr → Bool
  | .assign .. | .returned _ => true
  | _ => false

/-- A block that is nothing but a value. -/
def isValue : Block → Bool
  | [.expr _ false] => true
  | _ => false

/-- The arguments of a call, given as documents. An only argument that brings its own lines needs no
box. -/
def callArguments (arguments : List Expr) (docs : List (List Doc)) : List Doc :=
  match arguments with
  | [e] => if isBlockLike e then docs.flatten else Doc.arguments step docs
  | _ => Doc.arguments step docs

/-- The widest construction on one line. -/
def maxConstruction : Nat := 34

/-- A construction that is too wide is broken even if the line has room for it. -/
def construction (path : List String) (fields : List (List Doc)) : List Doc :=
  let body := word ("::".intercalate path) ++ word " \x7b" ++ Doc.fields fields
  consistent step (if maxConstruction < Doc.widthOf body then body ++ [.overflow] else body) ++
    word "\x7d"

mutual

def Expr.doc (p : Place) : Expr → List Doc
  | .path segments => p.wrap (word ("::".intercalate segments))
  | .literal value => p.wrap (word value.text)
  | .unit => p.wrap (word "()")
  | .paren inner => p.wrap (word "(" ++ inner.doc .inner ++ word ")")
  | .deref inner => p.wrap (word "*" ++ inner.doc .inner)
  | .borrow isMutable inner =>
    p.wrap (word (if isMutable then "&mut " else "&") ++ inner.doc .inner)
  | .propagate inner => inner.doc p ++ word "?"
  | .cast inner type =>
    p.wrap (filling step
      (filling (-step) (inner.doc .inner) ++ space ++ word "as " ++ type.doc))
  | .binary symbol lhs rhs =>
    p.wrap (filling step
      (filling (-step) (lhs.doc .inner) ++ space ++ word (symbol ++ " ") ++ rhs.doc .inner))
  | .assign place value =>
    p.wrap (filling 0 (place.doc .inner ++ word " = " ++ never ++ value.doc .inner))
  | .call callee arguments =>
    callee.doc p.ofCallee ++ word "(" ++ callArguments arguments (docsOfExprs arguments) ++
      word ")"
  | .method receiver name arguments =>
    p.chain (receiver.doc (.link p.isStart) ++ p.beforeDot receiver ++ word ("." ++ name) ++
      consistent (p.argumentIndent receiver)
        (word "(" ++ callArguments arguments (docsOfExprs arguments) ++ word ")"))
  | .field base name =>
    p.chain (base.doc (.link p.isStart) ++ p.beforeDot base ++ word ("." ++ name))
  | .index base position => base.doc p ++ word "[" ++ position.doc .inner ++ word "]"
  | .range none stop => p.wrap (word ".." ++ stop.doc .inner)
  | .range (some start) stop => p.wrap (start.doc .inner ++ word ".." ++ stop.doc .inner)
  | .repetition value length =>
    p.wrap (word "[" ++ value.doc .inner ++ word "; " ++ length.doc .inner ++ word "]")
  | .vector value length =>
    p.wrap (word "vec![" ++ consistent step
      (joint ++ filling 0 (value.doc .inner ++ word "; " ++ length.doc .inner) ++
        [.place { offset := -step }]) ++ word "]")
  | .construct path fields => p.wrap (construction path (docsOfFields fields))
  | .returned value => p.wrap (word "return " ++ value.doc .inner)
  | .closure none body =>
    p.wrap (filling 0
      (consistent step (word "||" ++ [.place { blanks := 1, offset := -step }]) ++ never ++
        consistent step (Doc.block (isValue body) (docsOfStmts (isValue body) body))))
  | .closure (some type) body =>
    p.wrap (filling 0
      (consistent step (word "||") ++ word " -> " ++ type.doc ++ word " " ++ never ++
        consistent step (Doc.block (isValue body) (docsOfStmts (isValue body) body))))
  | .block none _ body =>
    p.wrap (consistent step (Doc.block (isValue body) (docsOfStmts (isValue body) body)))
  | .block (some label) _ body =>
    p.wrap (word ("'" ++ label ++ ": ") ++
      consistent step (Doc.block (isValue body) (docsOfStmts (isValue body) body)))
  | .branch condition body none =>
    p.wrap (consistent step
      (word "if " ++
        consistent (-step) (consistent 0 (condition.doc .inner ++ afterCondition condition)) ++
        (if body.isEmpty then word "\x7b\x7d"
        else word "\x7b" ++ lineBreak ++ Doc.lines (docsOfStmts false body) ++ word "\x7d")))
  | .branch condition body (some otherwise) =>
    p.wrap (consistent step
      (word "if " ++
        consistent (-step) (consistent 0 (condition.doc .inner ++ afterCondition condition)) ++
        Doc.block (isValue body) (docsOfStmts (isValue body) body) ++ word " else " ++
        Doc.block (isValue otherwise) (docsOfStmts (isValue otherwise) otherwise)))
  | .forEach name source body =>
    p.wrap (filling 0
      (word ("for " ++ name ++ " in ") ++ never ++
        consistent 0 (source.doc .inner ++ afterCondition source) ++ word "\x7b" ++ never ++
        consistent step (Doc.body (docsOfStmts false body)) ++ word "\x7d"))
  | .whileLoop condition body =>
    p.wrap (consistent step
      (word "while " ++ consistent 0 (condition.doc .inner ++ afterCondition condition) ++
        word "\x7b" ++ never ++ Doc.body (docsOfStmts false body) ++ word "\x7d"))
  | .endless body =>
    p.wrap (word "loop \x7b" ++ consistent step (Doc.body (docsOfStmts false body)) ++
      word "\x7d")
  | .unchecked body =>
    p.wrap (word "unsafe " ++
      consistent step (Doc.block (isValue body) (docsOfStmts (isValue body) body)))

def docsOfExprs : List Expr → List (List Doc)
  | [] => []
  | e :: es => e.doc .inner :: docsOfExprs es

def docsOfFields : List (String × Expr) → List (List Doc)
  | [] => []
  | (name, value) :: fields =>
    (word (name ++ ": ") ++ filling 0 (value.doc .inner)) :: docsOfFields fields

/-- A statement without the end of its line. A value that is all of its block gets no semicolon. -/
def Stmt.doc (isAlone : Bool) : Stmt → List Doc
  | .expr value true =>
    filling 0 (value.doc .start ++ if endsWithBlock value then [] else word ";")
  | .expr value false =>
    filling 0 (value.doc .start ++ if needsSemicolon value && !isAlone then word ";" else [])
  | .binding isMutable name type value =>
    filling 0
      (word "let " ++ (if isMutable then word "mut " else []) ++ word name ++
        (match type with
          | none => []
          | some t => word ": " ++ t.doc) ++
        word " = " ++ never ++ value.doc .inner) ++
      word ";"
  | .invocation name hasSemicolon => word (name ++ "!()" ++ if hasSemicolon then ";" else "")
  | .item item => item.doc

def docsOfStmts (isAlone : Bool) : Block → List (List Doc)
  | [] => []
  | s :: ss => s.doc isAlone :: docsOfStmts isAlone ss

/-- An item without the end of its line. -/
def Item.doc : Item → List Doc
  | .imports attributes path names =>
    docOfAttributes attributes ++
      word ("use " ++ path ++ "::\x7b" ++ ", ".intercalate names ++ "\x7d;")
  | .constant attributes name =>
    docOfAttributes attributes ++ word ("const " ++ name ++ ": () = ();")
  | .struct attributes name fields =>
    docOfAttributes attributes ++
      consistent step (word ("pub struct " ++ name ++ " \x7b") ++
        Doc.body (fields.map fun (name, type) =>
          word ("pub " ++ name ++ ": ") ++ type.doc ++ word ",")) ++
      word "\x7d"
  | .function signature body =>
    docOfAttributes signature.attributes ++
      consistent step (signature.doc ++ word " \x7b" ++ Doc.body (docsOfStmts false body)) ++
      word "\x7d"
  | .methods trait target functions =>
    consistent step
        (filling (-step)
          (word "impl " ++
            (match trait with
              | none => []
              | some trait => word trait ++ space ++ word "for ") ++
            target.doc) ++
          word " \x7b" ++ Doc.body (docsOfFunctions functions)) ++
      word "\x7d"
  | .trait name functions =>
    consistent step (word ("trait " ++ name ++ " \x7b") ++ Doc.body (docsOfFunctions functions)) ++
      word "\x7d"
  | .module name items =>
    consistent step (word ("mod " ++ name ++ " \x7b") ++ Doc.body (docsOfItems items)) ++
      word "\x7d"

def docsOfFunctions : List (Signature × Block) → List (List Doc)
  | [] => []
  | (signature, body) :: fs =>
    (docOfAttributes signature.attributes ++
      consistent step (signature.doc ++ word " \x7b" ++ Doc.body (docsOfStmts false body)) ++
      word "\x7d") :: docsOfFunctions fs

def docsOfItems : List Item → List (List Doc)
  | [] => []
  | i :: is => i.doc :: docsOfItems is

end

/-- The text of a file. Every item ends its line. -/
def sourceText (items : List Item) : String :=
  Doc.render (consistent 0 ((docsOfItems items).flatMap (· ++ lineBreak)))

end WireRecords.Program
