/-!
# Names in procedures

Records and fields may be named like keywords of the language that procedures are written in. Such a
name is marked as a plain name, except for the few that cannot be marked.
-/
namespace WireRecords.Program

/-- Keywords that a mark turns into plain names. -/
def keywords : List String :=
  ["as", "break", "const", "continue", "else", "enum", "extern", "false", "fn", "for", "if", "impl",
    "in", "let", "loop", "match", "mod", "move", "mut", "pub", "ref", "return", "static", "struct",
    "trait", "true", "type", "unsafe", "use", "where", "while", "async", "await", "dyn",
    "abstract", "become", "box", "do", "final", "macro", "override", "priv", "typeof", "unsized",
    "virtual", "yield", "try"]

/-- Keywords that stay keywords, whatever stands before them. -/
def pathKeywords : List String := ["self", "Self", "super", "crate"]

/-- The spelling of a name. -/
def escape (name : String) : String := if name ∈ keywords then "r#" ++ name else name

/-- There is no name without characters. -/
def emptyNameMessage : String := "Ident is not allowed to be empty; use Option<Ident>"

def escape? (name : String) : Except String String :=
  if name.isEmpty then .error emptyNameMessage else .ok (escape name)

/-- Cuts a path at every `::`. -/
def splitPath : List Char → List (List Char)
  | [] => [[]]
  | ':' :: ':' :: cs => [] :: splitPath cs
  | c :: cs =>
    match splitPath cs with
    | [] => [[c]]
    | s :: ss => (c :: s) :: ss

/-- The segments of a path such as `image::Point`. -/
def segments (path : String) : List String :=
  (splitPath path.toList).map fun s => escape (String.ofList s)

end WireRecords.Program
