import WireRecords.Collision

/-!
# Outlines

What a program file declares, as far as it can collide with the types and procedures of records.
-/
namespace WireRecords.Host

/-- An item of a file. -/
inductive Outline where
  | type (name : String)
  /-- Methods, and the name of the type they belong to if it has one. -/
  | methods (target : Option String) (names : List String)
  | module (items : List Outline)
deriving Repr, Inhabited

/-- The procedure that a method of this name is. -/
def procedureOf? (method : String) : Option SymbolKind :=
  if method = "read_binary" then some .decode
  else if method = "write_binary" then some .encode
  else none

mutual

/-- The symbols that an item declares, in order. -/
def Outline.symbols : Outline → List Symbol
  | .type name => [⟨name, .type⟩]
  | .methods none _ => []
  | .methods (some target) names => names.filterMap fun n => (procedureOf? n).map (⟨target, ·⟩)
  | .module items => symbolsOf items

def symbolsOf : List Outline → List Symbol
  | [] => []
  | i :: is => i.symbols ++ symbolsOf is

end

/-- The declarations of items that are found at `provenance`. -/
def declarations (provenance : String) (items : List Outline) : List Declaration :=
  (symbolsOf items).map (⟨·, provenance⟩)

end WireRecords.Host
