import WireRecords.Text.Blank

/-!
# Directives in host sources

A directive stands in a comment of its own: a line that starts, after indentation, with a marker
and a blank.
-/
namespace WireRecords

/-- A directive and the number of its line, counted from one. -/
structure DirectiveLine where
  line : Nat
  text : String
deriving DecidableEq, Repr, Inhabited

namespace DirectiveLine

/-- The directive of a line of the host, if it holds one. -/
def ofLine? (marker line : List Char) : Option (List Char) :=
  match Text.dropPrefix? marker (Text.trimStart line) with
  | some (c :: text) =>
    if Text.isBlank c then
      match Text.trim (c :: text) with
      | [] => none
      | directive => some directive
    else none
  | _ => none

/-- The directives among lines of which the first has the number `line`. -/
def ofLines (marker : List Char) : Nat → List (List Char) → List DirectiveLine
  | _, [] => []
  | line, l :: ls =>
    match ofLine? marker l with
    | some text => ⟨line, String.ofList text⟩ :: ofLines marker (line + 1) ls
    | none => ofLines marker (line + 1) ls

/-- The directives of a host source. -/
def extract (marker source : String) : List DirectiveLine :=
  ofLines marker.toList 1 (Text.lines source.toList)

/-- Directives given without a host, numbered from one. -/
def number (directives : List String) : List DirectiveLine :=
  go 1 directives
where
  go : Nat → List String → List DirectiveLine
    | _, [] => []
    | line, text :: rest => ⟨line, text⟩ :: go (line + 1) rest

end DirectiveLine

end WireRecords
