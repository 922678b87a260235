import WireRecords.Diagnostic.Snippet
import WireRecords.Host.Scan
import WireRecords.Program.Generation
import WireRecords.Program.Tokens

/-!
# Expanding modules

Puts the generated code of directives into a module, before the module's own items. What the module
declares itself is not generated again.
-/
namespace WireRecords

open Program (Token)

/-- Why a module is not expanded. -/
inductive ExpansionError where
  | missingFile
  | unreadable (error : FileError)
  | rejected (sources : List Source) (diagnostic : Diagnostic)
  | overflow (fault : ArithmeticFault)
deriving DecidableEq, Repr, Inhabited

def ExpansionError.message : ExpansionError → String
  | missingFile => "error: unable to find file"
  | unreadable error => s!"error: unable to read file: {error.message}"
  | rejected sources diagnostic => diagnostic.render sources
  | overflow fault => fault.message

namespace Host.Module

/-- The declarations of the module itself. -/
def declarations (m : Module) : List Declaration := Host.declarations s!"mod {m.name}" m.outlines

/-- An item that makes a module depend on a file. -/
def dependency (path : String) : List Token :=
  [.ident "const", .ident "_"] ++ Token.operator ":" ++ Token.operator "&" ++
    [.brackets [.ident "u8"]] ++ Token.operator "=" ++ [.ident "include_bytes"] ++
    Token.operator "!" ++ [.parens [.literal (Text.quoteLiteral path)]] ++ Token.operator ";"

/-- The module with generated code before its own items. -/
def wrap (m : Module) (generated : List Token) : List Token :=
  m.attributes ++ m.visibility ++
    [.ident "mod", .ident m.name, .braces (generated ++ m.body)]

/-- Expands the directives of a unit, which may come from a file. -/
def expand (m : Module) (unit : String) (directives : List DirectiveLine) (file : Option String) :
    Journal × Except ExpansionError (List Token) :=
  let config : Config := {}
  let (collisions, before) := CollisionSet.detect (fun _ => false) m.declarations
  match compile config [⟨unit, directives, collisions⟩] with
  | .error (p, .rejected d) => (before ++ p.journal, .error (.rejected p.sources d))
  | .error (p, .overflow fault) => (before ++ p.journal, .error (.overflow fault))
  | .ok p =>
    let (after, items) := Program.generate p.compilation config.flatten
    (before ++ p.journal ++ after,
      match items with
      | .error e => .error (.rejected p.sources e.diagnostic)
      | .ok items =>
        .ok (m.wrap ((file.map dependency).getD [] ++ Program.tokensOfItems items)))

def expandInline (m : Module) (directives : List String) :
    Journal × Except ExpansionError (List Token) :=
  m.expand m.name (DirectiveLine.number directives) none

/-- Expands the directives of a file, which is looked for in the root directory and then among the
sources. -/
def expandFile (m : Module) (fs : Files) (file : String) :
    Journal × Except ExpansionError (List Token) :=
  match [Path.below "." file, Path.below "./src" file].find? fs.contains with
  | none => ([], .error .missingFile)
  | some path =>
    match fs.readText path with
    | .error e => ([], .error (.unreadable e))
    | .ok text =>
      m.expand file (DirectiveLine.extract ({} : Config).marker text) (some path)

end Host.Module

end WireRecords
