import WireRecords.Analysis
import WireRecords.Collision
import WireRecords.Directive.Parser
import WireRecords.Extraction

/-!
# Compilation

Parses and analyses the directives of a list of units. The first directive that is refused ends the
compilation.
-/
namespace WireRecords

structure Config where
  /-- The start of a comment that holds a directive. -/
  marker : String := "//wire9"
  /-- Files whose name ends with this hold generated code, which never collides. -/
  generatedSuffix : String := "_wire9.rs"
  /-- Whether needless scopes are removed from generated procedures. -/
  flatten : Bool := true
  /-- Records that are left out. -/
  excluded : List String := []
deriving DecidableEq, Repr, Inhabited

/-- The directives of one host, and what the host declares already. -/
structure CompilationUnit where
  name : String
  directives : List DirectiveLine
  collisions : CollisionSet := {}
deriving DecidableEq, Repr, Inhabited

namespace CompilationUnit

def ofSource (config : Config) (name source : String) (collisions : CollisionSet := {}) :
    CompilationUnit :=
  ⟨name, DirectiveLine.extract config.marker source, collisions⟩

/-- A unit of directives given without a host. -/
def inline (name : String) (directives : List String) (collisions : CollisionSet := {}) :
    CompilationUnit :=
  ⟨name, DirectiveLine.number directives, collisions⟩

end CompilationUnit

/-- The record run, as far as it has come. -/
structure Compilation where
  /-- The records, in the order of their directives. -/
  records : List RecordDecl := []
  registry : Registry := {}
  collisions : CollisionSet := {}
  /-- The name of the directive that declares a record, the latest first. -/
  origins : List (String × String) := []
deriving DecidableEq, Repr, Inhabited

def Compilation.origin? (c : Compilation) (record : String) : Option String :=
  c.origins.lookup record

/-- Why there is no compilation. -/
inductive CompilationFailure where
  | rejected (diagnostic : Diagnostic)
  /-- The width of a record exceeds the words. -/
  | overflow (fault : ArithmeticFault)
deriving DecidableEq, Repr, Inhabited

/-- A compilation under way: the directives looked at and the remarks made. -/
structure Progress where
  sources : List Source := []
  journal : Journal := []
  compilation : Compilation := {}
deriving DecidableEq, Repr, Inhabited

namespace Progress

def remark (p : Progress) (level : Level) (text : String) : Progress :=
  { p with journal := p.journal ++ [⟨level, text⟩] }

/-- Compiles one directive, or stops with the progress made. -/
def addDirective (config : Config) (unit : String) (p : Progress) (d : DirectiveLine) :
    Except (Progress × CompilationFailure) Progress :=
  let name := s!"{unit}:{d.line}"
  let file := p.sources.length
  let p := { p with sources := p.sources ++ [⟨name, d.text⟩] }
  match Directive.parse file d.text with
  | .error e => .error (p, .rejected (e.diagnostic name file))
  | .ok directive =>
    if directive.id ∈ config.excluded then
      .ok (p.remark .debug s!"excluding record `{directive.id}` declared at {name}")
    else
      match analyze directive p.compilation.registry with
      | .error fault => .error (p, .overflow fault)
      | .ok (registry, .error fault) =>
        .error ({ p with compilation.registry := registry }, .rejected fault.diagnostic)
      | .ok (registry, .ok decl) =>
        let c := p.compilation
        .ok { p with
          compilation :=
            { c with
              registry
              records := c.records ++ [decl]
              origins := (directive.id, name) :: c.origins } }

def addDirectives (config : Config) (unit : String) (p : Progress) :
    List DirectiveLine → Except (Progress × CompilationFailure) Progress
  | [] => .ok p
  | d :: ds =>
    match p.addDirective config unit d with
    | .ok p => p.addDirectives config unit ds
    | .error e => .error e

def addUnit (config : Config) (p : Progress) (u : CompilationUnit) :
    Except (Progress × CompilationFailure) Progress :=
  let p := p.remark .debug s!"compiling {u.directives.length} directive(s) of {u.name}"
  match p.addDirectives config u.name u.directives with
  | .error e => .error e
  | .ok p =>
    let (collisions, remarks) := p.compilation.collisions.merge u.collisions
    .ok { p with
      compilation.collisions := collisions
      journal := p.journal ++ remarks }

def addUnits (config : Config) (p : Progress) :
    List CompilationUnit → Except (Progress × CompilationFailure) Progress
  | [] => .ok p
  | u :: us =>
    match p.addUnit config u with
    | .ok p => p.addUnits config us
    | .error e => .error e

end Progress

/-- Compiles units. The collisions of later units win over those of earlier ones. -/
def compile (config : Config) (units : List CompilationUnit) :
    Except (Progress × CompilationFailure) Progress :=
  match Progress.addUnits config {} units with
  | .error e => .error e
  | .ok p => .ok (if p.compilation.records.isEmpty then p.remark .warn "no directive found" else p)

end WireRecords
