import WireRecords.Journal

/-!
# Collisions

The declarations that a host already has, and that must not be generated again. A set keeps for
every symbol where it was declared; a later declaration replaces an earlier one.
-/
namespace WireRecords

inductive SymbolKind where
  | type
  | decode
  | encode
deriving DecidableEq, Repr, Inhabited

namespace SymbolKind

def name : SymbolKind → String
  | type => "type"
  | decode => "decode procedure"
  | encode => "encode procedure"

def rank : SymbolKind → Nat
  | type => 0
  | decode => 1
  | encode => 2

end SymbolKind

structure Symbol where
  subject : String
  kind : SymbolKind
deriving DecidableEq, Repr, Inhabited

/-- Symbols are ordered by subject, then kind. -/
def Symbol.order (a b : Symbol) : Ordering :=
  (compare a.subject b.subject).then (compare a.kind.rank b.kind.rank)

structure Declaration where
  symbol : Symbol
  /-- The file or module that holds the declaration. -/
  provenance : String
deriving DecidableEq, Repr, Inhabited

/-- Declarations in the order of their symbols, one for each symbol. -/
structure CollisionSet where
  declarations : List Declaration := []
deriving DecidableEq, Repr, Inhabited

namespace CollisionSet

def provenance? (s : CollisionSet) (subject : String) (kind : SymbolKind) : Option String :=
  (s.declarations.find? (·.symbol == ⟨subject, kind⟩)).map (·.provenance)

def contains (s : CollisionSet) (subject : String) (kind : SymbolKind) : Bool :=
  (s.provenance? subject kind).isSome

def size (s : CollisionSet) : Nat := s.declarations.length

def isEmpty (s : CollisionSet) : Bool := s.declarations.isEmpty

/-- Puts a declaration at its place in the order of symbols. -/
def place (d : Declaration) : List Declaration → List Declaration
  | [] => [d]
  | e :: es =>
    match d.symbol.order e.symbol with
    | .lt => d :: e :: es
    | .eq => d :: es
    | .gt => e :: place d es

/-- What is remarked when `d` replaces a declaration of the set. -/
def replacement (s : CollisionSet) (d : Declaration) : Journal :=
  match s.provenance? d.symbol.subject d.symbol.kind with
  | some previous =>
    [⟨.debug, s!"{d.symbol.kind.name} `{d.symbol.subject}` first seen in {previous}, overwritten"⟩]
  | none => []

def insert (s : CollisionSet) (d : Declaration) : CollisionSet × Journal :=
  (⟨place d s.declarations⟩, s.replacement d)

def insertAll (s : CollisionSet) : List Declaration → CollisionSet × Journal
  | [] => (s, [])
  | d :: ds =>
    let (s, remarks) := s.insert d
    let (s, more) := s.insertAll ds
    (s, remarks ++ more)

/-- Adds the declarations of `other`, which win over those of `s`. -/
def merge (s other : CollisionSet) : CollisionSet × Journal := s.insertAll other.declarations

/-- The set of the declarations that are not found in regenerable places. -/
def detect (isRegenerable : String → Bool) (declarations : List Declaration) :
    CollisionSet × Journal :=
  go {} declarations
where
  go (s : CollisionSet) : List Declaration → CollisionSet × Journal
    | [] => (s, [])
    | d :: ds =>
      let (s, remarks) :=
        if isRegenerable d.provenance then
          (s, [⟨.trace, s!"ignoring {d.symbol.kind.name} `{d.symbol.subject}` " ++
            s!"from regenerable file {d.provenance}"⟩])
        else s.insert d
      let (s, more) := go s ds
      (s, remarks ++ more)

end CollisionSet

end WireRecords
