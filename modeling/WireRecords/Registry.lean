import WireRecords.Diagnostic
import WireRecords.Record

/-!
# The registry

The records known so far, with the metadata of their fields in wire order. A record is opened, gets
its fields one by one, and is sealed; its width is computed when it is sealed.
-/
namespace WireRecords

structure RecordedField where
  decl : FieldDecl
  info : FieldMeta
deriving DecidableEq, Repr, Inhabited

structure RecordEntry where
  id : String
  span : Span
  fields : List RecordedField := []
  isSealed : Bool := false
  /-- The encoded width, when every field has a fixed one. -/
  width : Option Nat := none
deriving DecidableEq, Repr, Inhabited

/-- Why the registry refuses a request. -/
inductive RegistryError where
  | duplicateRecord (id : String) (span previous : Span)
  | notOpened (record : String) (span : Span)
  | complete (record : String) (span : Span)
  | duplicateField (record id : String) (span previous : Span)
  | unknownField (record id : String)
deriving DecidableEq, Repr, Inhabited

def RegistryError.diagnostic : RegistryError → Diagnostic
  | duplicateRecord id span previous =>
    { code := some .duplicateRecord
      message := s!"redeclaration of record identifier `{id}`"
      labels := [span.primary, previous.secondary s!"`{id}` is first declared here"] }
  | notOpened record span =>
    { code := some .missingMetadata
      message := s!"record `{record}` was not opened"
      labels := [span.primary] }
  | complete record span =>
    { code := some .sealedRecord
      message := s!"record `{record}` is already complete"
      labels := [span.primary] }
  | duplicateField record id span previous =>
    { code := some .duplicateField
      message := s!"redeclaration of field identifier `{id}` in record `{record}`"
      labels := [span.primary, previous.secondary s!"`{id}` is first declared here"] }
  | unknownField record id =>
    { code := some .missingMetadata
      message := s!"no metadata recorded for field `{record}.{id}`" }

structure Registry where
  entries : List RecordEntry := []
deriving DecidableEq, Repr, Inhabited

namespace Registry

def find? (r : Registry) (id : String) : Option RecordEntry := r.entries.find? (·.id == id)

def contains (r : Registry) (id : String) : Bool := (r.find? id).isSome

/-- The fields of a record, in wire order. -/
def shape? (r : Registry) (id : String) : Option (List FieldDecl) :=
  (r.find? id).map fun e => e.fields.map (·.decl)

def width? (r : Registry) (id : String) : Option Nat := (r.find? id).bind (·.width)

/-- Makes `e` the entry of its record. -/
def insert (r : Registry) (e : RecordEntry) : Registry :=
  ⟨e :: r.entries.filter (·.id != e.id)⟩

/-- Starts a record. A record without a name replaces the previous one without a name. -/
def openRecord (r : Registry) (id : String) (span : Span) : Except RegistryError Registry :=
  match if id = anonymous then none else r.find? id with
  | some previous => .error (.duplicateRecord id span previous.span)
  | none => .ok (r.insert { id, span })

/-- Records a field of an open record. -/
def put (r : Registry) (record : String) (field : FieldDecl) (info : FieldMeta) :
    Except RegistryError Registry :=
  match r.find? record with
  | none => .error (.notOpened record field.span)
  | some e =>
    if e.isSealed then .error (.complete record field.span)
    else
      match e.fields.find? (·.decl.id == field.id) with
      | some previous => .error (.duplicateField record field.id field.span previous.decl.span)
      | none => .ok (r.insert { e with fields := e.fields ++ [⟨field, info⟩] })

def get (r : Registry) (record field : String) : Except RegistryError FieldMeta :=
  match (r.find? record).bind fun e => e.fields.find? (·.decl.id == field) with
  | some f => .ok f.info
  | none => .error (.unknownField record field)

/-- The encoded width of one element of a slice. -/
def elementWidth? (r : Registry) : FieldType → Option Nat
  | .scalar s => some s.width
  | .bytes length => some length
  | .nested path => r.width? path
  | _ => none

/-- The encoded width of a field, when it is fixed. -/
def fieldWidth? (r : Registry) (f : RecordedField) : Option Nat :=
  match f.info.kind, f.info.width with
  | .literal, some w =>
    match w.fold, f.decl.type with
    | some count, .slice element =>
      (r.elementWidth? element).bind fun width => (Operator.mul.apply width count).toOption
    | length, _ => length
  | _, _ => none

/-- Adds up widths from left to right, as far as they are known. -/
def totalWidth : Nat → List (Option Nat) → Except ArithmeticFault (Option Nat)
  | total, [] => .ok (some total)
  | _, none :: _ => .ok none
  | total, some w :: ws =>
    match Operator.add.apply total w with
    | .ok total => totalWidth total ws
    | .error e => .error e

/-- Completes a record and computes its width, which may exceed the words. -/
def sealRecord (r : Registry) (id : String) :
    Except ArithmeticFault (Registry × Option RecordDecl) :=
  match r.find? id with
  | none => .ok (r, none)
  | some e =>
    match totalWidth 0 (e.fields.map r.fieldWidth?) with
    | .error fault => .error fault
    | .ok width =>
      .ok (r.insert { e with isSealed := true, width },
        some ⟨e.span, id, e.fields.map (·.decl)⟩)

end Registry

end WireRecords
