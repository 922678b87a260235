import WireRecords.Analysis

/-!
# Sessions

A registry that gets one call after the other. A call that is refused or breaks off does not end the
session: the next one finds the registry as that call has left it.
-/
namespace WireRecords.Registry

/-- A call that can change a registry. -/
inductive Call where
  | openRecord (id : String) (span : Span)
  | put (record : String) (field : FieldDecl) (info : FieldMeta)
  | sealRecord (record : String)
  | analyze (directive : Directive)
deriving DecidableEq, Repr, Inhabited

/-- The record that a call is about. -/
def Call.record : Call → String
  | openRecord id _ => id
  | put record _ _ => record
  | sealRecord record => record
  | analyze directive => directive.id

/-- What a call comes to. -/
inductive Outcome where
  /-- A record is open, or has one more field. -/
  | done
  /-- A record is complete, if there is one of that name. -/
  | completed (decl : Option RecordDecl)
  | accepted (decl : RecordDecl)
  | refused (fault : Analysis.Fault)
  /-- The widths of a record could not be added up. -/
  | brokeOff (fault : ArithmeticFault)
deriving DecidableEq, Repr, Inhabited

/-- The registry with the fields of a directive, up to the first that is refused, before their record
is sealed. -/
def recording (r : Registry) (d : Directive) : Registry :=
  match r.openRecord d.id d.span with
  | .error _ => r
  | .ok opened => (Analysis.recordFields d [] opened d.fields).1

def perform (r : Registry) : Call → Registry × Outcome
  | .openRecord id span =>
    match r.openRecord id span with
    | .error e => (r, .refused (.registry e))
    | .ok opened => (opened, .done)
  | .put record field info =>
    match r.put record field info with
    | .error e => (r, .refused (.registry e))
    | .ok extended => (extended, .done)
  | .sealRecord record =>
    match r.sealRecord record with
    | .error fault => (r, .brokeOff fault)
    | .ok (complete, decl) => (complete, .completed decl)
  | .analyze d =>
    match WireRecords.analyze d r with
    | .error fault => (r.recording d, .brokeOff fault)
    | .ok (registry, .error fault) => (registry, .refused fault)
    | .ok (registry, .ok decl) => (registry, .accepted decl)

/-- The registry behind a session. -/
def after (r : Registry) (calls : List Call) : Registry :=
  calls.foldl (fun r call => (r.perform call).1) r

end WireRecords.Registry
