import WireRecords.Directive
import WireRecords.Registry

/-!
# Analysis of directives

Gives every field of a directive its representation and records it. Fields are resolved in wire
order, so a width can refer to the integers before it.
-/
namespace WireRecords

namespace Analysis

/-- The fields whose width has to be fixed. -/
inductive Rigid where
  | constant | scalar | record | pointer | array
deriving DecidableEq, Repr, Inhabited

def Rigid.name : Rigid → String
  | constant => "constant"
  | scalar => "scalar"
  | record => "record"
  | pointer => "pointer"
  | array => "array"

/-- Why a field cannot be resolved. -/
inductive FieldFault where
  | undeclared (ref : String)
  | forward (ref : String)
  | notInteger (ref : String) (previous : FieldDecl)
  | notEvaluated (width : Width)
  | dynamic (width : Width) (role : Rigid)
  | mismatch (width expected : Nat)
  | recursive (record : String)
  | invalidElement (element : TypeExpr)
  | invalidPointer (target : TypeExpr)
  | missingSliceWidth
  | empty
  /-- A width is given for a record that has no fixed one. -/
  | noFixedWidth (width : Nat) (path : String)
deriving DecidableEq, Repr, Inhabited

/-- The diagnostic for the field `f`. -/
def FieldFault.diagnostic (f : FieldSyntax) : FieldFault → Diagnostic
  | undeclared ref =>
    report f .undeclaredWidthField s!"undeclared width identifier `{ref}` in field `{f.id}`"
  | forward ref =>
    report f .forwardWidthField
      s!"width of `{f.id}` references `{ref}` which is not declared before it"
  | notInteger ref previous =>
    { code := some .invalidWidthField
      message := s!"width of `{f.id}` references `{ref}` which is not an integer"
      labels := [f.span.primary,
        previous.span.secondary (s!"`{ref}` is declared here with type " ++ previous.type.text)] }
  | notEvaluated width =>
    report f .invalidWidthExpression
      (s!"width `{width.text}` of field `{f.id}` cannot be evaluated")
  | dynamic width role =>
    report f .invalidDynamicWidth
      s!"dynamic width `{width.text}` is not allowed for {role.name} field `{f.id}`"
  | mismatch width expected =>
    report f .widthMismatch
      s!"width {width} of field `{f.id}` does not match the width {expected} of its type"
  | recursive record => report f .recursiveRecord s!"record `{record}` cannot contain itself"
  | invalidElement element =>
    report f .invalidElement s!"invalid element type `{element.text}` for field `{f.id}`"
  | invalidPointer target =>
    report f .invalidPointer s!"pointer target `{target.text}` of field `{f.id}` is not a record"
  | missingSliceWidth => report f .missingSliceWidth s!"slice field `{f.id}` requires a width"
  | empty => report f .emptyField "width and type cannot both be empty"
  | noFixedWidth width path =>
    { code := some .widthMismatch
      message := s!"width {width} is given for record `{path}` which has no fixed width" }
where
  /-- A diagnostic whose one label is on the field. -/
  report (f : FieldSyntax) (code : Code) (message : String) : Diagnostic :=
    { code := some code, message, labels := [f.span.primary] }

/-- What a field is resolved against: its directive, the fields before it, the records before. -/
structure Context where
  directive : Directive
  resolved : List FieldDecl
  registry : Registry

/-- The scalar that a path names. -/
def builtin? : List String → Option Scalar
  | [name] => Scalar.ofName? name
  | _ => none

def isByte : TypeExpr → Bool
  | .named path => builtin? path == some .u8
  | _ => false

/-- Checks one reference of a width: it names an integer before the field. -/
def Context.checkRef (c : Context) (ref : String) : Except FieldFault Unit :=
  match c.resolved.find? (·.id == ref) with
  | some previous =>
    match previous.type with
    | .scalar _ => .ok ()
    | _ => .error (.notInteger ref previous)
  | none =>
    if c.directive.fields.any (·.id == ref) then .error (.forward ref)
    else .error (.undeclared ref)

def Context.checkRefs (c : Context) : List String → Except FieldFault Unit
  | [] => .ok ()
  | ref :: refs =>
    match c.checkRef ref with
    | .ok _ => c.checkRefs refs
    | .error e => .error e

/-- The width of a field before its type is looked at. -/
inductive GivenWidth where
  | absent
  /-- A width without references, and its value. -/
  | fixed (width : Width) (value : Nat)
  /-- A width with references. -/
  | dynamic (width : Width)
deriving DecidableEq, Repr, Inhabited

def Context.givenWidth (c : Context) : Option Width → Except FieldFault GivenWidth
  | none => .ok .absent
  | some w =>
    match c.checkRefs w.refs with
    | .error e => .error e
    | .ok _ =>
      if w.refs.isEmpty then
        match w.fold with
        | some value => .ok (.fixed w value)
        | none => .error (.notEvaluated w)
      else .ok (.dynamic w)

/-- The value of a width that has to be fixed, if there is one. -/
def GivenWidth.rigid (role : Rigid) : GivenWidth → Except FieldFault (Option Nat)
  | absent => .ok none
  | fixed _ value => .ok (some value)
  | dynamic w => .error (.dynamic w role)

/-- A resolved field: its representation and its metadata but for the byte order. -/
structure Resolved where
  type : FieldType
  width : Option Width
  kind : WidthKind
deriving DecidableEq, Repr, Inhabited

def Resolved.literal (type : FieldType) (value : Nat) : Resolved :=
  ⟨type, some (.literal value), .literal⟩

/-- The element of a slice or array. A sequence of the record itself is finite, so it may occur. -/
def resolveElement : TypeExpr → Except FieldFault FieldType
  | .named path =>
    match builtin? path with
    | some s => .ok (.scalar s)
    | none => .ok (.nested ("::".intercalate path))
  | .array length element =>
    if isByte element then .ok (.bytes length) else .error (.invalidElement (.array length element))
  | element => .error (.invalidElement element)

/-- The path of a record that is contained as a whole. -/
def Context.recordPath (c : Context) (path : List String) : Except FieldFault String :=
  if path = [c.directive.id] then .error (.recursive c.directive.id)
  else .ok ("::".intercalate path)

/-- A record or a type from elsewhere. Records declared before provide their width, other types are
taken at their word. -/
def Context.resolveNested (c : Context) (type : FieldType) (path : String) (given : Option Nat) :
    Except FieldFault Resolved :=
  if c.registry.contains path then
    match given, c.registry.width? path with
    | some value, some width =>
      if value = width then .ok (.literal type width) else .error (.mismatch value width)
    | some value, none => .error (.noFixedWidth value path)
    | none, some width => .ok (.literal type width)
    | none, none => .ok ⟨type, none, .unresolved⟩
  else
    match given with
    | some value => .ok (.literal type value)
    | none => .ok ⟨type, none, .unresolved⟩

/-- A field without a type. -/
def resolveUntyped : GivenWidth → Except FieldFault Resolved
  | .absent => .error .empty
  | .fixed w value => .ok (.literal (.ofWidth w value) value)
  | .dynamic w => .ok ⟨.byteRun, some w, .dynamic⟩

/-- A sequence of bytes is a byte array, every other one a slice. -/
def sequenceType (element : FieldType) (length : Nat) : FieldType :=
  if element = .scalar .u8 then .bytes length else .slice element

def Context.resolveNamed (c : Context) (given : GivenWidth) (path : List String) :
    Except FieldFault Resolved :=
  match builtin? path with
  | some s => do
    match ← given.rigid .scalar with
    | some value =>
      if value = s.width then return .literal (.scalar s) s.width
      else .error (.mismatch value s.width)
    | none => return .literal (.scalar s) s.width
  | none => do
    let path ← c.recordPath path
    let value ← given.rigid .record
    c.resolveNested (.nested path) path value

def Context.resolvePointer (c : Context) (given : GivenWidth) (target : TypeExpr) :
    Except FieldFault Resolved :=
  match target with
  | .named path =>
    match builtin? path with
    | some _ => .error (.invalidPointer target)
    | none => do
      let path ← c.recordPath path
      let value ← given.rigid .pointer
      c.resolveNested (.boxed (.nested path)) path value
  | _ => .error (.invalidPointer target)

def resolveSlice (given : GivenWidth) (element : TypeExpr) : Except FieldFault Resolved := do
  let element ← resolveElement element
  match given with
  | .absent => .error .missingSliceWidth
  | .fixed _ value => return .literal (sequenceType element value) value
  | .dynamic w =>
    let type := if element = .scalar .u8 then .byteRun else .slice element
    return ⟨type, some w, .dynamic⟩

def resolveArray (given : GivenWidth) (length : Nat) (element : TypeExpr) :
    Except FieldFault Resolved := do
  let element ← resolveElement element
  match ← given.rigid .array with
  | some value =>
    if value = length then return .literal (sequenceType element length) length
    else .error (.mismatch value length)
  | none => return .literal (sequenceType element length) length

def Context.resolve (c : Context) (f : FieldSyntax) : Except FieldFault Resolved := do
  let given ← c.givenWidth f.width
  match f.type with
  | none => resolveUntyped given
  | some (.constant value) =>
    let width ← given.rigid .constant
    return .literal (.constant value) (width.getD value.utf8ByteSize)
  | some (.named path) => c.resolveNamed given path
  | some (.pointer target) => c.resolvePointer given target
  | some (.slice element) => resolveSlice given element
  | some (.array length element) => resolveArray given length element

/-- Why a directive is not accepted. -/
inductive Fault where
  | field (field : FieldSyntax) (fault : FieldFault)
  | registry (error : RegistryError)
  /-- The record is gone when it is to be sealed. -/
  | vanished (record : String)
deriving DecidableEq, Repr, Inhabited

def Fault.diagnostic : Fault → Diagnostic
  | field f fault => fault.diagnostic f
  | registry error => error.diagnostic
  | vanished record =>
    { code := some .missingMetadata
      message := s!"record `{record}` disappeared during analysis" }

/-- Resolves and records fields until one is refused. -/
def recordFields (d : Directive) :
    List FieldDecl → Registry → List FieldSyntax → Registry × Option Fault
  | _, registry, [] => (registry, none)
  | resolved, registry, f :: fs =>
    match Context.resolve ⟨d, resolved, registry⟩ f with
    | .error e => (registry, some (.field f e))
    | .ok r =>
      let decl : FieldDecl := ⟨f.span, f.id, r.type⟩
      match registry.put d.id decl ⟨r.width, f.endian, r.kind⟩ with
      | .error e => (registry, some (.registry e))
      | .ok registry => recordFields d (resolved ++ [decl]) registry fs

end Analysis

/-- Resolves the fields of a directive and records them. The record is sealed also when a field is
refused; the fields before it stay. -/
def analyze (d : Directive) (registry : Registry) :
    Except ArithmeticFault (Registry × Except Analysis.Fault RecordDecl) :=
  match registry.openRecord d.id d.span with
  | .error e => .ok (registry, .error (.registry e))
  | .ok opened =>
    let (recorded, fault) := Analysis.recordFields d [] opened d.fields
    match recorded.sealRecord d.id with
    | .error e => .error e
    | .ok (registry, decl) =>
      match fault, decl with
      | some fault, _ => .ok (registry, .error fault)
      | none, some decl => .ok (registry, .ok decl)
      | none, none => .ok (registry, .error (.vanished d.id))

end WireRecords
