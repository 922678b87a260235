import WireRecords.Proofs.Program.Flatten
import WireRecords.Proofs.Program.Redeclaration

/-!
# The contents of a generated file

Which items stand in a file, in which order, said of the file itself and not of how it is made: the
role of an item is read off its outline, and the helper is compared with the calls that stand in the
procedures. For every record that has a name and every set of symbols that a host declares, an item
is there exactly once or replaced by an inert one.
-/
namespace WireRecords

namespace Program

/-! ### Calls -/

/-- The name that an expression consists of. -/
def Expr.name? : Expr → Option String
  | .path [name] => some name
  | _ => none

mutual

/-- The functions that are called by their bare names inside an expression. -/
def Expr.calls : Expr → List String
  | .path _ | .literal _ | .unit => []
  | .paren inner | .deref inner | .borrow _ inner | .propagate inner | .cast inner _
  | .returned inner | .field inner _ => inner.calls
  | .binary _ lhs rhs | .assign lhs rhs | .index lhs rhs | .repetition lhs rhs | .vector lhs rhs =>
    lhs.calls ++ rhs.calls
  | .call callee arguments => callee.name?.toList ++ callee.calls ++ callsOfExprs arguments
  | .method receiver _ arguments => receiver.calls ++ callsOfExprs arguments
  | .range none stop => stop.calls
  | .range (some start) stop => start.calls ++ stop.calls
  | .construct _ fields => callsOfFields fields
  | .closure _ body | .block _ _ body | .endless body | .unchecked body => callsOfStmts body
  | .branch condition body none => condition.calls ++ callsOfStmts body
  | .branch condition body (some otherwise) =>
    condition.calls ++ callsOfStmts body ++ callsOfStmts otherwise
  | .forEach _ source body => source.calls ++ callsOfStmts body
  | .whileLoop condition body => condition.calls ++ callsOfStmts body

def callsOfExprs : List Expr → List String
  | [] => []
  | e :: es => e.calls ++ callsOfExprs es

def callsOfFields : List (String × Expr) → List String
  | [] => []
  | (_, value) :: fields => value.calls ++ callsOfFields fields

def Stmt.calls : Stmt → List String
  | .expr value _ | .binding _ _ _ value => value.calls
  | .invocation _ _ => []
  | .item item => item.calls

def callsOfStmts : Block → List String
  | [] => []
  | s :: ss => s.calls ++ callsOfStmts ss

def Item.calls : Item → List String
  | .imports _ _ _ | .constant _ _ | .struct _ _ _ => []
  | .function _ body => callsOfStmts body
  | .methods _ _ functions | .trait _ functions => callsOfFunctions functions
  | .module _ items => callsOfItems items

def callsOfFunctions : List (Signature × Block) → List String
  | [] => []
  | (_, body) :: fs => callsOfStmts body ++ callsOfFunctions fs

def callsOfItems : List Item → List String
  | [] => []
  | i :: is => i.calls ++ callsOfItems is

end

theorem callsOfStmts_append (ss ts : Block) :
    callsOfStmts (ss ++ ts) = callsOfStmts ss ++ callsOfStmts ts := by
  induction ss with
  | nil => simp [callsOfStmts]
  | cons s ss ih => simp [callsOfStmts, ih]

theorem callsOfStmts_dropValue (b : Block) : callsOfStmts (dropValue b) = callsOfStmts b := by
  fun_induction dropValue b with
  | case1 => rfl
  | case2 e => simp [callsOfStmts, Stmt.calls]
  | case3 s ss _ ih => simp [callsOfStmts, ih]

mutual

theorem callsOfStmts_flattenStmt (isLast : Bool) (s : Stmt) :
    callsOfStmts (flattenStmt isLast s) = s.calls := by
  unfold flattenStmt
  split
  · rename_i body hasSemicolon
    have hbody := callsOfStmts_flattenBlock body
    dsimp only
    split
    · split <;> simp [callsOfStmts_dropValue, hbody, Stmt.calls, Expr.calls]
    · simp [callsOfStmts, Stmt.calls, Expr.calls, hbody]
  · simp [callsOfStmts]
termination_by sizeOf s

theorem callsOfStmts_flattenBlock (b : Block) :
    callsOfStmts (flattenBlock b) = callsOfStmts b := by
  cases b with
  | nil => simp [flattenBlock]
  | cons s ss =>
    rw [flattenBlock, callsOfStmts_append, callsOfStmts_flattenStmt ss.isEmpty s,
      callsOfStmts_flattenBlock ss, callsOfStmts]
termination_by sizeOf b

end

theorem name?_flatten (e : Expr) : e.flatten.name? = e.name? := by
  unfold Expr.flatten
  split <;> rfl

mutual

/-- Flattening moves calls, and neither adds nor drops any. -/
theorem calls_flatten : (e : Expr) → e.flatten.calls = e.calls
  | .path _ | .literal _ | .unit | .vector _ _ => by simp [Expr.flatten]
  | .paren inner | .deref inner | .borrow _ inner | .propagate inner | .cast inner _
  | .field inner _ | .returned inner | .range none inner => by
    simp [Expr.flatten, Expr.calls, calls_flatten inner]
  | .binary _ lhs rhs | .assign lhs rhs | .index lhs rhs | .range (some lhs) rhs
  | .repetition lhs rhs => by
    simp [Expr.flatten, Expr.calls, calls_flatten lhs, calls_flatten rhs]
  | .call callee arguments => by
    simp [Expr.flatten, Expr.calls, name?_flatten, calls_flatten callee,
      calls_flattenExprs arguments]
  | .method receiver _ arguments => by
    simp [Expr.flatten, Expr.calls, calls_flatten receiver, calls_flattenExprs arguments]
  | .construct _ fields => by
    simp [Expr.flatten, Expr.calls, calls_flattenFields fields]
  | .closure _ body => by
    simp [Expr.flatten, Expr.calls, callsOfStmts_flattenBlock, calls_flattenStmts body]
  | .block _ _ body | .endless body | .unchecked body => by
    simp [Expr.flatten, Expr.calls, calls_flattenStmts body]
  | .branch condition body none | .forEach _ condition body | .whileLoop condition body => by
    simp [Expr.flatten, Expr.calls, calls_flatten condition, calls_flattenStmts body]
  | .branch condition body (some otherwise) => by
    simp [Expr.flatten, Expr.calls, calls_flatten condition, calls_flattenStmts body,
      calls_flattenStmts otherwise]

theorem calls_flattenExprs : (es : List Expr) → callsOfExprs (flattenExprs es) = callsOfExprs es
  | [] => by simp [flattenExprs]
  | e :: es => by simp [flattenExprs, callsOfExprs, calls_flatten e, calls_flattenExprs es]

theorem calls_flattenFields : (fields : List (String × Expr)) →
    callsOfFields (flattenFields fields) = callsOfFields fields
  | [] => by simp [flattenFields]
  | (_, value) :: fields => by
    simp [flattenFields, callsOfFields, calls_flatten value, calls_flattenFields fields]

theorem calls_flattenStmt : (s : Stmt) → s.flatten.calls = s.calls
  | .expr value _ | .binding _ _ _ value => by
    simp [Stmt.flatten, Stmt.calls, calls_flatten value]
  | .invocation _ _ => by simp [Stmt.flatten]
  | .item item => by simp [Stmt.flatten, Stmt.calls, calls_flattenItem item]

theorem calls_flattenStmts : (b : Block) → callsOfStmts (flattenStmts b) = callsOfStmts b
  | [] => by simp [flattenStmts]
  | s :: ss => by simp [flattenStmts, callsOfStmts, calls_flattenStmt s, calls_flattenStmts ss]

theorem calls_flattenItem : (i : Item) → i.flatten.calls = i.calls
  | .imports _ _ _ | .constant _ _ | .struct _ _ _ => by simp [Item.flatten]
  | .function _ body => by
    simp [Item.flatten, Item.calls, callsOfStmts_flattenBlock, calls_flattenStmts body]
  | .methods _ _ functions => by
    simp [Item.flatten, Item.calls, calls_flattenFunctions functions]
  | .trait _ functions => by
    simp [Item.flatten, Item.calls, calls_flattenDefaults functions]
  | .module _ items => by simp [Item.flatten, Item.calls, calls_flattenItems items]

theorem calls_flattenFunctions : (fs : List (Signature × Block)) →
    callsOfFunctions (flattenFunctions fs) = callsOfFunctions fs
  | [] => by simp [flattenFunctions]
  | (_, body) :: fs => by
    simp [flattenFunctions, callsOfFunctions, callsOfStmts_flattenBlock, calls_flattenStmts body,
      calls_flattenFunctions fs]

theorem calls_flattenDefaults : (fs : List (Signature × Block)) →
    callsOfFunctions (flattenDefaults fs) = callsOfFunctions fs
  | [] => by simp [flattenDefaults]
  | (_, body) :: fs => by
    simp [flattenDefaults, callsOfFunctions, calls_flattenStmts body, calls_flattenDefaults fs]

theorem calls_flattenItems : (is : List Item) → callsOfItems (flattenItems is) = callsOfItems is
  | [] => by simp [flattenItems]
  | i :: is => by simp [flattenItems, callsOfItems, calls_flattenItem i, calls_flattenItems is]

end

/-! ### Calls of writing procedures -/

@[simp] theorem calls_nat (value : Nat) : (Expr.nat value).calls = [] := rfl

@[simp] theorem calls_var (name : String) : (Expr.var name).calls = [] := rfl

@[simp] theorem name?_var (name : String) : (Expr.var name).name? = some name := rfl

@[simp] theorem calls_buffer : buffer.calls = [] := rfl

@[simp] theorem calls_perform (e : Expr) : (perform e).calls = e.calls := rfl

theorem calls_lower (w : Width) : (lower w).calls = [] := by
  have hoperand : ∀ (v : Width) (e : Expr), e.calls = [] → (lower.operand v e).calls = [] := by
    intro v e he
    cases v <;> simpa [lower.operand, Expr.calls] using he
  induction w with
  | literal value => rfl
  | field id => rfl
  | binary op lhs rhs ihl ihr =>
    simp [lower, Expr.calls, hoperand lhs _ ihl, hoperand rhs _ ihr]

theorem calls_place (id : String) (isElement : Bool) : (place id isElement).calls = [] := by
  cases isElement <;> rfl

namespace Subject

variable {s : Subject}

theorem calls_require (s : Subject) (kind case : String) (available expected : Expr) :
    (s.require kind case available expected).calls =
      available.calls ++ expected.calls ++ "Err" :: (available.calls ++ expected.calls) := by
  simp [require, when, fail, Stmt.calls, Expr.calls, callsOfStmts, callsOfExprs, callsOfFields,
    Expr.text]

theorem calls_requireRoom (s : Subject) (expected : Expr) :
    (s.requireRoom expected).calls = expected.calls ++ "Err" :: expected.calls :=
  s.calls_require _ _ outputRoom expected

theorem calls_requireStored (s : Subject) (expected : Expr) :
    (s.requireStored expected).calls = expected.calls ++ "Err" :: expected.calls := by
  rw [requireStored, calls_require]
  simp [Expr.calls, callsOfExprs, Subject.place, calls_place]

/-- The helper is called for constants, and for slices of them. -/
theorem mem_calls_encode {type : FieldType} {isElement : Bool} {body : Block}
    (h : s.encode isElement type = .ok body) :
    "write_padded" ∈ callsOfStmts body ↔ writesConstant type = true := by
  have hplace : (s.place isElement).calls = [] := calls_place _ _
  induction type generalizing isElement body with
  | scalar k =>
    obtain rfl := Except.ok.inj h
    simp [callsOfStmts, calls_requireRoom, Expr.calls, callsOfExprs, hplace, writesConstant]
  | bytes length =>
    obtain rfl := Except.ok.inj h
    simp [callsOfStmts, calls_requireRoom, putSlice, Expr.calls, callsOfExprs, hplace, writesConstant]
  | byteRun =>
    obtain ⟨w, _, rfl⟩ := encode_byteRun.mp h
    simp [callsOfStmts, calls_requireRoom, calls_requireStored, declareSize, putSlice, Stmt.calls,
      Expr.calls, callsOfExprs, hplace, calls_lower, writesConstant]
  | slice element ih =>
    obtain ⟨w, inner, _, hinner, rfl⟩ := encode_slice.mp h
    have helement := ih hinner (calls_place _ _)
    simp [callsOfStmts, calls_requireStored, declareSize, forElements, Stmt.calls, Expr.calls,
      calls_lower, writesConstant, helement]
  | nested path =>
    obtain rfl := Except.ok.inj h
    simp [callsOfStmts, Expr.calls, callsOfExprs, hplace, writesConstant]
  | boxed target _ =>
    obtain rfl := Except.ok.inj h
    simp [callsOfStmts, Expr.calls, callsOfExprs, hplace, writesConstant]
  | constant value =>
    obtain ⟨n, _, rfl⟩ := encode_constant.mp h
    simp [callsOfStmts, calls_requireRoom, Expr.calls, callsOfExprs, writesConstant]

end Subject

theorem calls_procedure (r : RecordDecl) (name kind : String) (parameters : List Parameter)
    (body : Block) :
    (procedure r name kind parameters body).calls = callsOfStmts body ++ ["Ok"] := by
  have hrecover : (Expr.path ["wire9_runtime", "recover"]).name? = none := rfl
  simp [procedure, Item.calls, callsOfFunctions, callsOfStmts, Stmt.calls, Expr.calls, hrecover,
    callsOfExprs, Expr.text, callsOfStmts_append]

/-- The statements of a field call what the statements of the fields do. -/
theorem mem_calls_transferFields {registry : Registry} {r : RecordDecl} {body : Block}
    {transfer : Subject → Except TransferError Block} {name : String} {P : FieldType → Prop}
    (htransfer : ∀ {s : Subject} {inner}, transfer s = .ok inner →
      (name ∈ callsOfStmts inner ↔ P s.field.type))
    (h : transferFields registry transfer r = .ok body) :
    name ∈ callsOfStmts body ↔ ∃ f ∈ r.fields, P f.type := by
  have hfields := transferFields_eq_ok h
  generalize r.fields = fields at hfields ⊢
  clear h
  induction hfields with
  | nil => simp [callsOfStmts]
  | @cons f stmt fields body hfirst hrest ih =>
    obtain ⟨info, inner, _, hinner, rfl⟩ := hfirst
    have hstmt : name ∈ (Stmt.expr (.block none false inner) false).calls ↔ P f.type := by
      simpa [Stmt.calls, Expr.calls] using htransfer hinner
    simp only [callsOfStmts, List.mem_append, hstmt, ih, List.exists_mem_cons_iff]

/-- A writing procedure calls the helper exactly if it writes a constant. -/
theorem mem_calls_encoder {registry : Registry} {r : RecordDecl} {i : Item}
    (h : encoder registry r = .ok i) :
    "write_padded" ∈ i.calls ↔ ∃ f ∈ r.fields, writesConstant f.type = true := by
  obtain ⟨blocks, hblocks, rfl⟩ := encoder_eq_ok h
  have hfields := mem_calls_transferFields (P := fun type => writesConstant type = true)
    (fun hinner => Subject.mem_calls_encode hinner) hblocks
  rw [calls_procedure, List.mem_append, hfields]
  simp

/-! ### Roles -/

/-- What an item contributes to a file, as its outline shows. -/
inductive Role where
  | imports (path : String)
  /-- A constant that cannot be referred to. -/
  | inert
  | struct (name : String)
  | implementation (trait : String) (type : List String)
  /-- Functions of a type. -/
  | procedures (type : List String) (names : List String)
  /-- A function on its own. -/
  | function (name : String)
  | other
deriving DecidableEq, Repr

/-- The path of a type without arguments. -/
def Ty.plainPath : Ty → List String
  | .path segments [] => segments
  | _ => []

def Item.role : Item → Role
  | .imports _ path _ => .imports path
  | .constant _ name => if name = "_" then .inert else .other
  | .struct _ name _ => .struct name
  | .methods (some bound) target _ => .implementation bound target.plainPath
  | .methods none target functions => .procedures target.plainPath (functions.map (·.1.name))
  | .function signature _ => .function signature.name
  | .trait _ _ | .module _ _ => .other

/-- Whether an item holds the writing procedure of a record. -/
def Role.isWriting : Role → Bool
  | .procedures _ names => names = ["write_binary"]
  | _ => false

theorem role_flatten (i : Item) : i.flatten.role = i.role := by
  cases i with
  | methods bound target functions =>
    cases bound <;> simp [Item.flatten, Item.role, names_flattenFunctions]
  | _ => simp [Item.flatten, Item.role]

/-- What stands for the type of a record. -/
def typeRoles (s : CollisionSet) (id : String) : List Role :=
  if s.contains id .type then [.inert]
  else [.struct (escape id), .implementation "Default" [escape id]]

/-- What stands for a procedure of a record. -/
def procedureRole (s : CollisionSet) (id : String) (kind : SymbolKind) (name : String) : Role :=
  if s.contains id kind then .inert else .procedures [escape id] [name]

/-- What stands for the procedures of a record. -/
def procedureRoles (s : CollisionSet) (id : String) : List Role :=
  [procedureRole s id .decode "read_binary", procedureRole s id .encode "write_binary"] ++
    if s.contains id .decode || s.contains id .encode then []
    else [.implementation "Wire" [escape id]]

theorem role_placeholder (record : String) (kind : SymbolKind) (origin : String) :
    (placeholder record kind origin).role = .inert := rfl

theorem role_declaration (r : RecordDecl) (origin : Option String) :
    (declaration r origin).map Item.role =
      [.struct (escape r.id), .implementation "Default" [escape r.id]] := rfl

theorem role_decoder {registry : Registry} {r : RecordDecl} (hid : IsIdentifier r.id) {i : Item}
    (h : decoder registry r = .ok i) : i.role = .procedures [escape r.id] ["read_binary"] := by
  obtain ⟨blocks, _, rfl⟩ := decoder_eq_ok h
  simp [procedure, Item.role, recordType, Ty.plainPath, segments_of_isIdentifier hid]

theorem role_encoder {registry : Registry} {r : RecordDecl} (hid : IsIdentifier r.id) {i : Item}
    (h : encoder registry r = .ok i) : i.role = .procedures [escape r.id] ["write_binary"] := by
  obtain ⟨blocks, _, rfl⟩ := encoder_eq_ok h
  simp [procedure, Item.role, recordType, Ty.plainPath, segments_of_isIdentifier hid]

theorem role_wire {r : RecordDecl} (hid : IsIdentifier r.id) :
    (wire r).role = .implementation "Wire" [escape r.id] := by
  simp [wire, Item.role, recordType, Ty.plainPath, segments_of_isIdentifier hid]

/-! ### Parts in order -/

/-- What is generated for a symbol that no host declares is free of errors. -/
theorem Part.ok_of_free {c : Compilation} {r : RecordDecl} {kind : SymbolKind}
    {x : Except TransferError Item} {own : List Item}
    (hfree : c.collisions.contains r.id kind = false)
    (h : (unlessDeclared c r kind (x.map ([·]))).items = .ok own) : ∃ i, x = .ok i := by
  unfold unlessDeclared at h
  unfold CollisionSet.contains at hfree
  cases hp : c.collisions.provenance? r.id kind with
  | some origin => simp [hp] at hfree
  | none =>
    rw [hp] at h
    cases x with
    | error e => simp [Except.map] at h
    | ok i => exact ⟨i, rfl⟩

theorem roles_unlessDeclared (c : Compilation) (r : RecordDecl) (kind : SymbolKind)
    {items : Except TransferError (List Item)} {roles : List Role}
    (hitems : ∀ own, items = .ok own → own.map Item.role = roles)
    (h : ∃ own, (Part.unlessDeclared c r kind items).items = .ok own) :
    (Part.unlessDeclared c r kind items).own.map Item.role =
      if c.collisions.contains r.id kind then [.inert] else roles := by
  obtain ⟨own, hown⟩ := h
  rw [Part.own_eq hown]
  unfold Part.unlessDeclared at hown
  unfold CollisionSet.contains
  cases hp : c.collisions.provenance? r.id kind with
  | none =>
    rw [hp] at hown
    simpa using hitems own hown
  | some origin =>
    rw [hp] at hown
    obtain rfl := Except.ok.inj hown
    simp [role_placeholder]

theorem roles_typePart (c : Compilation) (r : RecordDecl) :
    (typePart c r).own.map Item.role = typeRoles c.collisions r.id := by
  refine roles_unlessDeclared c r .type (fun own hown => ?_) (Part.unlessDeclared_total ⟨_, rfl⟩)
  obtain rfl := Except.ok.inj hown
  exact role_declaration r _

theorem map_role_singleton {x : Except TransferError Item} {role : Role}
    (h : ∀ i, x = .ok i → i.role = role) {own : List Item} (hown : x.map ([·]) = .ok own) :
    own.map Item.role = [role] := by
  cases x with
  | error e => simp [Except.map] at hown
  | ok i =>
    obtain rfl := Except.ok.inj hown
    simp [h i rfl]

theorem roles_procedureParts {c : Compilation} {r : RecordDecl} (hid : IsIdentifier r.id)
    (h : ∀ p ∈ procedureParts c r, p.items = .ok p.own) :
    ((procedureParts c r).flatMap Part.own).map Item.role = procedureRoles c.collisions r.id := by
  have hdecode := roles_unlessDeclared c r .decode
    (fun own hown => map_role_singleton (fun i hi => role_decoder hid hi) hown)
    ⟨_, h _ List.mem_cons_self⟩
  have hencode := roles_unlessDeclared c r .encode
    (fun own hown => map_role_singleton (fun i hi => role_encoder hid hi) hown)
    ⟨_, h _ (List.mem_cons_of_mem _ List.mem_cons_self)⟩
  have hwire : ∀ items : List Item, Part.own ⟨[], .ok items⟩ = items := fun _ => rfl
  simp only [procedureParts, List.flatMap_cons, List.flatMap_nil, List.map_append, hdecode,
    hencode, hwire, procedureRoles, procedureRole, isGenerated]
  by_cases hd : c.collisions.contains r.id .decode = true <;>
    by_cases he : c.collisions.contains r.id .encode = true <;> simp [hd, he, role_wire hid]

/-! ### Files -/

/-- An item as it stands in a file that may be flat. -/
def finish (isFlat : Bool) (i : Item) : Item := if isFlat then i.flatten else i

theorem flattenItems_eq_map (items : List Item) : flattenItems items = items.map Item.flatten := by
  induction items with
  | nil => simp [flattenItems]
  | cons i is ih => simp [flattenItems, ih]

theorem role_finish (isFlat : Bool) (i : Item) : (finish isFlat i).role = i.role := by
  cases isFlat
  · rfl
  · exact role_flatten i

theorem calls_finish (isFlat : Bool) (i : Item) : (finish isFlat i).calls = i.calls := by
  cases isFlat
  · rfl
  · exact calls_flattenItem i

theorem generate_eq_ok {c : Compilation} {isFlat : Bool} {items : List Item}
    (h : (generate c isFlat).2 = .ok items) :
    ∃ all, (generateItems c).items = .ok all ∧ items = all.map (finish isFlat) := by
  obtain ⟨all, hall, _, rfl⟩ := generate_iff.mp h
  refine ⟨all, hall, ?_⟩
  cases isFlat with
  | false => exact (List.map_id all).symm
  | true => exact flattenItems_eq_map all

section File

variable {c : Compilation} {all : List Item} (hids : ∀ r ∈ named c, IsIdentifier r.id)
  (hall : (generateItems c).items = .ok all)

include hids hall

omit hids in
theorem parts_ok {r : RecordDecl} (hr : r ∈ named c) :
    ∀ p ∈ procedureParts c r, p.items = .ok p.own := by
  intro p hp
  exact (Part.concat_eq hall).1 p
    (mem_parts.mpr (Or.inr (Or.inl ⟨r, hr, List.mem_cons_of_mem _ hp⟩)))

theorem roles_generateItems :
    all.map Item.role = imports.map Item.role ++
      (named c).flatMap (fun r => typeRoles c.collisions r.id) ++
      (named c).flatMap (fun r => procedureRoles c.collisions r.id) ++
      (helpers c (named c)).map Item.role := by
  have hprocedures : ∀ r ∈ named c, ((procedureParts c r).flatMap fun p => p.own.map Item.role) =
      procedureRoles c.collisions r.id := by
    intro r hr
    rw [← List.map_flatMap]
    exact roles_procedureParts (hids r hr) (parts_ok hall hr)
  rw [(Part.concat_eq hall).2]
  have hown : ∀ (remarks : Journal) (items : List Item), Part.own ⟨remarks, .ok items⟩ = items :=
    fun _ _ => rfl
  simp only [← named.eq_def, List.flatMap_cons, List.flatMap_append, List.flatMap_map,
    List.flatMap_assoc, List.map_append, List.map_flatMap, roles_typePart, List.flatMap_nil, hown,
    List.flatMap_congr hprocedures, List.append_nil, List.append_assoc]

omit hids in
theorem decoder_of_generated {r : RecordDecl} (hr : r ∈ named c)
    (hfree : c.collisions.contains r.id .decode = false) :
    ∃ i, decoder c.registry r = .ok i ∧ i ∈ all := by
  obtain ⟨i, hi⟩ := Part.ok_of_free hfree (parts_ok hall hr _ List.mem_cons_self)
  exact ⟨i, hi, (mem_generateItems hall i).mpr (Or.inr (Or.inl ⟨r, hr, .decode hfree hi⟩))⟩

omit hids in
theorem encoder_of_generated {r : RecordDecl} (hr : r ∈ named c)
    (hfree : c.collisions.contains r.id .encode = false) :
    ∃ i, encoder c.registry r = .ok i ∧ i ∈ all := by
  obtain ⟨i, hi⟩ := Part.ok_of_free hfree
    (parts_ok hall hr _ (List.mem_cons_of_mem _ List.mem_cons_self))
  exact ⟨i, hi, (mem_generateItems hall i).mpr (Or.inr (Or.inl ⟨r, hr, .encode hfree hi⟩))⟩

/-- Only the procedures that write records have their role. -/
theorem exists_writing_iff (name : String) :
    (∃ i ∈ all, i.role.isWriting = true ∧ name ∈ i.calls) ↔
      ∃ r ∈ named c, c.collisions.contains r.id .encode = false ∧
        ∃ i, encoder c.registry r = .ok i ∧ name ∈ i.calls := by
  constructor
  · intro h
    obtain ⟨i, hi, hwriting, hcalls⟩ := h
    obtain himport | ⟨r, hr, hemits⟩ | hhelper := (mem_generateItems hall i).mp hi
    · simp only [imports, List.mem_cons, List.not_mem_nil, or_false] at himport
      rcases himport with rfl | rfl <;> simp [Item.role, Role.isWriting] at hwriting
    · cases hemits with
      | type _ hdecl =>
        simp only [declaration, List.mem_cons, List.not_mem_nil, or_false] at hdecl
        rcases hdecl with rfl | rfl <;> simp [Item.role, Role.isWriting] at hwriting
      | decode _ hdecoder =>
        rw [role_decoder (hids r hr) hdecoder] at hwriting
        simp [Role.isWriting] at hwriting
      | encode hfree hencoder => exact ⟨r, hr, hfree, i, hencoder, hcalls⟩
      | wire _ _ =>
        rw [role_wire (hids r hr)] at hwriting
        simp [Role.isWriting] at hwriting
      | found _ =>
        rw [role_placeholder] at hwriting
        simp [Role.isWriting] at hwriting
    · rw [eq_of_mem_helpers hhelper] at hwriting
      simp [writePadded, Item.role, Role.isWriting] at hwriting
  · intro h
    obtain ⟨r, hr, hfree, i, hencoder, hcalls⟩ := h
    refine ⟨i, (mem_generateItems hall i).mpr (Or.inr (Or.inl ⟨r, hr, .encode hfree hencoder⟩)), ?_,
      hcalls⟩
    rw [role_encoder (hids r hr) hencoder]
    simp [Role.isWriting]

end File

/-- The helper is there exactly if some writing procedure of the file calls it. -/
theorem helpers_eq {c : Compilation} {all : List Item} (hids : ∀ r ∈ named c, IsIdentifier r.id)
    (hall : (generateItems c).items = .ok all) :
    helpers c (named c) =
      if ∃ i ∈ all, i.role.isWriting = true ∧ "write_padded" ∈ i.calls then [writePadded]
      else [] := by
  have hneeded : (((named c).any fun r => isGenerated c r .encode &&
      r.fields.any fun f => writesConstant f.type) = true) ↔
        ∃ i ∈ all, i.role.isWriting = true ∧ "write_padded" ∈ i.calls := by
    rw [exists_writing_iff hids hall, List.any_eq_true]
    simp only [Bool.and_eq_true, isGenerated, Bool.not_eq_true', List.any_eq_true]
    constructor
    · intro h
      obtain ⟨r, hr, hfree, hconstant⟩ := h
      obtain ⟨i, hi, _⟩ := encoder_of_generated hall hr hfree
      exact ⟨r, hr, hfree, i, hi, (mem_calls_encoder hi).mpr hconstant⟩
    · intro h
      obtain ⟨r, hr, hfree, i, hi, hcalls⟩ := h
      exact ⟨r, hr, hfree, (mem_calls_encoder hi).mp hcalls⟩
  simp only [helpers, hneeded]

end Program

open Program

/-- The records of a run that have a name are those of its directives, in their order. -/
theorem named_ids {config : Config} {units : List CompilationUnit} {p : Progress}
    (h : compile config units = .ok p) :
    (named p.compilation).map (·.id) =
      ((declared config units).map (·.id)).filter (· ≠ anonymous) := by
  have hrecords := (compile_analyses h).represents
  unfold named
  generalize p.compilation.records = records at hrecords ⊢
  generalize declared config units = directives at hrecords ⊢
  induction hrecords with
  | nil => rfl
  | @cons r d records directives hid _ ih =>
    by_cases hanonymous : d.id = anonymous
    · simpa [RecordDecl.isAnonymous, hid.id, hanonymous] using ih
    · simpa [RecordDecl.isAnonymous, hid.id, hanonymous] using ih

/-- A generated file consists of the imports, the types and then the procedures of the records that
have a name, in the order of their directives, and the helper. Whatever a host declares is replaced
by one inert item, the trait needs both procedures, and the helper is there once if a writing
procedure of the file calls it and otherwise not at all. What is not replaced is what is generated
for the record. -/
theorem emission_follows_collisions {config : Config} {units : List CompilationUnit} {p : Progress}
    (h : compile config units = .ok p) (s : CollisionSet) {isFlat : Bool} {items : List Item}
    (hitems : (generate (p.compilation.against s) isFlat).2 = .ok items) :
    items.map Item.role =
      [.imports "bytes", .imports "wire9_runtime"] ++
      (((declared config units).map (·.id)).filter (· ≠ anonymous)).flatMap (typeRoles s) ++
      (((declared config units).map (·.id)).filter (· ≠ anonymous)).flatMap (procedureRoles s) ++
      (if ∃ i ∈ items, i.role.isWriting = true ∧ "write_padded" ∈ i.calls then
        [.function "write_padded"] else []) ∧
    ∀ r ∈ named p.compilation,
      (s.contains r.id .type = false →
        ∀ i ∈ declaration r (p.compilation.origin? r.id), finish isFlat i ∈ items) ∧
      (s.contains r.id .decode = false →
        ∃ i, decoder p.compilation.registry r = .ok i ∧ finish isFlat i ∈ items) ∧
      (s.contains r.id .encode = false →
        ∃ i, encoder p.compilation.registry r = .ok i ∧ finish isFlat i ∈ items) := by
  obtain ⟨all, hall, rfl⟩ := generate_eq_ok hitems
  have hids : ∀ r ∈ named (p.compilation.against s), IsIdentifier r.id :=
    fun r hr => (compile_named h r hr).2.1
  have hroles : (all.map (finish isFlat)).map Item.role = all.map Item.role := by
    simp [role_finish]
  have hcalled : (∃ i ∈ all.map (finish isFlat), i.role.isWriting = true ∧
      "write_padded" ∈ i.calls) ↔
        ∃ i ∈ all, i.role.isWriting = true ∧ "write_padded" ∈ i.calls := by
    simp [role_finish, calls_finish]
  have hnamed : named (p.compilation.against s) = named p.compilation := rfl
  have hmem : ∀ {i}, i ∈ all → finish isFlat i ∈ all.map (finish isFlat) :=
    fun hi => List.mem_map_of_mem hi
  refine ⟨?_, fun r hr => ⟨fun hfree i hi => hmem ?_, fun hfree => ?_, fun hfree => ?_⟩⟩
  · have hhelper : (helpers (p.compilation.against s) (named (p.compilation.against s))).map
        Item.role = if ∃ i ∈ all, i.role.isWriting = true ∧ "write_padded" ∈ i.calls then
          [.function "write_padded"] else [] := by
      rw [helpers_eq hids hall]
      split <;> rfl
    rw [hroles, roles_generateItems hids hall, hhelper, hnamed, ← named_ids h]
    simp only [hcalled, List.flatMap_map]
    rfl
  · exact (mem_generateItems hall i).mpr (Or.inr (Or.inl ⟨r, hr, .type hfree hi⟩))
  · obtain ⟨i, hi, hin⟩ := decoder_of_generated hall hr hfree
    exact ⟨i, hi, hmem hin⟩
  · obtain ⟨i, hi, hin⟩ := encoder_of_generated hall hr hfree
    exact ⟨i, hi, hmem hin⟩

/-- Two records with constants, one without, and one without a name. -/
def messages : List CompilationUnit :=
  [.inline "messages" ["Head tag[2, \"ab\"] size[1]", "x[1]", "Body n[1] data[n]",
    "Tail mark[1, \"z\"]"]]

/-- A host that has the writing procedure of the first record itself. -/
def messageHost : CollisionSet :=
  ⟨[⟨⟨"Body", .type⟩, "host.rs"⟩, ⟨⟨"Head", .encode⟩, "host.rs"⟩, ⟨⟨"Tail", .decode⟩, "host.rs"⟩]⟩

/-- A host that has the writing procedures of both records with constants. -/
def messageWriter : CollisionSet :=
  ⟨[⟨⟨"Head", .encode⟩, "host.rs"⟩, ⟨⟨"Tail", .encode⟩, "host.rs"⟩]⟩

theorem messages_run : ∃ p ∈ (compile {} messages).toOption,
    (∃ items ∈ (generate (p.compilation.against messageHost) true).2.toOption,
      ∃ i ∈ items, i.role.isWriting = true ∧ "write_padded" ∈ i.calls) ∧
    ∃ items ∈ (generate (p.compilation.against messageWriter) false).2.toOption,
      ∀ i ∈ items, "write_padded" ∉ i.calls := by
  decide +kernel

theorem messages_ids :
    ((declared {} messages).map (·.id)).filter (· ≠ anonymous) = ["Head", "Body", "Tail"] := by
  decide +kernel

theorem emission_follows_collisions_messages :
    ∃ p, compile {} messages = .ok p ∧
      (∃ items, (generate (p.compilation.against messageHost) true).2 = .ok items ∧
        items.map Item.role =
          [.imports "bytes", .imports "wire9_runtime",
            .struct "Head", .implementation "Default" ["Head"], .inert,
            .struct "Tail", .implementation "Default" ["Tail"],
            .procedures ["Head"] ["read_binary"], .inert,
            .procedures ["Body"] ["read_binary"], .procedures ["Body"] ["write_binary"],
            .implementation "Wire" ["Body"], .inert, .procedures ["Tail"] ["write_binary"],
            .function "write_padded"]) ∧
      ∃ items, (generate (p.compilation.against messageWriter) false).2 = .ok items ∧
        .function "write_padded" ∉ items.map Item.role := by
  obtain ⟨p, hp, ⟨items, hitems, hcalled⟩, others, hothers, huncalled⟩ := messages_run
  have hcompile := compile_of_toOption hp
  have hfirst := ok_of_toOption hitems
  have hsecond := ok_of_toOption hothers
  refine ⟨p, hcompile, ⟨items, hfirst, ?_⟩, others, hsecond, ?_⟩
  · rw [(emission_follows_collisions hcompile messageHost hfirst).1, messages_ids, if_pos hcalled]
    decide
  · have hnone : ¬ ∃ i ∈ others, i.role.isWriting = true ∧ "write_padded" ∈ i.calls := by
      intro h
      obtain ⟨i, hi, _, hcalls⟩ := h
      exact huncalled i hi hcalls
    rw [(emission_follows_collisions hcompile messageWriter hsecond).1, messages_ids, if_neg hnone]
    decide

end WireRecords
