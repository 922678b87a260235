import WireRecords.Proofs.Program.Emission

/-!
# Which names can be spelled

A mark makes a plain name of most keywords, but not of all, and the underscore is no name either.
What a directive calls so can stand in some places and not in others: a file is generated exactly
when every name stands where it can.
-/
namespace WireRecords.Program

/-- The names that can neither be declared nor select a member. -/
def reservedNames : List String := ["_", "self", "Self", "super", "crate"]

/-! ### Spelled names -/

theorem hash_notMem_keywords : ∀ word ∈ keywords, '#' ∉ word.toList := by
  decide

theorem hash_notMem_reservedNames : ∀ word ∈ reservedNames, '#' ∉ word.toList := by
  simp [reservedNames]

theorem keywords_disjoint : ∀ word ∈ keywords, word ∉ reservedNames := by
  decide

theorem escape_notMem_keywords (name : String) : escape name ∉ keywords := by
  unfold escape
  split
  · intro h
    exact hash_notMem_keywords _ h (by simp [String.toList_append])
  · assumption

theorem escape_mem_reservedNames {name : String} :
    escape name ∈ reservedNames ↔ name ∈ reservedNames := by
  unfold escape
  split
  · rename_i hname
    constructor
    · intro h
      exact absurd (by simp [String.toList_append]) (hash_notMem_reservedNames _ h)
    · intro h
      exact absurd h (keywords_disjoint name hname)
  · rfl

theorem escape_eq_placeholder {name : String} : escape name = placeholderName ↔ name = "_" := by
  unfold escape
  split
  · rename_i hname
    constructor
    · intro h
      exact absurd (congrArg String.toList h) (by simp [String.toList_append, placeholderName])
    · rintro rfl
      exact absurd hname (by decide)
  · rfl

theorem isReserved_iff {name : String} : isReserved name = true ↔ name ∈ reservedNames := by
  simp [isReserved, placeholderName, pathKeywords, reservedNames]

namespace NameFault

theorem ofMember_eq_none {name : String} :
    ofMember name = none ↔ name ∉ reservedNames ∧ name ∉ keywords := by
  simp [ofMember, isUnmarked, ← isReserved_iff]

theorem ofDeclared_eq_none {name : String} :
    ofDeclared name = none ↔ name ∉ reservedNames ∧ name ∉ keywords := by
  simp [ofDeclared, isUnmarked, ← isReserved_iff]

theorem ofMember_escape {name : String} :
    ofMember (escape name) = none ↔ name ∉ reservedNames := by
  simp [ofMember_eq_none, escape_mem_reservedNames, escape_notMem_keywords]

theorem ofDeclared_escape {name : String} :
    ofDeclared (escape name) = none ↔ name ∉ reservedNames := by
  simp [ofDeclared_eq_none, escape_mem_reservedNames, escape_notMem_keywords]

theorem ofPath_eq_none {names : List String} :
    ofPath names = none ↔ ∀ name ∈ names, name ≠ placeholderName ∧ name ∉ keywords := by
  simp [ofPath, isUnmarked]

theorem ofPath_escape (names : List String) :
    ofPath (names.map escape) = none ↔ "_" ∉ names := by
  simp only [ofPath_eq_none, List.forall_mem_map, ne_eq, escape_eq_placeholder,
    escape_notMem_keywords, not_false_eq_true, and_true]
  exact List.forall_mem_ne'

theorem ofTypePath_escape (names : List String) :
    ofTypePath (names.map escape) = none ↔ (1 < names.length → "_" ∉ names) := by
  cases names with
  | nil => simp [ofTypePath]
  | cons first rest =>
    simp only [List.map_cons, ofTypePath, escape_eq_placeholder]
    split
    · rename_i hfirst
      cases rest with
      | nil => simp
      | cons second rest => simp [hfirst]
    · rename_i hfirst
      have hpath := ofPath_escape (first :: rest)
      rw [List.map_cons] at hpath
      rw [hpath]
      cases rest with
      | nil => simp [eq_comm, hfirst]
      | cons second rest => simp

end NameFault

/-! ### Names in statements

Names that procedures have of themselves, such as `buf`, are plain, and `decide` finds them so. -/

open NameFault

theorem fault_usize : usize.fault? = none := by decide

/-- A width mentions the fields that it refers to. -/
theorem fault_lower (w : Width) :
    (lower w).fault? = none ↔ ∀ id ∈ w.refs, id ∉ reservedNames := by
  induction w with
  | literal value => simp [lower, Width.refs]
  | field id =>
    simp (disch := decide) [lower, receiver, Expr.fault?, Expr.fault?_var, ofPath_of_plain,
      fault_usize, ofMember_escape, Width.refs]
  | binary op lhs rhs ihl ihr =>
    have hoperand : ∀ (w : Width) (e : Expr), (lower.operand w e).fault? = e.fault? := by
      intro w e
      cases w <;> simp [lower.operand, Expr.fault?]
    simp [lower, Expr.fault?, hoperand, ihl, ihr, Width.refs, or_imp, forall_and]

theorem fault_defaultValue (type : FieldType) : (defaultValue type).fault? = none := by
  cases type <;> simp (disch := decide) [defaultValue, Expr.fault?, faultOfExprs?, ofPath_of_plain]

theorem fault_perform (e : Expr) : (perform e).fault? = e.fault? := by
  simp [perform]

theorem fault_declareSize (name : String) (e : Expr) : (declareSize name e).fault? = e.fault? := by
  simp [declareSize, Stmt.fault?]

theorem faultOfStmts?_append {a b : Block} :
    faultOfStmts? (a ++ b) = none ↔ faultOfStmts? a = none ∧ faultOfStmts? b = none := by
  simp [faultOfStmts?_eq_none, or_imp, forall_and]

theorem fault_forElements {body : Block} :
    (forElements body).fault? = none ↔ faultOfStmts? body = none := by
  simp (disch := decide) [forElements, Expr.fault?, Expr.fault?_var, ofPath_of_plain]

namespace Subject

variable (s : Subject)

theorem fault_place (isElement : Bool) :
    (s.place isElement).fault? = none ↔ s.field.id ∉ reservedNames := by
  cases isElement <;>
    simp (disch := decide) [place, Program.place, receiver, Expr.fault?, Expr.fault?_var,
      ofPath_of_plain, ofMember_escape]

theorem fault_require {kind case : String} {available expected : Expr} :
    (s.require kind case available expected).fault? = none ↔
      available.fault? = none ∧ expected.fault? = none := by
  simp (disch := decide) [require, when, fail, fault_perform, Expr.fault?, faultOfStmts?,
    faultOfExprs?, faultOfFields?, Expr.fault?_var, ofPath_of_plain, ofMember_of_plain]

theorem fault_buffer : buffer.fault? = none := by decide

theorem fault_inputRest : inputRest.fault? = none := by decide

theorem fault_outputRoom : outputRoom.fault? = none := by decide

theorem fault_requireInput {expected : Expr} :
    (s.requireInput expected).fault? = none ↔ expected.fault? = none := by
  rw [requireInput, fault_require, and_iff_right fault_inputRest]

theorem fault_requireRoom {expected : Expr} :
    (s.requireRoom expected).fault? = none ↔ expected.fault? = none := by
  rw [requireRoom, fault_require, and_iff_right fault_outputRoom]

theorem fault_requireStored {expected : Expr} :
    (s.requireStored expected).fault? = none ↔
      s.field.id ∉ reservedNames ∧ expected.fault? = none := by
  simp (disch := decide) [requireStored, fault_require, Expr.fault?, faultOfExprs?, fault_place,
    ofMember_of_plain]

/-- A method that is called on the buffer with a plain argument, or with none. -/
theorem fault_onBuffer {name : String} (hname : ofMember name = none) (arguments : List Expr) :
    (Expr.method buffer name arguments).fault? = none ↔ faultOfExprs? arguments = none := by
  simp [Expr.fault?, fault_buffer, hname]

theorem fault_fill {target : Expr} : (fill target).fault? = none ↔ target.fault? = none := by
  rw [fill, fault_perform, fault_onBuffer (by decide)]
  simp [faultOfExprs?, Expr.fault?]

theorem fault_putSlice {bytes : Expr} : (putSlice bytes).fault? = none ↔ bytes.fault? = none := by
  rw [putSlice, fault_perform, fault_onBuffer (by decide)]
  simp [faultOfExprs?, Expr.fault?]

theorem fault_requireElements (width : Option Nat) :
    faultOfStmts? (s.requireElements width) = none := by
  cases width with
  | none => rfl
  | some n =>
    simp (disch := decide) [requireElements, faultOfStmts?, declare, Stmt.fault?, Expr.fault?,
      faultOfExprs?, fault_requireInput, Expr.fault?_var, ofPath_of_plain, ofMember_of_plain]

theorem fault_nested (isElement : Bool) {name : String} (hname : ofMember name = none) :
    (perform (.propagate (.method (s.place isElement) name [buffer]))).fault? = none ↔
      s.field.id ∉ reservedNames := by
  simp [fault_perform, Expr.fault?, faultOfExprs?, fault_buffer, hname, fault_place]

theorem ofMember_scalarOperation (k : Scalar) (endian : Endian) :
    ofMember (scalarOperation "get" k endian) = none ∧
      ofMember (scalarOperation "put" k endian) = none := by
  cases k <;> cases endian <;> decide +kernel

/-- Whether all names can be spelled that the statements of a field mention: that of the field, if it
is stored, and those that its width refers to. -/
def Spellable : Prop :=
  (s.field.type.isStored = true → s.field.id ∉ reservedNames) ∧
    ∀ w ∈ s.info.width, ∀ id ∈ w.refs, id ∉ reservedNames

variable {s} {type : FieldType}

theorem fault_decode_plain (h : type.Plain fun _ => True) {registry : Registry} {isElement : Bool}
    {body : Block} (hbody : s.decode registry isElement type = .ok body) :
    faultOfStmts? body = none ↔ s.field.id ∉ reservedNames := by
  cases h with
  | scalar k =>
    obtain rfl := Except.ok.inj hbody
    have hget := (ofMember_scalarOperation k s.info.endian).1
    simp [faultOfStmts?, fault_requireInput, fault_perform, Expr.fault?, fault_place, fault_buffer,
      hget, faultOfExprs?]
  | bytes length =>
    obtain rfl := Except.ok.inj hbody
    simp [faultOfStmts?, fault_requireInput, fault_fill, fault_place]
  | nested _ =>
    obtain rfl := Except.ok.inj hbody
    simp (disch := decide) [faultOfStmts?, fault_nested]
  | boxed _ =>
    obtain rfl := Except.ok.inj hbody
    simp (disch := decide) [faultOfStmts?, fault_nested]

theorem fault_encode_plain (h : type.Plain fun _ => True) {isElement : Bool} {body : Block}
    (hbody : s.encode isElement type = .ok body) :
    faultOfStmts? body = none ↔ s.field.id ∉ reservedNames := by
  cases h with
  | scalar k =>
    obtain rfl := Except.ok.inj hbody
    have hput := fault_onBuffer (ofMember_scalarOperation k s.info.endian).2 [s.place isElement]
    simp [faultOfStmts?, fault_requireRoom, fault_perform, hput, faultOfExprs?, fault_place]
  | bytes length =>
    obtain rfl := Except.ok.inj hbody
    simp [faultOfStmts?, fault_requireRoom, fault_putSlice, fault_place]
  | nested _ =>
    obtain rfl := Except.ok.inj hbody
    simp (disch := decide) [faultOfStmts?, fault_nested]
  | boxed _ =>
    obtain rfl := Except.ok.inj hbody
    simp (disch := decide) [faultOfStmts?, fault_nested]

theorem spellable_plain {before : List FieldDecl} (h : s.info.Consistent before s.field.type)
    (hplain : s.field.type.Plain fun _ => True) : s.Spellable ↔ s.field.id ∉ reservedNames := by
  have hrefs : ∀ w ∈ s.info.width, ∀ id ∈ w.refs, id ∉ reservedNames := by
    intro w hw id hid
    have hnil := (h.refs hw).2.resolve_right (not_not_intro hplain)
    simp [hnil] at hid
  unfold Spellable
  rw [and_iff_left hrefs]
  simp [hplain.isStored]

theorem spellable_constant {value : String} {n : Nat} (htype : s.field.type = .constant value)
    (hw : s.info.width = some (.literal n)) : s.Spellable := by
  simp [Spellable, htype, FieldType.isStored, hw, Width.refs]

theorem spellable_computed {w : Width} (hstored : s.field.type.isStored = true)
    (hw : s.info.width = some w) :
    s.Spellable ↔ (lower w).fault? = none ∧ s.field.id ∉ reservedNames := by
  simp [Spellable, hstored, hw, fault_lower, and_comm]

theorem fault_decode {before : List FieldDecl} (h : s.info.Consistent before s.field.type)
    {registry : Registry} {body : Block}
    (hbody : s.decode registry false s.field.type = .ok body) :
    faultOfStmts? body = none ↔ s.Spellable := by
  obtain hplain | ⟨value, n, ht, hw⟩ | ⟨w, ht, hw⟩ | ⟨element, w, ht, hw, he⟩ := h.cases
  · rw [fault_decode_plain hplain hbody, spellable_plain h hplain]
  · rw [iff_true_right (spellable_constant ht hw)]
    rw [ht] at hbody
    obtain ⟨_, _, rfl⟩ := decode_constant.mp hbody
    simp (disch := decide) [faultOfStmts?, fault_requireInput, fault_fill, when, fail,
      fault_perform, Stmt.fault?, Expr.fault?, faultOfExprs?, faultOfFields?, Expr.fault?_var,
      ofPath_of_plain, ofMember_of_plain]
  · rw [spellable_computed (by rw [ht]; rfl) hw]
    rw [ht] at hbody
    obtain ⟨_, hw', rfl⟩ := decode_byteRun.mp hbody
    cases hw.symm.trans hw'
    simp (disch := decide) [faultOfStmts?, fault_declareSize, fault_requireInput, fault_perform,
      Expr.fault?, fault_fill, fault_place, Expr.fault?_var, ofPath_of_plain]
  · rw [spellable_computed (by rw [ht]; rfl) hw]
    rw [ht] at hbody
    obtain ⟨_, inner, hw', hinner, rfl⟩ := decode_slice.mp hbody
    cases hw.symm.trans hw'
    simp (disch := decide) [faultOfStmts?_append, faultOfStmts?, fault_declareSize, fault_requireElements,
      fault_perform, Expr.fault?, faultOfExprs?, fault_place, fault_inputRest, fault_forElements,
      fault_defaultValue, fault_decode_plain he.plain hinner, Expr.fault?_var, ofPath_of_plain,
      ofMember_of_plain]

theorem fault_encode {before : List FieldDecl} (h : s.info.Consistent before s.field.type)
    {body : Block} (hbody : s.encode false s.field.type = .ok body) :
    faultOfStmts? body = none ↔ s.Spellable := by
  obtain hplain | ⟨value, n, ht, hw⟩ | ⟨w, ht, hw⟩ | ⟨element, w, ht, hw, he⟩ := h.cases
  · rw [fault_encode_plain hplain hbody, spellable_plain h hplain]
  · rw [iff_true_right (spellable_constant ht hw)]
    rw [ht] at hbody
    obtain ⟨_, _, rfl⟩ := encode_constant.mp hbody
    simp (disch := decide) [faultOfStmts?, fault_requireRoom, fault_perform, Expr.fault?,
      faultOfExprs?, fault_buffer, Expr.fault?_var, ofPath_of_plain]
  · rw [spellable_computed (by rw [ht]; rfl) hw]
    rw [ht] at hbody
    obtain ⟨_, hw', rfl⟩ := encode_byteRun.mp hbody
    cases hw.symm.trans hw'
    simp (disch := decide) [faultOfStmts?, fault_declareSize, fault_requireStored,
      fault_requireRoom, fault_putSlice, Expr.fault?, fault_place, Expr.fault?_var, ofPath_of_plain]
  · rw [spellable_computed (by rw [ht]; rfl) hw]
    rw [ht] at hbody
    obtain ⟨_, inner, hw', hinner, rfl⟩ := encode_slice.mp hbody
    cases hw.symm.trans hw'
    simp (disch := decide) [faultOfStmts?, fault_declareSize, fault_requireStored,
      fault_forElements, fault_encode_plain he.plain hinner, Expr.fault?_var, ofPath_of_plain]

end Subject

/-! ### Names in items -/

/-- The statements of all fields mention the stored ones. What a width refers to is stored. -/
theorem fault_transferFields {registry : Registry} {r : RecordDecl} (hr : r.Recorded registry)
    {transfer : Subject → Except TransferError Block}
    (htransfer : ∀ {s : Subject} {before body}, s.info.Consistent before s.field.type →
      transfer s = .ok body → (faultOfStmts? body = none ↔ s.Spellable))
    {body : Block} (hbody : transferFields registry transfer r = .ok body) :
    faultOfStmts? body = none ↔
      ∀ f ∈ r.fields, f.type.isStored = true → f.id ∉ reservedNames := by
  have hfields := transferFields_eq_ok hbody
  have hfault : ∀ own : Block, (Stmt.expr (.block none false own) false).fault? = none ↔
      faultOfStmts? own = none := by simp [Expr.fault?]
  rw [faultOfStmts?_eq_none]
  constructor
  · intro h f hf
    obtain ⟨s, hs, info, own, hget, hown, rfl⟩ := exists_of_forall₂ hfields hf
    obtain ⟨info', before, hget', hconsistent, _⟩ := hr f hf
    obtain rfl : info' = info := Except.ok.inj (hget'.symm.trans hget)
    exact ((htransfer hconsistent hown).mp ((hfault own).mp (h _ hs))).1
  · intro h s hs
    obtain ⟨f, hf, info, own, hget, hown, rfl⟩ := exists_of_forall₂ hfields.flip hs
    obtain ⟨info', before, hget', hconsistent, hbefore⟩ := hr f hf
    obtain rfl : info' = info := Except.ok.inj (hget'.symm.trans hget)
    refine (hfault own).mpr ((htransfer hconsistent hown).mpr ⟨h f hf, fun w hw id hid => ?_⟩)
    obtain ⟨g, hg, rfl, k, htype⟩ := (hconsistent.refs hw).1 id hid
    exact h g (hbefore hg) (by rw [htype]; rfl)

/-- A name without colons is a path of one segment. -/
theorem segments_of_isIdentifier {name : String} (h : IsIdentifier name) :
    segments name = [escape name] := by
  simp [segments, splitPath_of_notMem h.colon_notMem]

theorem fault_recordType {r : RecordDecl} (hid : IsIdentifier r.id) :
    (recordType r).fault? = none := by
  have hpath : ofTypePath [escape r.id] = none := (ofTypePath_escape [r.id]).mpr (by simp)
  simp [recordType, Ty.fault?_path, segments_of_isIdentifier hid, hpath]

theorem fault_procedure {r : RecordDecl} (hid : IsIdentifier r.id) {name kind : String}
    {parameters : List Parameter} {body : Block} :
    (procedure r name kind parameters body).fault? = none ↔ faultOfStmts? body = none := by
  have happend : faultOfStmts? (body ++ [.expr (.call (.var "Ok") [.unit]) false]) = none ↔
      faultOfStmts? body = none := by
    rw [faultOfStmts?_append, and_iff_left]
    decide
  simp (disch := decide) [procedure, Item.fault?_methods, fault_recordType hid,
    faultOfStmts?, Expr.fault?, faultOfExprs?, ofPath_of_plain, happend]

theorem fault_decoder {registry : Registry} {r : RecordDecl} (hid : IsIdentifier r.id)
    (hr : r.Recorded registry) {i : Item} (h : decoder registry r = .ok i) :
    i.fault? = none ↔ ∀ f ∈ r.fields, f.type.isStored = true → f.id ∉ reservedNames := by
  obtain ⟨blocks, hblocks, rfl⟩ := decoder_eq_ok h
  rw [fault_procedure hid]
  exact fault_transferFields hr (fun h hown => Subject.fault_decode h hown) hblocks

theorem fault_encoder {registry : Registry} {r : RecordDecl} (hid : IsIdentifier r.id)
    (hr : r.Recorded registry) {i : Item} (h : encoder registry r = .ok i) :
    i.fault? = none ↔ ∀ f ∈ r.fields, f.type.isStored = true → f.id ∉ reservedNames := by
  obtain ⟨blocks, hblocks, rfl⟩ := encoder_eq_ok h
  rw [fault_procedure hid]
  exact fault_transferFields hr (fun h hown => Subject.fault_encode h hown) hblocks

theorem fault_wire {r : RecordDecl} (hid : IsIdentifier r.id) (hnamed : r.id ≠ "_") :
    (wire r).fault? = none := by
  have hpath : ∀ name, (name == placeholderName || isUnmarked name) = false →
      ofPath (segments r.id ++ [name]) = none := by
    intro name hname
    rw [ofPath_eq_none, segments_of_isIdentifier hid]
    have hescape : escape r.id ≠ placeholderName := fun h => hnamed (escape_eq_placeholder.mp h)
    have hplain : name ≠ placeholderName ∧ name ∉ keywords := by simpa [isUnmarked] using hname
    simpa [hescape, escape_notMem_keywords] using hplain
  simp (disch := decide) [wire, Item.fault?_methods, fault_recordType hid,
    faultOfStmts?, Expr.fault?, faultOfExprs?, hpath, receiver, Subject.fault_buffer,
    Expr.fault?_var, ofPath_of_plain]

/-- The type of a field mentions the path in its representation. -/
theorem fault_fieldType (type : FieldType) :
    (fieldType type).fault? = none ↔ (1 < type.segments.length → "_" ∉ type.segments) := by
  induction type with
  | scalar k => cases k <;> decide +kernel
  | nested path =>
    have hpath : segments path = (FieldType.nested path).segments.map escape := by
      simp [segments, FieldType.segments, FieldType.path?, Function.comp_def]
    simp [fieldType, Ty.fault?_path, hpath, ofTypePath_escape]
  | slice element ih =>
    have hvec : ofTypePath ["Vec"] = none := by decide
    simpa [fieldType, Ty.fault?_path, hvec, FieldType.segments, FieldType.path?] using ih
  | boxed target ih =>
    have hbox : ofTypePath ["Box"] = none := by decide
    simpa [fieldType, Ty.fault?_path, hbox, FieldType.segments, FieldType.path?] using ih
  | bytes length =>
    have hbyte : (Ty.named "u8").fault? = none := by decide
    simp [fieldType, Ty.fault?, hbyte, FieldType.segments, FieldType.path?]
  | byteRun =>
    have hvec : ofTypePath ["Vec"] = none := by decide
    have hbyte : (Ty.named "u8").fault? = none := by decide
    simp [fieldType, Ty.fault?_path, hvec, hbyte, FieldType.segments, FieldType.path?]
  | constant value => simp [fieldType, Ty.fault?, FieldType.segments, FieldType.path?]

/-- A struct declares its own name and those of its fields, of which one may be missing. -/
theorem fault_struct {attributes : List Attribute} {name : String} {fields : List FieldDecl} :
    (Item.struct attributes (escape name)
        (fields.map fun f => (escape f.id, fieldType f.type))).fault? = none ↔
      name ∉ reservedNames ∧ ∀ f ∈ fields, (f.id = "_" ∨ f.id ∉ reservedNames) ∧
        (fieldType f.type).fault? = none := by
  have hfield : ∀ id, ofField (escape id) = none ↔ id = "_" ∨ id ∉ reservedNames := by
    intro id
    unfold ofField
    split
    · rename_i h
      simp [escape_eq_placeholder.mp h]
    · rename_i h
      have hid : id ≠ "_" := fun heq => h (escape_eq_placeholder.mpr heq)
      simp [ofDeclared_escape, hid]
  simp [Item.fault?_struct, ofDeclared_escape, hfield]

/-- The initial value of a record selects all its fields. -/
theorem fault_default {name : String} {fields : List FieldDecl} :
    (Item.methods (some "Default") (.named (escape name))
        [({ name := "default", result := some (.named "Self") },
          [.expr (.construct ["Self"] (fields.map fun f => (escape f.id, defaultValue f.type)))
            false])]).fault? = none ↔ ∀ f ∈ fields, f.id ∉ reservedNames := by
  have htarget : ofTypePath [escape name] = none := (ofTypePath_escape [name]).mpr (by simp)
  simp [Item.fault?_methods, Ty.named, Ty.fault?_path, htarget, faultOfStmts?,
    Expr.fault?, faultOfFields?_eq_none, ofMember_escape, fault_defaultValue]

theorem fault_declaration (r : RecordDecl) (origin : Option String) :
    (∀ i ∈ declaration r origin, i.fault? = none) ↔
      r.id ∉ reservedNames ∧ ∀ f ∈ r.fields, f.type.isStored = true →
        f.id ∉ reservedNames ∧ (fieldType f.type).fault? = none := by
  simp only [declaration, List.forall_mem_cons, List.not_mem_nil, false_implies, implies_true,
    and_true, fault_struct, fault_default, List.mem_filter, and_imp]
  constructor
  · intro h
    exact ⟨h.1.1, fun f hf hstored => ⟨h.2 f hf hstored, (h.1.2 f hf hstored).2⟩⟩
  · intro h
    exact ⟨⟨h.1, fun f hf hstored => ⟨Or.inr (h.2 f hf hstored).1, (h.2 f hf hstored).2⟩⟩,
      fun f hf hstored => (h.2 f hf hstored).1⟩

/-! ### Records and directives -/

theorem fault_imports : ∀ i ∈ imports, i.fault? = none := by
  simp [imports]

theorem fault_helpers (c : Compilation) (records : List RecordDecl) :
    ∀ i ∈ helpers c records, i.fault? = none := by
  intro i hi
  rw [eq_of_mem_helpers hi]
  decide +kernel

end WireRecords.Program

namespace WireRecords

open Program

/-- What is generated for a record, where the host declares the symbols `s`, has no name where it
cannot stand. -/
structure RecordDecl.Spellable (s : CollisionSet) (r : RecordDecl) : Prop where
  declared : s.contains r.id .type = false → r.id ∉ reservedNames ∧
    ∀ f ∈ r.fields, 1 < f.type.segments.length → "_" ∉ f.type.segments
  selected : ∀ kind, s.contains r.id kind = false →
    ∀ f ∈ r.fields, f.type.isStored = true → f.id ∉ reservedNames

/-- The same of a directive. A record is declared under its name, and with the paths in the types of
its fields. Whatever is generated selects the fields that are stored, which constants are not. -/
structure Directive.Spellable (s : CollisionSet) (d : Directive) : Prop where
  declared : s.contains d.id .type = false → d.id ∉ reservedNames ∧
    ∀ f ∈ d.fields, ∀ path ∈ f.type.bind TypeExpr.path?, 1 < path.length → "_" ∉ path
  selected : ∀ kind, s.contains d.id kind = false →
    ∀ f ∈ d.fields, (∀ value, f.type ≠ some (.constant value)) → f.id ∉ reservedNames

theorem RecordDecl.spellable_iff {c : Compilation} {r : RecordDecl} (hr : r.Recorded c.registry)
    (hid : IsIdentifier r.id) (hnamed : r.id ≠ anonymous) :
    (∀ i, Emits c r i → i.fault? = none) ↔ r.Spellable c.collisions := by
  constructor
  · intro h
    refine ⟨fun htype => ?_, fun kind hkind => ?_⟩
    · obtain ⟨hname, hfields⟩ :=
        (fault_declaration r (c.origin? r.id)).mp fun i hi => h i (.type htype hi)
      refine ⟨hname, fun f hf hlong => ?_⟩
      have hstored : f.type.isStored = true := by
        cases ht : f.type with
        | constant value => simp [ht, FieldType.segments, FieldType.path?] at hlong
        | _ => rfl
      exact (fault_fieldType f.type).mp (hfields f hf hstored).2 hlong
    · cases kind with
      | type =>
        intro f hf hstored
        exact (((fault_declaration r (c.origin? r.id)).mp fun i hi =>
          h i (.type hkind hi)).2 f hf hstored).1
      | decode =>
        obtain ⟨i, hi⟩ := decoder_total hr
        exact (fault_decoder hid hr hi).mp (h i (.decode hkind hi))
      | encode =>
        obtain ⟨i, hi⟩ := encoder_total hr
        exact (fault_encoder hid hr hi).mp (h i (.encode hkind hi))
  · intro h i hi
    cases hi with
    | type htype hi =>
      refine (fault_declaration r (c.origin? r.id)).mpr ⟨(h.declared htype).1, ?_⟩ i hi
      intro f hf hstored
      exact ⟨h.selected .type htype f hf hstored,
        (fault_fieldType f.type).mpr ((h.declared htype).2 f hf)⟩
    | decode hkind hi => exact (fault_decoder hid hr hi).mpr (h.selected .decode hkind)
    | encode hkind hi => exact (fault_encoder hid hr hi).mpr (h.selected .encode hkind)
    | wire _ _ => exact fault_wire hid hnamed
    | found _ => simp [placeholder]

/-- Only a path of one segment is built in, and all others are kept. -/
theorem FieldType.Represents.segments_iff {type : FieldType} {written : Option TypeExpr}
    (h : type.Represents written) (hids : ∀ {ids}, written.bind TypeExpr.path? = some ids →
      ids ≠ [] ∧ ∀ s ∈ ids, IsIdentifier s) :
    (1 < type.segments.length → "_" ∉ type.segments) ↔
      ∀ path ∈ written.bind TypeExpr.path?, 1 < path.length → "_" ∉ path := by
  cases hpath : type.path? with
  | some path =>
    obtain ⟨ids, hwritten, hsplit⟩ := h.splitPath_eq hpath hids
    have hsegments : type.segments = ids := by simp [FieldType.segments, hpath, hsplit]
    simp [hsegments, hwritten]
  | none =>
    have hsegments : type.segments = [] := by simp [FieldType.segments, hpath]
    refine iff_of_true (by simp [hsegments]) fun path hmem hlong => ?_
    have houter : TypeExpr.outer? path = none := by
      have hnone := h.path.symm.trans hpath
      rw [Option.mem_def.mp hmem] at hnone
      exact hnone
    match path, hlong with
    | a :: b :: rest, _ => simp [TypeExpr.outer?, Analysis.builtin?] at houter

theorem RecordDecl.Represents.spellable_iff {r : RecordDecl} {d : Directive} (h : r.Represents d)
    (hd : d.Named) (s : CollisionSet) : r.Spellable s ↔ d.Spellable s := by
  have hpaths : (∀ g ∈ r.fields, 1 < g.type.segments.length → "_" ∉ g.type.segments) ↔
      ∀ f ∈ d.fields, ∀ path ∈ f.type.bind TypeExpr.path?, 1 < path.length → "_" ∉ path :=
    forall_iff_of_forall₂ h.fields fun hf hgf => hgf.type.segments_iff (hd.path hf)
  have hnames : (∀ g ∈ r.fields, g.type.isStored = true → g.id ∉ reservedNames) ↔
      ∀ f ∈ d.fields, (∀ value, f.type ≠ some (.constant value)) → f.id ∉ reservedNames :=
    forall_iff_of_forall₂ h.fields fun _ hgf => by rw [hgf.type.isStored, hgf.id]
  constructor
  · intro hr
    refine ⟨fun htype => ?_, fun kind hkind => ?_⟩
    · obtain ⟨hname, hfields⟩ := hr.declared (h.id ▸ htype)
      exact ⟨h.id ▸ hname, hpaths.mp hfields⟩
    · exact hnames.mp (hr.selected kind (h.id ▸ hkind))
  · intro hr
    refine ⟨fun htype => ?_, fun kind hkind => ?_⟩
    · obtain ⟨hname, hfields⟩ := hr.declared (h.id ▸ htype)
      exact ⟨h.id ▸ hname, hpaths.mpr hfields⟩
    · exact hnames.mpr (hr.selected kind (h.id ▸ hkind))

theorem generate_ok_iff {c : Compilation} (hrecorded : ∀ r ∈ named c, r.Recorded c.registry)
    (hnames : ∀ r ∈ named c, IsIdentifier r.id ∧ r.id ≠ anonymous) (isFlat : Bool) :
    (∃ items, (generate c isFlat).2 = .ok items) ↔ ∀ r ∈ named c, r.Spellable c.collisions := by
  obtain ⟨items, hitems⟩ := generateItems_total hrecorded
  have hfault : (∃ out, (generate c isFlat).2 = .ok out) ↔ faultOfItems? items = none := by
    simp [generate_iff, hitems]
  have hrecord : ∀ r ∈ named c,
      ((∀ i, Emits c r i → i.fault? = none) ↔ r.Spellable c.collisions) := fun r hr =>
    r.spellable_iff (hrecorded r hr) (hnames r hr).1 (hnames r hr).2
  rw [hfault, faultOfItems?_eq_none]
  constructor
  · intro h r hr
    refine (hrecord r hr).mp fun i hi => h i ?_
    exact (mem_generateItems hitems i).mpr (Or.inr (Or.inl ⟨r, hr, hi⟩))
  · intro h i hi
    obtain himport | ⟨r, hr, hemits⟩ | hhelper := (mem_generateItems hitems i).mp hi
    · exact fault_imports i himport
    · exact (hrecord r hr).mpr (h r hr) i hemits
    · exact fault_helpers c (named c) i hhelper

/-- A file is generated exactly when every directive of a record that has a name, and of which
something is generated, has its names where they can stand. -/
theorem file_generated_iff_spellable {config : Config} {units : List CompilationUnit} {p : Progress}
    (h : compile config units = .ok p) (s : CollisionSet) (isFlat : Bool) :
    (∃ items, (generate (p.compilation.against s) isFlat).2 = .ok items) ↔
      ∀ d ∈ declared config units, d.id ≠ anonymous → d.Spellable s := by
  have hdirectives : (∀ r ∈ p.compilation.records, r.isAnonymous = false → r.Spellable s) ↔
      ∀ d ∈ declared config units, d.id ≠ anonymous → d.Spellable s := by
    refine forall_iff_of_forall₂ (compile_analyses h).represents fun hd hrd => ?_
    rw [hrd.spellable_iff (named_of_mem_declared hd) s, RecordDecl.isAnonymous, hrd.id,
      beq_eq_false_iff_ne]
  have hgenerate := generate_ok_iff (c := p.compilation.against s)
    (fun r hr => (compile_named h r hr).1) (fun r hr => (compile_named h r hr).2) isFlat
  rw [hgenerate, ← hdirectives]
  simp only [mem_named, and_imp, Compilation.against]

/-- A field is named by a keyword that cannot be marked. -/
def reservedField : List CompilationUnit := [.inline "reserved" ["A super[1]"]]

theorem reservedField_run : ∃ p ∈ (compile {} reservedField).toOption, ∀ isFlat,
    (match (generate p.compilation isFlat).2 with
      | .error e => some e
      | .ok _ => none) = some (.malformed (.keyword "super")) := by
  decide +kernel

theorem reserved_field_not_generated :
    ∃ p, compile {} reservedField = .ok p ∧
      ∀ isFlat, (generate p.compilation isFlat).2 = .error (.malformed (.keyword "super")) := by
  obtain ⟨p, hp, hrun⟩ := reservedField_run
  refine ⟨p, compile_of_toOption hp, fun isFlat => ?_⟩
  have herror := hrun isFlat
  split at herror
  · rename_i e he
    rw [he, Option.some.inj herror]
  · simp at herror

/-- Keywords that can be marked, and others where they can stand: as the name of a constant, in a
path, in a record that the host has, and in one that has no name. -/
def spelled : List CompilationUnit :=
  [.inline "spelled"
    ["match type[1] self[2, \"ab\"] as[, super.Point] next[, *_] data[type * 2]", "crate a[2]",
      "_ _[1] self[2]"]]

/-- The host has all of the record `crate`. -/
def spelledHost : CollisionSet :=
  ⟨[⟨⟨"crate", .type⟩, "host.rs"⟩, ⟨⟨"crate", .decode⟩, "host.rs"⟩,
    ⟨⟨"crate", .encode⟩, "host.rs"⟩]⟩

theorem spelled_run : ∃ p ∈ (compile {} spelled).toOption,
    p.compilation.records.map (·.id) = ["match", "crate", "_"] ∧
      ∀ isFlat, (generate (p.compilation.against spelledHost) isFlat).2.toOption.isSome = true ∧
        (generate p.compilation isFlat).2.toOption.isSome = false := by
  decide +kernel

theorem file_generated_iff_spellable_marked :
    ∃ p, compile {} spelled = .ok p ∧
      (∀ d ∈ declared {} spelled, d.id ≠ anonymous → d.Spellable spelledHost) ∧
      ¬ ∀ d ∈ declared {} spelled, d.id ≠ anonymous → d.Spellable p.compilation.collisions := by
  obtain ⟨p, hp, _, hrun⟩ := spelled_run
  have hcompile := compile_of_toOption hp
  refine ⟨p, hcompile, ?_, fun hall => ?_⟩
  · apply (file_generated_iff_spellable hcompile spelledHost true).mp
    cases hgen : (generate (p.compilation.against spelledHost) true).2 with
    | error e => simpa [hgen, Except.toOption] using (hrun true).1
    | ok items => exact ⟨items, rfl⟩
  · obtain ⟨items, hitems⟩ :=
      (file_generated_iff_spellable hcompile p.compilation.collisions true).mpr hall
    have hnone := (hrun true).2
    rw [show p.compilation = p.compilation.against p.compilation.collisions from rfl, hitems]
      at hnone
    simp [Except.toOption] at hnone

end WireRecords
