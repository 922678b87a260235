import WireRecords.Proofs.Json.Reader
import WireRecords.Proofs.Json.Rendering
import WireRecords.Proofs.Program.Emission

/-!
# Exported records read back

Readers for the forms of an export. Members are found by name, wherever they stand in an object.
`export_determines_records` says that the text of an export is JSON and that reading it gives the
records of the compilation that have a name, in the order of their directives, with all that is
known about their fields.
-/
namespace WireRecords

/-! ### Parts of values -/

namespace Json.Tree

def string? : Tree → Option String
  | string s => some s
  | _ => none

/-- A number without a sign, a fraction or an exponent. -/
def natural? : Tree → Option Nat
  | number lexeme => if lexeme.all Char.isDigit then some (Nat.ofDigitChars 10 lexeme 0) else none
  | _ => none

def items? {α : Type} (read : Tree → Option α) : Tree → Option (List α)
  | array items => items.mapM read
  | _ => none

/-- Null stands for what is absent. -/
def optional? {α : Type} (read : Tree → Option α) : Tree → Option (Option α)
  | null => some none
  | t => (read t).map some

/-- The member of an object that has the given name. -/
def get? (key : String) : Tree → Option Tree
  | object members => members.lookup key
  | _ => none

/-- What a member is read as. -/
def member? {α : Type} (key : String) (read : Tree → Option α) (t : Tree) : Option α :=
  (t.get? key).bind read

theorem sizeOf_get? {key : String} {t u : Tree} (h : t.get? key = some u) :
    sizeOf u < sizeOf t := by
  cases t with
  | object members =>
    simp only [get?] at h
    induction members with
    | nil => simp at h
    | cons m members ih =>
      obtain ⟨name, v⟩ := m
      rw [List.lookup_cons] at h
      split at h
      · obtain rfl := Option.some.inj h
        simp only [object.sizeOf_spec, List.cons.sizeOf_spec, Prod.mk.sizeOf_spec]
        omega
      · have hlt := ih h
        simp only [object.sizeOf_spec, List.cons.sizeOf_spec] at hlt ⊢
        omega
  | _ => simp [get?] at h

/-- A member, together with what lets a reader recur on it. -/
def below? (key : String) (t : Tree) : Option { u : Tree // sizeOf u < sizeOf t } :=
  match h : t.get? key with
  | some u => some ⟨u, sizeOf_get? h⟩
  | none => none

theorem below?_eq_some {key : String} {t u : Tree} (h : t.get? key = some u) :
    t.below? key = some ⟨u, sizeOf_get? h⟩ := by
  unfold below?
  split
  · rename_i v hv
    obtain rfl : u = v := Option.some.inj (h.symm.trans hv)
    rfl
  · rename_i hnone
    simp [h] at hnone

end Json.Tree

namespace Json

@[simp] theorem get?_head (key : String) (j : Json) (entries : List (String × Json)) :
    (object ((key, j) :: entries)).tree.get? key = some j.tree := by
  simp [tree, members, Tree.get?]

@[simp] theorem get?_tail {key name : String} (h : key ≠ name) (j : Json)
    (entries : List (String × Json)) :
    (object ((name, j) :: entries)).tree.get? key = (object entries).tree.get? key := by
  have hne : (key == name) = false := beq_false_of_ne h
  simp [tree, members, Tree.get?, List.lookup_cons, hne]

@[simp] theorem string?_string (s : String) : (string s).tree.string? = some s := by
  rw [tree, Tree.string?]

@[simp] theorem natural?_number (n : Nat) : (number n).tree.natural? = some n := by
  have hdigits : (Nat.toDigits 10 n).all Char.isDigit = true :=
    List.all_eq_true.mpr fun d hd => Nat.isDigit_of_mem_toDigits (by decide) (by decide) hd
  rw [tree, Tree.natural?, if_pos hdigits, Nat.ofDigitChars_ten_toDigits]

theorem items?_array {α : Type} (read : Tree → Option α) (items : List Json) :
    (array items).tree.items? read = items.mapM fun j => read j.tree := by
  rw [tree, Tree.items?, trees_eq_map, List.mapM_map]
  rfl

theorem optional?_ofOption {α : Type} {read : Tree → Option α} {write : α → Json} (o : Option α)
    (h : ∀ a, read (write a).tree = some a) (hnull : read .null = none) :
    (ofOption write o).tree.optional? read = some o := by
  cases o with
  | none => simp [ofOption, tree, Tree.optional?]
  | some a =>
    have hread := h a
    have hne : (write a).tree ≠ .null := by
      intro heq
      simp [heq, hnull] at hread
    rw [ofOption, Tree.optional?, hread]
    · rfl
    · exact hne

end Json

open Json (Tree)

/-- The choice that has a name. -/
def named? {α : Type} (name : α → String) (choices : List α) (s : String) : Option α :=
  choices.find? (name · == s)

theorem named?_name {α : Type} {name : α → String} {choices : List α} {a : α} (h : a ∈ choices)
    (inj : ∀ b ∈ choices, name b = name a → b = a) : named? name choices (name a) = some a := by
  have hisSome : (named? name choices (name a)).isSome = true :=
    List.find?_isSome.mpr ⟨a, h, by simp⟩
  obtain ⟨b, hb⟩ := Option.isSome_iff_exists.mp hisSome
  have hname : name b = name a := by simpa using List.find?_some hb
  rw [hb, inj b (List.mem_of_find?_eq_some hb) hname]

/-! ### Forms of an export -/

/-- The form of an object. -/
def kind? (t : Tree) : Option String := t.member? "kind" Tree.string?

def Width.ofTree? (t : Tree) : Option Width :=
  match kind? t with
  | some "literal" => (t.member? "value" Tree.natural?).map .literal
  | some "field_ref" => (t.member? "id" Tree.string?).map .field
  | some "binary_op" => do
    let symbol ← t.member? "op" Tree.string?
    let op ← named? Operator.symbol [.add, .sub, .mul, .div, .rem] symbol
    let ⟨lhs, _⟩ ← t.below? "lhs"
    let ⟨rhs, _⟩ ← t.below? "rhs"
    return .binary op (← Width.ofTree? lhs) (← Width.ofTree? rhs)
  | _ => none
termination_by sizeOf t

theorem Width.ofTree?_toJson (w : Width) : Width.ofTree? w.toJson.tree = some w := by
  induction w with
  | literal n =>
    rw [Width.ofTree?]
    simp [toJson, kind?, Tree.member?]
  | field id =>
    rw [Width.ofTree?]
    simp [toJson, kind?, Tree.member?]
  | binary op lhs rhs ihl ihr =>
    have hop : named? Operator.symbol [.add, .sub, .mul, .div, .rem] op.symbol = some op := by
      apply named?_name <;> cases op <;> simp [Operator.symbol]
    have hlhs : (binary op lhs rhs).toJson.tree.get? "lhs" = some lhs.toJson.tree := by
      simp [toJson]
    have hrhs : (binary op lhs rhs).toJson.tree.get? "rhs" = some rhs.toJson.tree := by
      simp [toJson]
    rw [Width.ofTree?, Tree.below?_eq_some hlhs, Tree.below?_eq_some hrhs]
    simp [toJson, kind?, Tree.member?, hop, ihl, ihr]

def FieldType.ofTree? (t : Tree) : Option FieldType :=
  match kind? t with
  | some "scalar" => ((t.member? "scalar" Tree.string?).bind Scalar.ofName?).map .scalar
  | some "fixed_byte_array" => (t.member? "len" Tree.natural?).map .bytes
  | some "byte_slice" => some .byteRun
  | some "slice_of" => do
    let ⟨element, _⟩ ← t.below? "element"
    return .slice (← FieldType.ofTree? element)
  | some "nested_record" => (t.member? "path" Tree.string?).map .nested
  | some "boxed" => do
    let ⟨target, _⟩ ← t.below? "target"
    return .boxed (← FieldType.ofTree? target)
  | some "constant" => (t.member? "value" Tree.string?).map .constant
  | _ => none
termination_by sizeOf t

theorem FieldType.ofTree?_toJson (type : FieldType) :
    FieldType.ofTree? type.toJson.tree = some type := by
  induction type with
  | scalar k =>
    have hname : Scalar.ofName? k.name = some k := by cases k <;> rfl
    rw [FieldType.ofTree?]
    simp [toJson, kind?, Tree.member?, hname]
  | bytes length =>
    rw [FieldType.ofTree?]
    simp [toJson, kind?, Tree.member?]
  | byteRun =>
    rw [FieldType.ofTree?]
    simp [toJson, kind?, Tree.member?]
  | slice element ih =>
    have helement : (slice element).toJson.tree.get? "element" = some element.toJson.tree := by
      simp [toJson]
    rw [FieldType.ofTree?, Tree.below?_eq_some helement]
    simp [toJson, kind?, Tree.member?, ih]
  | nested path =>
    rw [FieldType.ofTree?]
    simp [toJson, kind?, Tree.member?]
  | boxed target ih =>
    have htarget : (boxed target).toJson.tree.get? "target" = some target.toJson.tree := by
      simp [toJson]
    rw [FieldType.ofTree?, Tree.below?_eq_some htarget]
    simp [toJson, kind?, Tree.member?, ih]
  | constant value =>
    rw [FieldType.ofTree?]
    simp [toJson, kind?, Tree.member?]

def FieldMeta.ofTree? (t : Tree) : Option FieldMeta := do
  let width ← t.member? "width" (Tree.optional? Width.ofTree?)
  let endian ← (t.member? "endianness" Tree.string?).bind (named? Endian.name [.little, .big])
  let kind ← (t.member? "width_kind" Tree.string?).bind
    (named? WidthKind.name [.literal, .dynamic, .unresolved])
  return ⟨width, endian, kind⟩

theorem FieldMeta.ofTree?_toJson (info : FieldMeta) :
    FieldMeta.ofTree? info.toJson.tree = some info := by
  have hwidth : (Json.ofOption Width.toJson info.width).tree.optional? Width.ofTree? =
      some info.width := by
    refine Json.optional?_ofOption info.width Width.ofTree?_toJson ?_
    rw [Width.ofTree?]
    rfl
  have hendian : named? Endian.name [.little, .big] info.endian.name = some info.endian := by
    apply named?_name <;> cases info.endian <;> simp [Endian.name]
  have hkind : named? WidthKind.name [.literal, .dynamic, .unresolved] info.kind.name =
      some info.kind := by
    apply named?_name <;> cases info.kind <;> simp [WidthKind.name]
  simp [ofTree?, toJson, Tree.member?, hwidth, hendian, hkind]

/-- What an export tells about a field. -/
structure FieldExport where
  id : String
  type : FieldType
  info : FieldMeta
deriving DecidableEq, Repr

/-- What an export tells about a record. -/
structure RecordExport where
  id : String
  width : Option Nat
  fields : List FieldExport
deriving DecidableEq, Repr

def FieldExport.ofTree? (t : Tree) : Option FieldExport := do
  let id ← t.member? "id" Tree.string?
  let type ← t.member? "type" FieldType.ofTree?
  let info ← t.member? "meta" FieldMeta.ofTree?
  return ⟨id, type, info⟩

def RecordExport.ofTree? (t : Tree) : Option RecordExport := do
  let id ← t.member? "id" Tree.string?
  let width ← t.member? "width" (Tree.optional? Tree.natural?)
  let fields ← t.member? "fields" (Tree.items? FieldExport.ofTree?)
  return ⟨id, width, fields⟩

/-! ### Records -/

/-- An export tells all that is known about a field of a record. -/
structure FieldExport.Describes (c : Compilation) (record : String) (x : FieldExport)
    (f : FieldDecl) : Prop where
  id : x.id = f.id
  type : x.type = f.type
  info : c.registry.get record f.id = .ok x.info

/-- An export tells all that is known about a record, with its fields in order. -/
structure RecordExport.Describes (c : Compilation) (x : RecordExport) (r : RecordDecl) : Prop where
  id : x.id = r.id
  width : x.width = c.registry.width? r.id
  fields : List.Forall₂ (FieldExport.Describes c r.id) x.fields r.fields

/-- What is written item by item can be read item by item. -/
theorem exists_mapM_of_forall₂ {α β γ : Type} {written : α → β → Prop} {describes : γ → α → Prop}
    {read : β → Option γ} {as : List α} {bs : List β} (h : List.Forall₂ written as bs)
    (hread : ∀ {a b}, written a b → ∃ x, read b = some x ∧ describes x a) :
    ∃ xs, bs.mapM read = some xs ∧ List.Forall₂ describes xs as := by
  induction h with
  | nil => exact ⟨[], rfl, .nil⟩
  | cons head _ ih =>
    obtain ⟨x, hx, hdescribes⟩ := hread head
    obtain ⟨xs, hxs, hall⟩ := ih
    exact ⟨x :: xs, by simp [List.mapM_cons, hx, hxs], .cons hdescribes hall⟩

theorem Compilation.read_exportField {c : Compilation} {record : String} {f : FieldDecl} {j : Json}
    (h : c.exportField record f = .ok j) :
    ∃ x, FieldExport.ofTree? j.tree = some x ∧ x.Describes c record f := by
  obtain ⟨info, hget, hj⟩ := bind_eq_ok h
  obtain rfl := Except.ok.inj hj
  refine ⟨⟨f.id, f.type, info⟩, ?_, rfl, rfl, hget⟩
  simp [FieldExport.ofTree?, Tree.member?, FieldType.ofTree?_toJson, FieldMeta.ofTree?_toJson]

theorem Compilation.read_exportRecord {c : Compilation} {r : RecordDecl} {j : Json}
    (h : c.exportRecord r = .ok j) :
    ∃ x, RecordExport.ofTree? j.tree = some x ∧ x.Describes c r := by
  obtain ⟨items, hitems, hj⟩ := bind_eq_ok h
  obtain rfl := Except.ok.inj hj
  obtain ⟨fields, hread, hdescribes⟩ :=
    exists_mapM_of_forall₂ (mapM_eq_ok.mp hitems) Compilation.read_exportField
  have hwidth : (Json.ofOption .number (c.registry.width? r.id)).tree.optional? Tree.natural? =
      some (c.registry.width? r.id) :=
    Json.optional?_ofOption _ Json.natural?_number rfl
  refine ⟨⟨r.id, c.registry.width? r.id, fields⟩, ?_, rfl, rfl, hdescribes⟩
  simp [RecordExport.ofTree?, Tree.member?, hwidth, Json.items?_array, hread]

theorem Compilation.read_exportRecords {c : Compilation} {doc : Json}
    (h : c.exportRecords = .ok doc) :
    ∃ records, doc.tree.items? RecordExport.ofTree? = some records ∧
      List.Forall₂ (RecordExport.Describes c) records (Program.named c) := by
  obtain ⟨items, hitems, hdoc⟩ := bind_eq_ok h
  obtain rfl := Except.ok.inj hdoc
  obtain ⟨records, hread, hdescribes⟩ :=
    exists_mapM_of_forall₂ (mapM_eq_ok.mp hitems) Compilation.read_exportRecord
  exact ⟨records, by rw [Json.items?_array, hread], hdescribes⟩

/-- The records with a name stand in the order of the directives that name them. -/
theorem compile_named_represents {config : Config} {units : List CompilationUnit} {p : Progress}
    (h : compile config units = .ok p) :
    List.Forall₂ RecordDecl.Represents (Program.named p.compilation)
      ((declared config units).filter (·.id != anonymous)) := by
  have hrel : Relator.LiftFun RecordDecl.Represents (· ↔ ·)
      (fun r => (!r.isAnonymous) = true) (fun d => (d.id != anonymous) = true) := by
    intro r d hd
    simp [RecordDecl.isAnonymous, hd.id]
  exact List.rel_filter hrel (compile_analyses h).represents

/-- The text of an export is JSON and spells one value, which the reader finds. Read as an export,
the value gives the records that have a name, one for each directive with a name and in their order.
Each has the width of the registry, and its fields have the types and the metadata that they were
compiled to. -/
theorem export_determines_records {config : Config} {units : List CompilationUnit} {p : Progress}
    (h : compile config units = .ok p) :
    ∃ doc tree records, p.compilation.exportRecords = .ok doc ∧
      (∀ t, Json.Spells doc.text.toList t ↔ t = tree) ∧ Json.parse doc.text.toList = some tree ∧
      tree.items? RecordExport.ofTree? = some records ∧
      List.Forall₂ (RecordExport.Describes p.compilation) records (Program.named p.compilation) ∧
      List.Forall₂ RecordDecl.Represents (Program.named p.compilation)
        ((declared config units).filter (·.id != anonymous)) := by
  obtain ⟨doc, hdoc⟩ := Compilation.exportRecords_total fun r hr => (compile_named h r hr).1
  obtain ⟨records, hread, hdescribes⟩ := Compilation.read_exportRecords hdoc
  have hspells := Json.spells_text doc
  refine ⟨doc, doc.tree, records, hdoc, fun t => ⟨fun ht => ht.unique hspells, ?_⟩, hspells.parse,
    hread, hdescribes, compile_named_represents h⟩
  rintro rfl
  exact hspells

/-- A record without a name, a constant of characters that are escaped, a width that is computed
and a length close to the greatest word. -/
def ledger : List CompilationUnit :=
  [.inline "ledger" ["a[1]",
    "Entry size[2,,BE] mark[4, \"\\\t\x01é\"] body[(size + 3) * 2 % 7] next[, *Page]",
    "Page count[4] tail[18446744073709551606] entries[count, []Entry]"]]

theorem ledger_run : ∃ p ∈ (compile {} ledger).toOption,
    (Program.named p.compilation).map (fun r => (r.id, r.fields.map (·.type))) =
      [("Entry", [.scalar .u16, .constant "\\\t\x01é", .byteRun, .boxed (.nested "Page")]),
        ("Page", [.scalar .u32, .bytes 18446744073709551606, .slice (.nested "Entry")])] := by
  decide +kernel

theorem export_determines_records_ledger :
    ∃ p, compile {} ledger = .ok p ∧
      (Program.named p.compilation).map (fun r => (r.id, r.fields.map (·.type))) =
        [("Entry", [.scalar .u16, .constant "\\\t\x01é", .byteRun, .boxed (.nested "Page")]),
          ("Page", [.scalar .u32, .bytes 18446744073709551606, .slice (.nested "Entry")])] ∧
      ∃ doc tree records, p.compilation.exportRecords = .ok doc ∧
        Json.parse doc.text.toList = some tree ∧
        tree.items? RecordExport.ofTree? = some records ∧
        List.Forall₂ (RecordExport.Describes p.compilation) records
          (Program.named p.compilation) := by
  obtain ⟨p, hp, hnamed⟩ := ledger_run
  have hcompile := compile_of_toOption hp
  obtain ⟨doc, tree, records, hdoc, _, hparse, hread, hdescribes, _⟩ :=
    export_determines_records hcompile
  exact ⟨p, hcompile, hnamed, doc, tree, records, hdoc, hparse, hread, hdescribes⟩

end WireRecords
