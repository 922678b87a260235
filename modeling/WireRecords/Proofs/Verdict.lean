import WireRecords.Proofs.Analysis

/-!
# What analysis comes to

A directive is refused because its name is taken, or at its first field that cannot be resolved or
whose name is repeated. `analyze_of_records` computes the result of `analyze` from the fields before
that point, and `exists_records` says that every directive has such a point or none.
-/
namespace WireRecords.Analysis

/-- Why the field `f`, which stands behind the fields `before`, is refused. -/
inductive Refused (d : Directive) (r : Registry) (before : List RecordedField) (f : FieldSyntax) :
    Fault → Prop
  | unresolved {fault : FieldFault}
      (failed : Context.resolve ⟨d, before.map (·.decl), r⟩ f = .error fault) :
      Refused d r before f (.field f fault)
  | repeated {res : Resolved} {g : RecordedField}
      (resolved : Context.resolve ⟨d, before.map (·.decl), r⟩ f = .ok res)
      (first : before.find? (·.decl.id == f.id) = some g) :
      Refused d r before f (.registry (.duplicateField d.id f.id f.span g.decl.span))

/-- The fields of `d` that are recorded, and why there are no more of them. -/
def Records (d : Directive) (r : Registry) (fields : List RecordedField) : Option Fault → Prop
  | none => Resolves d (opened d r) [] d.fields fields
  | some fault => ∃ earlier f later, d.fields = earlier ++ f :: later ∧
      Resolves d (opened d r) [] earlier fields ∧ Refused d (opened d r) fields f fault

variable {d : Directive} {r : Registry} {before added : List RecordedField}

/-- The registry when the fields `before` are recorded. -/
def pending (d : Directive) (r : Registry) (before : List RecordedField) : Registry :=
  r.insert ⟨d.id, d.span, before, false, none⟩

/-- The fields recorded so far do not matter for what a field is resolved to. -/
theorem resolve_pending (d : Directive) (r : Registry) (before : List RecordedField)
    (resolved : List FieldDecl) (f : FieldSyntax) :
    Context.resolve ⟨d, resolved, pending d r before⟩ f =
      Context.resolve ⟨d, resolved, opened d r⟩ f := by
  refine Context.resolve_congr (c := ⟨d, resolved, opened d r⟩) ?_ ?_ f
  · simp [pending, opened, Registry.contains_insert]
  · simp [pending, opened, Registry.width?_insert]

theorem put_pending (field : FieldDecl) (info : FieldMeta) :
    (pending d r before).put d.id field info =
      match before.find? (·.decl.id == field.id) with
      | some previous =>
        .error (.duplicateField d.id field.id field.span previous.decl.span)
      | none => .ok (pending d r (before ++ [⟨field, info⟩])) := by
  have hself : (pending d r before).find? d.id = some ⟨d.id, d.span, before, false, none⟩ :=
    r.find?_insert_self ⟨d.id, d.span, before, false, none⟩
  simp only [Registry.put, hself, Bool.false_eq_true, if_false]
  cases before.find? (·.decl.id == field.id) with
  | some previous => rfl
  | none => exact congrArg Except.ok (r.insert_insert rfl)

/-- Fields that resolve are recorded, and the others follow. -/
theorem recordFields_append {fs : List FieldSyntax} (h : Resolves d (opened d r) before fs added)
    (rest : List FieldSyntax) :
    recordFields d (before.map (·.decl)) (pending d r before) (fs ++ rest) =
      recordFields d ((before ++ added).map (·.decl)) (pending d r (before ++ added)) rest := by
  induction h with
  | nil => simp
  | @cons before added f fs res resolved fresh _ ih =>
    have hnew : before.find? (·.decl.id == f.id) = none := by simpa using fresh
    rw [List.cons_append, recordFields, resolve_pending, resolved]
    simp only [put_pending, hnew]
    rw [show before ++ recorded f res :: added = before ++ [recorded f res] ++ added by simp, ← ih]
    simp [recorded]

/-- Nothing is recorded from a refused field on. -/
theorem recordFields_refused {f : FieldSyntax} {fault : Fault}
    (h : Refused d (opened d r) before f fault) (rest : List FieldSyntax) :
    recordFields d (before.map (·.decl)) (pending d r before) (f :: rest) =
      (pending d r before, some fault) := by
  rw [recordFields, resolve_pending]
  cases h with
  | unresolved failed => rw [failed]
  | repeated resolved first =>
    rw [resolved]
    simp only [put_pending, first]

theorem Records.recordFields {fields : List RecordedField} {fault : Option Fault}
    (h : Records d r fields fault) :
    recordFields d [] (opened d r) d.fields = (pending d r fields, fault) := by
  cases fault with
  | none =>
    have hall := recordFields_append h []
    simp only [List.append_nil, List.nil_append] at hall
    exact hall
  | some fault =>
    obtain ⟨earlier, f, later, hfields, hearlier, hrefused⟩ := h
    rw [hfields]
    exact (recordFields_append hearlier (f :: later)).trans (recordFields_refused hrefused later)

/-- Fields resolve until one is refused. -/
theorem resolves_or_refused (d : Directive) (r : Registry) (before : List RecordedField)
    (fs : List FieldSyntax) :
    (∃ added, Resolves d r before fs added) ∨
      ∃ earlier f later added fault, fs = earlier ++ f :: later ∧
        Resolves d r before earlier added ∧ Refused d r (before ++ added) f fault := by
  induction fs generalizing before with
  | nil => exact Or.inl ⟨[], .nil⟩
  | cons f fs ih =>
    have here : ∀ fault, Refused d r before f fault →
        ∃ earlier g later added fault, f :: fs = earlier ++ g :: later ∧
          Resolves d r before earlier added ∧ Refused d r (before ++ added) g fault :=
      fun fault h => ⟨[], f, fs, [], fault, rfl, .nil, by simpa using h⟩
    cases hres : Context.resolve ⟨d, before.map (·.decl), r⟩ f with
    | error fault => exact Or.inr (here _ (.unresolved hres))
    | ok res =>
      cases hfind : before.find? (·.decl.id == f.id) with
      | some g => exact Or.inr (here _ (.repeated hres hfind))
      | none =>
        have hfresh : ∀ g ∈ before, g.decl.id ≠ f.id := by simpa using hfind
        obtain ⟨added, hadded⟩ | ⟨earlier, g, later, added, fault, rfl, hadded, hrefused⟩ :=
          ih (before ++ [recorded f res])
        · exact Or.inl ⟨_, .cons hres hfresh hadded⟩
        · exact Or.inr ⟨f :: earlier, g, later, _, fault, rfl, .cons hres hfresh hadded,
            by simpa using hrefused⟩

theorem exists_records (d : Directive) (r : Registry) :
    ∃ fields fault, Records d r fields fault := by
  obtain ⟨fields, h⟩ | ⟨earlier, f, later, fields, fault, hfields, h, hrefused⟩ :=
    resolves_or_refused d (opened d r) [] d.fields
  · exact ⟨fields, none, h⟩
  · exact ⟨fields, some fault, earlier, f, later, hfields, h, hrefused⟩

theorem fieldWidth?_pending (f : RecordedField) :
    (pending d r before).fieldWidth? f = (opened d r).fieldWidth? f := by
  apply Registry.fieldWidth?_congr
  intro id
  simp [pending, opened, Registry.width?_insert]

end WireRecords.Analysis

namespace WireRecords
open Analysis

variable {d : Directive} {r s : Registry}

/-- What becomes of a directive whose `fields` are recorded. -/
def verdict (d : Directive) (fields : List RecordedField) : Option Fault → Except Fault RecordDecl
  | some fault => .error fault
  | none => .ok ⟨d.span, d.id, fields.map (·.decl)⟩

theorem analyze_of_taken {e : RecordEntry} (hne : d.id ≠ anonymous) (he : r.find? d.id = some e) :
    analyze d r = .ok (r, .error (.registry (.duplicateRecord d.id d.span e.span))) := by
  simp only [analyze, Registry.openRecord, if_neg hne, he]

theorem openRecord_opened (hnew : d.id = anonymous ∨ r.find? d.id = none) :
    r.openRecord d.id d.span = .ok (opened d r) := by
  rcases hnew with hnew | hnew
  · simp [Registry.openRecord, opened, hnew]
  · simp [Registry.openRecord, opened, hnew]

/-- The fields that are recorded are sealed, whether they are all fields or not. -/
theorem analyze_of_records {fields : List RecordedField} {fault : Option Fault}
    (hnew : d.id = anonymous ∨ r.find? d.id = none) (h : Records d r fields fault) :
    analyze d r = (Registry.totalWidth 0 (fields.map (opened d r).fieldWidth?)).map fun width =>
      (r.insert ⟨d.id, d.span, fields, true, width⟩, verdict d fields fault) := by
  have hopen := openRecord_opened hnew
  have hself : (pending d r fields).find? d.id = some ⟨d.id, d.span, fields, false, none⟩ :=
    r.find?_insert_self ⟨d.id, d.span, fields, false, none⟩
  have hwidths : fields.map (pending d r fields).fieldWidth? =
      fields.map (opened d r).fieldWidth? :=
    List.map_congr_left fun f _ => fieldWidth?_pending f
  simp only [analyze, hopen, h.recordFields, Registry.sealRecord, hself, hwidths]
  cases Registry.totalWidth 0 (fields.map (opened d r).fieldWidth?) with
  | error e => rfl
  | ok width =>
    have hinsert : (pending d r fields).insert ⟨d.id, d.span, fields, true, width⟩ =
        r.insert ⟨d.id, d.span, fields, true, width⟩ := r.insert_insert rfl
    simp only [hinsert, Except.map]
    cases fault <;> rfl

/-- A refused directive has a name that is taken, or a field that is refused. -/
theorem analyze_eq_refused {fault : Fault} (h : analyze d r = .ok (s, .error fault)) :
    (d.id ≠ anonymous ∧ ∃ e, r.find? d.id = some e ∧
      fault = .registry (.duplicateRecord d.id d.span e.span)) ∨
    (d.id = anonymous ∨ r.find? d.id = none) ∧ ∃ fields, Records d r fields (some fault) := by
  by_cases hnew : d.id = anonymous ∨ r.find? d.id = none
  · obtain ⟨fields, fault', hrecords⟩ := exists_records d r
    rw [analyze_of_records hnew hrecords] at h
    cases htotal : Registry.totalWidth 0 (fields.map (opened d r).fieldWidth?) with
    | error e => simp [htotal, Except.map] at h
    | ok width =>
      cases fault' with
      | none => simp [htotal, Except.map, verdict] at h
      | some fault' =>
        simp only [htotal, Except.map, verdict, Except.ok.injEq, Prod.mk.injEq,
          Except.error.injEq] at h
        exact Or.inr ⟨hnew, fields, h.2 ▸ hrecords⟩
  · rw [not_or] at hnew
    obtain ⟨e, he⟩ := Option.ne_none_iff_exists'.mp hnew.2
    rw [analyze_of_taken hnew.1 he] at h
    simp only [Except.ok.injEq, Prod.mk.injEq, Except.error.injEq] at h
    exact Or.inl ⟨hnew.1, e, he, h.2.symm⟩

end WireRecords
