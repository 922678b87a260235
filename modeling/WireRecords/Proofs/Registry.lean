import Mathlib
import WireRecords.Registry

/-!
# What the operations of the registry do

Every operation that succeeds replaces one entry. Everything else about the registry is read off
`find?_insert`.
-/
namespace WireRecords.Registry

/-- An inserted entry is found under its name, and the others are found as before. -/
theorem find?_insert (r : Registry) (e : RecordEntry) (id : String) :
    (r.insert e).find? id = if id = e.id then some e else r.find? id := by
  simp only [find?, insert, List.find?_cons]
  by_cases h : id = e.id
  · simp [h]
  · have hne : (e.id == id) = false := by simpa using fun he => h he.symm
    rw [hne, if_neg h, List.find?_filter]
    change List.find? _ _ = _
    congr 1
    funext a
    by_cases ha : a.id = id
    · simp [ha, h]
    · simp [ha]

@[simp] theorem find?_insert_self (r : Registry) (e : RecordEntry) :
    (r.insert e).find? e.id = some e := by
  simp [find?_insert]

/-- Only the last of two entries of one record counts. -/
theorem insert_insert (r : Registry) {a b : RecordEntry} (h : a.id = b.id) :
    (r.insert a).insert b = r.insert b := by
  simp [insert, h, List.filter_filter]

theorem id_of_find? {r : Registry} {id : String} {e : RecordEntry} (h : r.find? id = some e) :
    e.id = id := by
  have := List.find?_some h
  simpa using this

theorem mem_entries_of_find? {r : Registry} {id : String} {e : RecordEntry}
    (h : r.find? id = some e) : e ∈ r.entries :=
  List.mem_of_find?_eq_some h

theorem contains_iff {r : Registry} {id : String} :
    r.contains id = true ↔ ∃ e, r.find? id = some e := by
  simp [contains, Option.isSome_iff_exists]

theorem openRecord_eq_ok {r opened : Registry} {id : String} {span : Span}
    (h : r.openRecord id span = .ok opened) :
    opened = r.insert { id, span } ∧ (id = anonymous ∨ r.find? id = none) := by
  unfold openRecord at h
  by_cases ha : id = anonymous
  · simp only [ha, if_true, Except.ok.injEq] at h
    exact ⟨by simp [ha, h], Or.inl ha⟩
  · rw [if_neg ha] at h
    cases hf : r.find? id with
    | some e => simp [hf] at h
    | none =>
      simp only [hf, Except.ok.injEq] at h
      exact ⟨h.symm, Or.inr rfl⟩

theorem put_eq_ok {r r' : Registry} {record : String} {field : FieldDecl} {info : FieldMeta}
    (h : r.put record field info = .ok r') :
    ∃ e, r.find? record = some e ∧ (∀ g ∈ e.fields, g.decl.id ≠ field.id) ∧
      r' = r.insert { e with fields := e.fields ++ [⟨field, info⟩] } := by
  unfold put at h
  cases hf : r.find? record with
  | none => simp [hf] at h
  | some e =>
    simp only [hf] at h
    split at h
    · simp at h
    · cases hd : e.fields.find? (·.decl.id == field.id) with
      | some previous => simp [hd] at h
      | none =>
        simp only [hd, Except.ok.injEq] at h
        refine ⟨e, rfl, ?_, h.symm⟩
        intro g hg
        have hn := List.find?_eq_none.mp hd g hg
        simpa using hn

theorem sealRecord_eq_ok {r r' : Registry} {id : String} {e : RecordEntry}
    {decl : Option RecordDecl} (hf : r.find? id = some e)
    (h : r.sealRecord id = .ok (r', decl)) :
    ∃ width, totalWidth 0 (e.fields.map r.fieldWidth?) = .ok width ∧
      r' = r.insert { e with isSealed := true, width } ∧
      decl = some ⟨e.span, id, e.fields.map (·.decl)⟩ := by
  simp only [sealRecord, hf] at h
  cases ht : totalWidth 0 (e.fields.map r.fieldWidth?) with
  | error fault => simp [ht] at h
  | ok width =>
    simp only [ht, Except.ok.injEq, Prod.mk.injEq] at h
    exact ⟨width, rfl, h.1.symm, h.2.symm⟩

/-- The width of a field depends on the widths of other records only. -/
theorem fieldWidth?_congr {r r' : Registry} (h : ∀ id, r'.width? id = r.width? id)
    (f : RecordedField) : r'.fieldWidth? f = r.fieldWidth? f := by
  have he : ∀ t, r'.elementWidth? t = r.elementWidth? t := by
    intro t
    cases t <;> simp [elementWidth?, h]
  simp only [fieldWidth?, he]

/-- A known total is the sum of widths that are all known. -/
theorem totalWidth_eq_some {total w : Nat} {widths : List (Option Nat)} :
    totalWidth total widths = .ok (some w) →
      ∃ ns : List Nat, widths = ns.map some ∧ w = total + ns.sum := by
  induction widths generalizing total with
  | nil =>
    intro h
    simp only [totalWidth, Except.ok.injEq, Option.some.injEq] at h
    exact ⟨[], rfl, by simp [h]⟩
  | cons a widths ih =>
    intro h
    cases a with
    | none => simp [totalWidth] at h
    | some n =>
      simp only [totalWidth, Operator.apply] at h
      split at h
      · rename_i total' ht
        split at ht
        · obtain ⟨ns, rfl, rfl⟩ := ih h
          simp only [Except.ok.injEq] at ht
          exact ⟨n :: ns, rfl, by simp [← ht, Nat.add_assoc]⟩
        · simp at ht
      · simp at h

end WireRecords.Registry
