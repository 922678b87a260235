import WireRecords.Proofs.Admission

/-!
# Directives keep to their own record

Analysing a directive writes field after field into the registry and may stop at any of them.
`stage` is the registry when analysis comes to a field. It differs from the registry before in the
entry of the directive only, which holds the fields so far; sealing it is all that follows.
-/
namespace WireRecords

namespace Analysis

variable {d : Directive} {r : Registry} {before added fields : List RecordedField}
  {fs : List FieldSyntax} {f : FieldSyntax} {k : Nat} {fault : Fault}

/-- What is recorded of the first `k` fields, and the fault of one of them. -/
def stage (d : Directive) (r : Registry) (k : Nat) : Registry × Option Fault :=
  recordFields d [] (opened d r) (d.fields.take k)

/-- The fields before number `k` are recorded, and the field with this number is not. -/
structure StopsAt (d : Directive) (r : Registry) (k : Nat) (fault : Fault) : Prop where
  before : (stage d r k).2 = none
  here : (stage d r (k + 1)).2 = some fault

/-- Fields as the resolver has made them of the first fields of `d`, each with the registry of its
own stage and behind the fields before it. -/
def ResolvedFields (d : Directive) (r : Registry) (fields : List RecordedField) : Prop :=
  ∀ i f, i < fields.length → d.fields[i]? = some f →
    ∃ res, Context.resolve ⟨d, (fields.take i).map (·.decl), (stage d r i).1⟩ f = .ok res ∧
      fields[i]? = some (recorded f res)

/-- The resolver does not accept `f` behind `fields`, or one of them has its name already. -/
inductive Rejected (d : Directive) (r : Registry) (fields : List RecordedField) (f : FieldSyntax) :
    Fault → Prop
  | unresolved {fault : FieldFault} (failed : Context.resolve
      ⟨d, fields.map (·.decl), (stage d r fields.length).1⟩ f = .error fault) :
      Rejected d r fields f (.field f fault)
  | duplicate {res : Resolved} {g : RecordedField} (resolved : Context.resolve
      ⟨d, fields.map (·.decl), (stage d r fields.length).1⟩ f = .ok res)
      (first : fields.find? (·.decl.id == f.id) = some g) :
      Rejected d r fields f (.registry (.duplicateField d.id f.id f.span g.decl.span))

/-! ### Stages -/

theorem Resolves.length_eq (h : Resolves d r before fs added) : added.length = fs.length := by
  induction h with
  | nil => rfl
  | cons _ _ _ ih => simp [ih]

theorem Resolves.take (h : Resolves d r before fs added) (i : Nat) :
    Resolves d r before (fs.take i) (added.take i) := by
  induction h generalizing i with
  | nil =>
    rw [List.take_nil, List.take_nil]
    exact .nil
  | cons resolved fresh _ ih =>
    cases i with
    | zero => exact .nil
    | succ i => exact .cons resolved fresh (ih i)

/-- Every field is resolved behind those before it. -/
theorem Resolves.getElem? (h : Resolves d r before fs added) {i : Nat} (hf : fs[i]? = some f) :
    ∃ res, Context.resolve ⟨d, (before ++ added.take i).map (·.decl), r⟩ f = .ok res ∧
      added[i]? = some (recorded f res) := by
  induction h generalizing i with
  | nil => simp at hf
  | @cons before added g fs res resolved fresh _ ih =>
    cases i with
    | zero =>
      obtain rfl : g = f := by simpa using hf
      exact ⟨res, by simpa using resolved, by simp⟩
    | succ i =>
      obtain ⟨res', hres', hadded⟩ := ih (by simpa using hf)
      exact ⟨res', by simpa using hres', by simpa using hadded⟩

theorem stage_of_resolves (h : Resolves d (opened d r) [] (d.fields.take k) fields) :
    stage d r k = (pending d r fields, none) := by
  have hall := recordFields_append h []
  simp only [List.append_nil, List.nil_append] at hall
  exact hall

/-- A stage without a fault has resolved its fields. -/
theorem resolves_of_stage (h : (stage d r k).2 = none) :
    ∃ fields, Resolves d (opened d r) [] (d.fields.take k) fields := by
  obtain hall | ⟨earlier, f, later, added, fault, hsplit, hadded, hrefused⟩ :=
    resolves_or_refused d (opened d r) [] (d.fields.take k)
  · exact hall
  · have hstage : stage d r k = (pending d r added, some fault) := by
      unfold stage
      rw [hsplit]
      exact (recordFields_append hadded (f :: later)).trans (recordFields_refused hrefused later)
    rw [hstage] at h
    cases h

/-- What the first stages show of fields that are resolved. -/
theorem Resolves.resolvedFields (h : Resolves d (opened d r) [] (d.fields.take k) fields) :
    ResolvedFields d r fields := by
  intro i f hi hf
  rw [h.length_eq] at hi
  have hik : i < k := lt_of_lt_of_le hi (List.length_take_le _ _)
  have hstage : stage d r i = (pending d r (fields.take i), none) := by
    refine stage_of_resolves ?_
    have htake := h.take i
    rwa [List.take_take, Nat.min_eq_left hik.le] at htake
  obtain ⟨res, hres, hfield⟩ := h.getElem? (i := i) (by rwa [List.getElem?_take_of_lt hik])
  refine ⟨res, ?_, hfield⟩
  rw [hstage, resolve_pending]
  simpa using hres

theorem stage_succ (h : Resolves d (opened d r) [] (d.fields.take k) fields)
    (hf : d.fields[k]? = some f) :
    stage d r (k + 1) = recordFields d (fields.map (·.decl)) (pending d r fields) [f] := by
  unfold stage
  rw [List.take_add_one, hf, Option.toList_some]
  exact recordFields_append h [f]

/-- A single field is recorded or refused. -/
theorem refused_of_recordFields
    (h : (recordFields d (before.map (·.decl)) (pending d r before) [f]).2 = some fault) :
    Refused d (opened d r) before f fault := by
  obtain ⟨added, hadded⟩ | ⟨earlier, g, later, added, fault', hsplit, hadded, hrefused⟩ :=
    resolves_or_refused d (opened d r) before [f]
  · have hnone : recordFields d (before.map (·.decl)) (pending d r before) [f] =
        (pending d r (before ++ added), none) := recordFields_append hadded []
    rw [hnone] at h
    cases h
  · obtain ⟨rfl, hg⟩ | ⟨_, hg⟩ := List.singleton_eq_append_iff.mp hsplit
    · obtain ⟨rfl, rfl⟩ := List.cons.inj hg
      cases hadded with
      | nil =>
        rw [List.append_nil] at hrefused
        rw [recordFields_refused hrefused] at h
        exact Option.some.inj h ▸ hrefused
    · cases hg

/-- Where analysis stops, the fields before are resolved and the next one is refused. -/
theorem StopsAt.exists_refused (h : StopsAt d r k fault) :
    ∃ fields f later, d.fields = d.fields.take k ++ f :: later ∧ d.fields[k]? = some f ∧
      Resolves d (opened d r) [] (d.fields.take k) fields ∧
      Refused d (opened d r) fields f fault := by
  obtain ⟨fields, hfields⟩ := resolves_of_stage h.before
  have hlt : k < d.fields.length := by
    by_contra hle
    have hsame : stage d r (k + 1) = stage d r k := by
      unfold stage
      rw [List.take_of_length_le (by omega), List.take_of_length_le (by omega)]
    have hhere := h.here
    rw [hsame, h.before] at hhere
    cases hhere
  have hf : d.fields[k]? = some d.fields[k] := List.getElem?_eq_getElem hlt
  have hhere := h.here
  rw [stage_succ hfields hf] at hhere
  refine ⟨fields, d.fields[k], d.fields.drop (k + 1), ?_, hf, hfields,
    refused_of_recordFields hhere⟩
  rw [← List.drop_eq_getElem_cons hlt, List.take_append_drop]

/-- A refused field stops the analysis. -/
theorem Refused.stopsAt {earlier later : List FieldSyntax}
    (hsplit : d.fields = earlier ++ f :: later)
    (hearlier : Resolves d (opened d r) [] earlier fields)
    (hrefused : Refused d (opened d r) fields f fault) : StopsAt d r earlier.length fault := by
  have htake : d.fields.take earlier.length = earlier := by simp [hsplit]
  have hresolves : Resolves d (opened d r) [] (d.fields.take earlier.length) fields :=
    htake.symm ▸ hearlier
  refine ⟨by rw [stage_of_resolves hresolves], ?_⟩
  rw [stage_succ (f := f) hresolves (by simp [hsplit]), recordFields_refused hrefused]

theorem Refused.rejected (hfields : Resolves d (opened d r) [] (d.fields.take k) fields)
    (hlength : fields.length = k) (h : Refused d (opened d r) fields f fault) :
    Rejected d r fields f fault := by
  have hstage : (stage d r fields.length).1 = pending d r fields := by
    rw [hlength, stage_of_resolves hfields]
  cases h with
  | unresolved failed => exact .unresolved (by rw [hstage, resolve_pending, failed])
  | repeated resolved first => exact .duplicate (by rw [hstage, resolve_pending, resolved]) first

/-- Recording the fields of a directive has one result. -/
theorem Records.unique {fields' : List RecordedField} {stop stop' : Option Fault}
    (h : Records d r fields stop) (h' : Records d r fields' stop') :
    fields = fields' ∧ stop = stop' := by
  obtain ⟨hregistry, hstop⟩ := Prod.mk.inj (h.recordFields.symm.trans h'.recordFields)
  have hfind : (pending d r fields).find? d.id = (pending d r fields').find? d.id := by
    rw [hregistry]
  refine ⟨?_, hstop⟩
  simpa [pending, Registry.find?_insert] using hfind

end Analysis

open Analysis

variable {d : Directive} {r : Registry}

/-- What analysis comes to: the record is refused, or sealed with the fields that are resolved. -/
theorem analyze_outcome (hfits : d.Fits r) :
    (∃ e, r.openRecord d.id d.span = .error e ∧ analyze d r = .ok (r, .error (.registry e))) ∨
      ∃ fields fault width, r.openRecord d.id d.span = .ok (opened d r) ∧ Records d r fields fault ∧
        analyze d r =
          .ok (r.insert ⟨d.id, d.span, fields, true, width⟩, verdict d fields fault) := by
  cases hopen : r.openRecord d.id d.span with
  | error e => exact Or.inl ⟨e, rfl, by simp only [analyze, hopen]⟩
  | ok registry =>
    obtain ⟨rfl, hnew⟩ := Registry.openRecord_eq_ok hopen
    obtain ⟨fields, fault, hrecords⟩ := exists_records d r
    obtain ⟨width, h⟩ := hfits.analyze hnew hrecords
    exact Or.inr ⟨fields, fault, width, rfl, hrecords, h⟩

/-- Analysing a directive changes no record but its own. If its record cannot be opened nothing
changes at all. If a field is refused, by the resolver or because its name is taken, the record of
the directive is sealed with the fields before that one, each as it was resolved in its turn. There
are no other ways to fail. -/
theorem analysis_keeps_to_record (hfits : d.Fits r) :
    ∃ s outcome, analyze d r = .ok (s, outcome) ∧
      (∀ id, id ≠ d.id → s.find? id = r.find? id) ∧
      (∀ e, r.openRecord d.id d.span = .error e → s = r ∧ outcome = .error (.registry e)) ∧
      (∀ registry k fault, r.openRecord d.id d.span = .ok registry → StopsAt d r k fault →
        outcome = .error fault ∧
          ∃ e f, s.find? d.id = some e ∧ e.isSealed = true ∧ e.fields.length = k ∧
            ResolvedFields d r e.fields ∧ d.fields[k]? = some f ∧ Rejected d r e.fields f fault) ∧
      ∀ fault, outcome = .error fault →
        (∃ e, r.openRecord d.id d.span = .error e) ∨ ∃ k, StopsAt d r k fault := by
  obtain ⟨e, hopen, h⟩ | ⟨fields, fault, width, hopen, hrecords, h⟩ := analyze_outcome hfits
  · refine ⟨r, _, h, fun _ _ => rfl, fun e' he => ?_, fun registry k fault hok => ?_,
      fun _ _ => Or.inl ⟨e, hopen⟩⟩
    · obtain rfl := Except.error.inj (hopen.symm.trans he)
      exact ⟨rfl, rfl⟩
    · rw [hopen] at hok
      cases hok
  · refine ⟨_, _, h, fun id hne => ?_, fun e he => ?_, fun registry k stop _ hstop => ?_,
      fun stop hstop => ?_⟩
    · rw [Registry.find?_insert, if_neg hne]
    · rw [hopen] at he
      cases he
    · -- A directive stops at one field only, so its recorded fields are those before it.
      obtain ⟨resolved, f, later, hsplit, hf, hresolves, hrefused⟩ := hstop.exists_refused
      have hstops : Records d r resolved (some stop) := ⟨_, f, later, hsplit, hresolves, hrefused⟩
      obtain ⟨rfl, rfl⟩ := hrecords.unique hstops
      have hlength : fields.length = k := by
        have hlt := (List.getElem?_eq_some_iff.mp hf).1
        rw [hresolves.length_eq, List.length_take, Nat.min_eq_left hlt.le]
      exact ⟨rfl, _, f, r.find?_insert_self _, rfl, hlength, hresolves.resolvedFields, hf,
        hrefused.rejected hresolves hlength⟩
    · cases fault with
      | none => cases hstop
      | some fault =>
        obtain ⟨earlier, f, later, hsplit, hearlier, hrefused⟩ := hrecords
        obtain rfl := Except.error.inj hstop
        exact Or.inr ⟨_, hrefused.stopsAt hsplit hearlier⟩

/-- A registry with a record that has no fields. -/
def markers : Registry := ⟨[{ id := "Marker", span := default, isSealed := true, width := some 0 }]⟩

/-- The second field of the draft refers to the third, so analysis stops behind the first. -/
theorem draft_stops :
    ∃ d ∈ (Directive.parse 0 draft).toOption, ∃ t ∈ (analyze d markers).toOption,
      d.id = "Draft" ∧ (stage d markers 1).2 = none ∧ (stage d markers 2).2.isSome = true := by
  decide +kernel

theorem analysis_keeps_to_record_draft :
    ∃ (d : Directive) (r : Registry) (fault : Fault) (s : Registry) (e : RecordEntry),
      d.Fits r ∧ StopsAt d r 1 fault ∧ analyze d r = .ok (s, .error fault) ∧
        s.find? "Marker" = r.find? "Marker" ∧ r.contains "Marker" = true ∧
        s.find? "Draft" = some e ∧ e.isSealed = true ∧ e.fields.length = 1 := by
  obtain ⟨d, _, ⟨t, outcome⟩, ht, hid, hbefore, hhere⟩ := draft_stops
  have hfits : d.Fits markers := Directive.fits_of_analyze (ok_of_toOption ht)
  obtain ⟨fault, hfault⟩ := Option.isSome_iff_exists.mp hhere
  have hnew : markers.find? d.id = none := by rw [hid]; decide
  obtain ⟨s, outcome, h, hothers, _, hstops, _⟩ := analysis_keeps_to_record hfits
  obtain ⟨rfl, e, f, he, hsealed, hlength, _⟩ :=
    hstops _ 1 fault (openRecord_opened (Or.inr hnew)) ⟨hbefore, hfault⟩
  rw [hid] at he hothers
  exact ⟨d, markers, fault, s, e, hfits, ⟨hbefore, hfault⟩, h, hothers "Marker" (by decide),
    by decide, he, hsealed, hlength⟩

end WireRecords
