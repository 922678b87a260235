import WireRecords.Proofs.Analysis
import WireRecords.Session

/-!
# What lasts in a session

Whatever a session asks of a registry, it comes down to three steps: a record is opened, gets one more
field, or is sealed. `Step` says what each of them needs and does, so that every law of sessions is
shown for single steps first. Fields are only ever added, and only to records that are not sealed.
-/
namespace WireRecords

/-- What can have become of the entry of a record that has a name. -/
structure RecordEntry.Extends (e later : RecordEntry) : Prop where
  span : later.span = e.span
  fields : e.fields <+: later.fields
  complete : e.isSealed = true → later.isSealed = true ∧ later.fields = e.fields

theorem RecordEntry.Extends.refl (e : RecordEntry) : e.Extends e :=
  ⟨rfl, List.prefix_refl _, fun h => ⟨h, rfl⟩⟩

theorem RecordEntry.Extends.trans {a b c : RecordEntry} (h : a.Extends b) (g : b.Extends c) :
    a.Extends c := by
  refine ⟨g.span.trans h.span, h.fields.trans g.fields, fun ha => ?_⟩
  obtain ⟨hb, hfields⟩ := h.complete ha
  obtain ⟨hc, hfields'⟩ := g.complete hb
  exact ⟨hc, hfields'.trans hfields⟩

namespace Registry

/-! ### Steps -/

/-- A step on the record `id`. -/
inductive Step (id : String) (r : Registry) : Registry → Prop
  | opened {span : Span} (fresh : id = anonymous ∨ r.find? id = none) :
      Step id r (r.insert { id, span })
  | extended {e : RecordEntry} {f : RecordedField} (found : r.find? id = some e)
      (isOpen : e.isSealed = false) (fresh : ∀ g ∈ e.fields, g.decl.id ≠ f.decl.id) :
      Step id r (r.insert { e with fields := e.fields ++ [f] })
  | completed {e : RecordEntry} {width : Option Nat} (found : r.find? id = some e)
      (total : totalWidth 0 (e.fields.map r.fieldWidth?) = .ok width) :
      Step id r (r.insert { e with isSealed := true, width })

/-- Any number of steps on the record `id`. -/
abbrev Steps (id : String) : Registry → Registry → Prop := Relation.ReflTransGen (Step id)

theorem step_of_openRecord {r opened : Registry} {id : String} {span : Span}
    (h : r.openRecord id span = .ok opened) : Step id r opened := by
  obtain ⟨rfl, hfresh⟩ := openRecord_eq_ok h
  exact .opened hfresh

theorem step_of_put {r extended : Registry} {record : String} {field : FieldDecl} {info : FieldMeta}
    (h : r.put record field info = .ok extended) : Step record r extended := by
  obtain ⟨e, hfind, hfresh, rfl⟩ := put_eq_ok h
  have hopen : e.isSealed = false := by
    cases hs : e.isSealed with
    | false => rfl
    | true => simp [put, hfind, hs] at h
  exact .extended hfind hopen hfresh

theorem steps_of_sealRecord {r complete : Registry} {id : String} {decl : Option RecordDecl}
    (h : r.sealRecord id = .ok (complete, decl)) : Steps id r complete := by
  cases hfind : r.find? id with
  | none =>
    simp only [sealRecord, hfind, Except.ok.injEq, Prod.mk.injEq] at h
    rw [← h.1]
  | some e =>
    obtain ⟨width, htotal, rfl, _⟩ := sealRecord_eq_ok hfind h
    exact .single (.completed hfind htotal)

/-- Fields are recorded one after the other, as far as they are accepted. -/
theorem steps_recordFields (d : Directive) (resolved : List FieldDecl) (r : Registry)
    (fs : List FieldSyntax) : Steps d.id r (Analysis.recordFields d resolved r fs).1 := by
  induction fs generalizing resolved r with
  | nil => exact .refl
  | cons f fs ih =>
    simp only [Analysis.recordFields]
    split
    · exact .refl
    · rename_i res _
      cases hput : r.put d.id ⟨f.span, f.id, res.type⟩ ⟨res.width, f.endian, res.kind⟩ with
      | error e => exact .refl
      | ok extended => exact .head (step_of_put hput) (ih _ extended)

theorem steps_recording (r : Registry) (d : Directive) : Steps d.id r (r.recording d) := by
  unfold recording
  cases hopen : r.openRecord d.id d.span with
  | error e => exact .refl
  | ok opened => exact .head (step_of_openRecord hopen) (steps_recordFields d [] opened d.fields)

/-- An analysis that comes to an end has sealed the fields it recorded, or refused the record. -/
theorem steps_of_analyze {r registry : Registry} {d : Directive}
    {outcome : Except Analysis.Fault RecordDecl} (h : analyze d r = .ok (registry, outcome)) :
    Steps d.id r registry := by
  have hsteps := steps_recording r d
  unfold recording at hsteps
  unfold analyze at h
  cases hopen : r.openRecord d.id d.span with
  | error e =>
    simp only [hopen, Except.ok.injEq, Prod.mk.injEq] at h
    rw [← h.1]
  | ok opened =>
    simp only [hopen] at h hsteps
    cases hseal : (Analysis.recordFields d [] opened d.fields).1.sealRecord d.id with
    | error fault => simp [hseal] at h
    | ok result =>
      have hregistry : result.1 = registry := by
        rcases hfault : (Analysis.recordFields d [] opened d.fields).2 with _ | fault
        · rcases hdecl : result.2 with _ | decl <;> simp_all
        · simp_all
      exact hregistry ▸ hsteps.trans (steps_of_sealRecord hseal)

/-- Every call consists of steps on its record. -/
theorem steps_perform (r : Registry) (call : Call) : Steps call.record r (r.perform call).1 := by
  cases call with
  | openRecord id span =>
    simp only [perform, Call.record]
    split
    · exact .refl
    · rename_i hopen
      exact .single (step_of_openRecord hopen)
  | put record field info =>
    simp only [perform, Call.record]
    split
    · exact .refl
    · rename_i hput
      exact .single (step_of_put hput)
  | sealRecord record =>
    simp only [perform, Call.record]
    split
    · exact .refl
    · rename_i hseal
      exact steps_of_sealRecord hseal
  | analyze d =>
    simp only [perform, Call.record]
    split
    · exact steps_recording r d
    · rename_i hanalyze
      exact steps_of_analyze hanalyze
    · rename_i hanalyze
      exact steps_of_analyze hanalyze

/-- What every step keeps, a session keeps. -/
theorem after_induction {motive : Registry → Prop} {r : Registry} (hr : motive r)
    (hstep : ∀ {id r r'}, motive r → Step id r r' → motive r') (calls : List Call) :
    motive (r.after calls) := by
  have hsteps : ∀ {id r r'}, motive r → Steps id r r' → motive r' := by
    intro id r r' hr h
    induction h with
    | refl => exact hr
    | tail _ hlast hkept => exact hstep hkept hlast
  induction calls generalizing r with
  | nil => exact hr
  | cons call calls ih => exact ih (hsteps hr (steps_perform r call))

theorem after_append (r : Registry) (calls later : List Call) :
    r.after (calls ++ later) = (r.after calls).after later :=
  List.foldl_append

/-! ### Entries -/

section Step

variable {id name : String} {r r' : Registry} {e : RecordEntry}

/-- Other records are not touched. -/
theorem Step.find?_of_ne (h : Step id r r') (hne : name ≠ id) : r'.find? name = r.find? name := by
  cases h with
  | opened _ => rw [find?_insert, if_neg hne]
  | extended found _ _ => rw [find?_insert, if_neg (by rwa [id_of_find? found])]
  | completed found _ => rw [find?_insert, if_neg (by rwa [id_of_find? found])]

theorem Steps.find?_of_ne (h : Steps id r r') (hne : name ≠ id) : r'.find? name = r.find? name := by
  induction h with
  | refl => rfl
  | tail _ hlast ih => rw [hlast.find?_of_ne hne, ih]

/-- A record that has a name stays, and its entry is extended at most. -/
theorem Step.extends (h : Step id r r') (hname : name ≠ anonymous) (he : r.find? name = some e) :
    ∃ later, r'.find? name = some later ∧ e.Extends later := by
  by_cases hne : name = id
  · subst hne
    cases h with
    | opened fresh =>
      rcases fresh with ha | hnone
      · exact absurd ha hname
      · simp [hnone] at he
    | @extended e' f found isOpen fresh =>
      obtain rfl : e = e' := Option.some.inj (he.symm.trans found)
      refine ⟨{ e with fields := e.fields ++ [f] }, ?_, rfl, List.prefix_append _ _, fun hs => ?_⟩
      · rw [find?_insert, if_pos (id_of_find? found).symm]
      · simp [isOpen] at hs
    | @completed e' width found total =>
      obtain rfl : e = e' := Option.some.inj (he.symm.trans found)
      refine ⟨{ e with isSealed := true, width }, ?_, rfl, List.prefix_refl _, fun _ => ⟨rfl, rfl⟩⟩
      rw [find?_insert, if_pos (id_of_find? found).symm]
  · exact ⟨e, by rw [h.find?_of_ne hne, he], .refl e⟩

theorem after_extends (hname : name ≠ anonymous) (he : r.find? name = some e)
    (calls : List Call) : ∃ later, (r.after calls).find? name = some later ∧ e.Extends later := by
  refine after_induction (motive := fun r => ∃ later, r.find? name = some later ∧ e.Extends later)
    ⟨e, he, .refl e⟩ (fun hkept hstep => ?_) calls
  obtain ⟨mid, hmid, hextends⟩ := hkept
  obtain ⟨later, hlater, hextends'⟩ := hstep.extends hname hmid
  exact ⟨later, hlater, hextends.trans hextends'⟩

end Step

/-- Every record has one entry, and the names of its fields differ. -/
structure Tidy (r : Registry) : Prop where
  entries : (r.entries.map (·.id)).Nodup
  fields : ∀ ⦃id e⦄, r.find? id = some e → (e.fields.map (·.decl.id)).Nodup

theorem Tidy.insert {r : Registry} (hr : r.Tidy) {e : RecordEntry}
    (he : (e.fields.map (·.decl.id)).Nodup) : (r.insert e).Tidy := by
  constructor
  · simp only [Registry.insert, List.map_cons, List.nodup_cons, List.mem_map, List.mem_filter,
      bne_iff_ne]
    refine ⟨?_, hr.entries.sublist (List.filter_sublist.map _)⟩
    rintro ⟨e', ⟨_, hne⟩, heq⟩
    exact hne heq
  · intro id e' hfind
    rw [find?_insert] at hfind
    split at hfind
    · exact Option.some.inj hfind ▸ he
    · exact hr.fields hfind

theorem Step.tidy {id : String} {r r' : Registry} (hr : r.Tidy) (h : Step id r r') : r'.Tidy := by
  cases h with
  | opened _ => exact hr.insert List.nodup_nil
  | @extended e f found _ fresh =>
    refine hr.insert ?_
    rw [List.map_append, List.nodup_append]
    refine ⟨hr.fields found, List.nodup_singleton _, ?_⟩
    intro a ha b hb
    obtain ⟨g, hg, rfl⟩ := List.mem_map.mp ha
    obtain rfl : b = f.decl.id := by simpa using hb
    exact fresh g hg
  | completed found _ =>
    have hnodup := hr.fields found
    exact hr.insert hnodup

theorem tidy_after (calls : List Call) : (after {} calls).Tidy :=
  after_induction ⟨List.nodup_nil, fun _ _ hfind => by simp [find?] at hfind⟩
    (fun hr hstep => hstep.tidy hr) calls

/-- A field has metadata exactly if its record has it. -/
theorem get_eq_ok_iff (r : Registry) (record field : String) :
    (∃ info, r.get record field = .ok info) ↔
      ∃ shape, r.shape? record = some shape ∧ field ∈ shape.map (·.id) := by
  unfold get shape?
  cases r.find? record with
  | none => simp
  | some e =>
    cases hf : e.fields.find? (·.decl.id == field) with
    | none =>
      have hnone := List.find?_eq_none.mp hf
      simp only [Option.bind_some, hf, reduceCtorEq, exists_false, Option.map_some,
        Option.some.injEq, exists_eq_left', List.mem_map, false_iff]
      rintro ⟨_, ⟨g, hg, rfl⟩, heq⟩
      exact hnone g hg (by simpa using heq)
    | some g =>
      have hid : g.decl.id = field := by simpa using List.find?_some hf
      simp only [Option.bind_some, hf, Except.ok.injEq, exists_eq', Option.map_some,
        Option.some.injEq, exists_eq_left', List.mem_map, true_iff]
      exact ⟨g.decl, ⟨g, List.mem_of_find?_eq_some hf, rfl⟩, hid⟩

/-- What can be asked about the fields of a record depends on its fields alone. -/
theorem shape?_congr {r r' : Registry} {record : String} {e e' : RecordEntry}
    (he : r.find? record = some e) (he' : r'.find? record = some e') (h : e'.fields = e.fields) :
    r'.shape? record = r.shape? record ∧ ∀ field, r'.get record field = r.get record field := by
  simp only [shape?, get, he, he', h, Option.map_some, Option.bind_some, true_and, implies_true]

/-- An opening is refused if its record has a name that is taken. -/
theorem perform_openRecord_refused_iff (r : Registry) (id : String) (span : Span) :
    (∃ fault, (r.perform (.openRecord id span)).2 = .refused fault) ↔
      id ≠ anonymous ∧ r.contains id = true := by
  simp only [perform, openRecord, contains]
  by_cases ha : id = anonymous
  · simp [ha]
  · cases hfind : r.find? id with
    | none => simp [ha]
    | some e => simp [ha]

/-- A field is refused if its record is not there, or sealed, or has a field of that name. -/
theorem perform_put_refused_iff (r : Registry) (record : String) (field : FieldDecl)
    (info : FieldMeta) :
    (∃ fault, (r.perform (.put record field info)).2 = .refused fault) ↔
      ∀ e, r.find? record = some e → e.isSealed = true ∨ field.id ∈ e.fields.map (·.decl.id) := by
  simp only [perform, put]
  cases hfind : r.find? record with
  | none => simp
  | some e =>
    cases hs : e.isSealed with
    | true => simp [hs]
    | false =>
      cases hf : e.fields.find? (·.decl.id == field.id) with
      | none =>
        have hfresh : field.id ∉ e.fields.map (·.decl.id) := by
          rintro hmem
          obtain ⟨g, hg, heq⟩ := List.mem_map.mp hmem
          exact List.find?_eq_none.mp hf g hg (by simpa using heq)
        simpa [hs, hf] using hfresh
      | some g =>
        have hmem : field.id ∈ e.fields.map (·.decl.id) :=
          List.mem_map.mpr ⟨g, List.mem_of_find?_eq_some hf, by simpa using List.find?_some hf⟩
        simpa [hs, hf] using hmem

/-- The registries of sessions that start with an empty one. -/
def Reached (r : Registry) : Prop := ∃ calls, after {} calls = r

theorem Reached.tidy {r : Registry} (h : Reached r) : r.Tidy := by
  obtain ⟨calls, rfl⟩ := h
  exact tidy_after calls

/-- A directive without regard to where it stands. -/
def analysis (id : String) (fields : List FieldSyntax) : Call := .analyze ⟨default, id, fields⟩

/-- The directive `Pairs items[2, []Item]`. -/
def pairs : Call :=
  analysis "Pairs" [⟨default, "items", some (.literal 2), some (.slice (.named ["Item"])), .little⟩]

/-- The directive `Item x[1]`. -/
def item : Call := analysis "Item" [⟨default, "x", some (.literal 1), none, .little⟩]

end Registry

end WireRecords
