import WireRecords.Proofs.Compilation

/-!
# Registries that codecs can rely on

Procedures are run against the registry at the end of a run, while widths were computed when records
were sealed. `Sound` says what still holds at the end: names in a record differ, widths refer to
integers before them, and a known width is the one that the nested records still have. A run keeps it
when its fields nest only what `FieldSyntax.Nests` allows.
-/
namespace WireRecords

/-- What a field contains as a whole, boxed or not. -/
def FieldType.target? : FieldType → Option String
  | .nested path | .boxed (.nested path) => some path
  | _ => none

/-- The types that are transferred in one piece, where `allowed` are the names that may occur. -/
inductive FieldType.Plain (allowed : String → Prop) : FieldType → Prop
  | scalar (s : Scalar) : Plain allowed (.scalar s)
  | bytes (length : Nat) : Plain allowed (.bytes length)
  | nested {path : String} (h : allowed path) : Plain allowed (.nested path)
  | boxed {path : String} (h : allowed path) : Plain allowed (.boxed (.nested path))

theorem FieldType.Plain.isStored {allowed : String → Prop} {type : FieldType}
    (h : type.Plain allowed) : type.isStored = true := by
  cases h <;> rfl

theorem FieldType.Plain.ne_slice {allowed : String → Prop} {type : FieldType}
    (h : type.Plain allowed) (element : FieldType) : type ≠ .slice element := by
  cases h <;> simp

theorem FieldType.Plain.mono {allowed allowed' : String → Prop} {type : FieldType}
    (ha : ∀ path, allowed path → allowed' path) (h : type.Plain allowed) : type.Plain allowed' := by
  cases h with
  | scalar s => exact .scalar s
  | bytes length => exact .bytes length
  | nested h => exact .nested (ha _ h)
  | boxed h => exact .boxed (ha _ h)

theorem FieldType.Plain.of_target? {allowed : String → Prop} {type : FieldType} {path : String}
    (h : type.Plain allowed) (htarget : type.target? = some path) : allowed path := by
  cases h with
  | scalar s => simp [target?] at htarget
  | bytes length => simp [target?] at htarget
  | nested ha => exact Option.some.inj htarget ▸ ha
  | boxed ha => exact Option.some.inj htarget ▸ ha

/-- How a field behind the fields `before` is transferred: in one piece, or with a length that is
fixed or computed from integers among them. -/
inductive FieldMeta.Determined (before : List RecordedField) (info : FieldMeta) : FieldType → Prop
  | plain {type : FieldType} (plain : type.Plain fun _ => True) : Determined before info type
  | constant {value : String} {length : Nat} (width : info.width = some (.literal length)) :
      Determined before info (.constant value)
  | byteRun {w : Width} (width : info.width = some w)
      (refs : Analysis.RefersTo (before.map (·.decl)) w) : Determined before info .byteRun
  | slice {element : FieldType} {w : Width} (width : info.width = some w)
      (plain : element.Plain fun _ => True) (refs : Analysis.RefersTo (before.map (·.decl)) w) :
      Determined before info (.slice element)

/-- A record whose names differ and whose lengths are determined by the fields before. -/
structure RecordEntry.Determined (e : RecordEntry) : Prop where
  nodup : (e.fields.map (·.decl.id)).Nodup
  field : ∀ {before f after}, e.fields = before ++ f :: after →
    f.info.Determined before f.decl.type

namespace Registry

/-- All that reading and writing rely on, apart from widths that are known beforehand. -/
def Determined (r : Registry) : Prop := ∀ ⦃id e⦄, r.find? id = some e → e.Determined

/-- The encoded width of a type that is transferred in one piece. -/
def plainWidth? (r : Registry) : FieldType → Option Nat
  | .boxed type => r.elementWidth? type
  | type => r.elementWidth? type

/-- A field behind the fields `before`, as its codec relies on it. -/
inductive SoundField (allowed : String → Prop) (r : Registry) (before : List RecordedField)
    (info : FieldMeta) : FieldType → Prop
  | plain {type : FieldType} (plain : type.Plain allowed)
      (known : ∀ n, info.kind = .literal → info.width.bind Width.fold = some n →
        r.plainWidth? type = some n) : SoundField allowed r before info type
  | constant {value : String} {length : Nat} (width : info.width = some (.literal length)) :
      SoundField allowed r before info (.constant value)
  | byteRun {w : Width} (width : info.width = some w) (kind : info.kind = .dynamic)
      (refs : Analysis.RefersTo (before.map (·.decl)) w) :
      SoundField allowed r before info .byteRun
  | slice {element : FieldType} {w : Width} (width : info.width = some w)
      (plain : element.Plain allowed) (refs : Analysis.RefersTo (before.map (·.decl)) w) :
      SoundField allowed r before info (.slice element)

/-- A record whose codec can rely on the registry `r`. -/
structure SoundRecord (allowed : String → Prop) (r : Registry) (e : RecordEntry) : Prop where
  nodup : (e.fields.map (·.decl.id)).Nodup
  field : ∀ {before f after}, e.fields = before ++ f :: after →
    SoundField allowed r before f.info f.decl.type
  width : ∀ {w}, e.width = some w →
    ∃ ns : List Nat, e.fields.map r.fieldWidth? = ns.map some ∧ w = ns.sum

def Sound (allowed : String → Prop) (r : Registry) : Prop :=
  ∀ ⦃id e⦄, r.find? id = some e → SoundRecord allowed r e

theorem SoundRecord.determined {allowed : String → Prop} {r : Registry} {e : RecordEntry}
    (h : SoundRecord allowed r e) : e.Determined := by
  refine ⟨h.nodup, fun {before f after} hs => ?_⟩
  have hf := h.field hs
  generalize f.decl.type = type at hf
  cases hf with
  | plain hp known => exact .plain (hp.mono fun _ _ => trivial)
  | constant width => exact .constant width
  | byteRun width kind refs => exact .byteRun width refs
  | slice width hp refs => exact .slice width (hp.mono fun _ _ => trivial) refs

theorem Sound.determined {allowed : String → Prop} {r : Registry} (h : Sound allowed r) :
    r.Determined :=
  fun _ _ hf => (h hf).determined

/-- Every record with a name whose width is known in `r` has that width in `r'` too. -/
def Keeps (r r' : Registry) : Prop :=
  ∀ ⦃path n⦄, path ≠ anonymous → r.width? path = some n → r'.width? path = some n

section Extension

variable {allowed : String → Prop} {r r' : Registry}
  (hallowed : ∀ p, allowed p → p ≠ anonymous) (hkeep : Keeps r r')

include hallowed hkeep

theorem elementWidth?_of_keeps {type : FieldType} {n : Nat} (hp : type.Plain allowed)
    (h : r.elementWidth? type = some n) : r'.elementWidth? type = some n := by
  cases hp with
  | scalar s => exact h
  | bytes length => exact h
  | nested ha => exact hkeep (hallowed _ ha) h
  | boxed ha => exact h

theorem plainWidth?_of_keeps {type : FieldType} {n : Nat} (hp : type.Plain allowed)
    (h : r.plainWidth? type = some n) : r'.plainWidth? type = some n := by
  cases hp with
  | scalar s => exact h
  | bytes length => exact h
  | nested ha => exact hkeep (hallowed _ ha) h
  | boxed ha => exact hkeep (hallowed _ ha) h

theorem SoundField.of_keeps {before : List RecordedField} {info : FieldMeta} {type : FieldType}
    (h : SoundField allowed r before info type) : SoundField allowed r' before info type := by
  cases h with
  | plain hp known =>
    exact .plain hp fun n hk hw => plainWidth?_of_keeps hallowed hkeep hp (known n hk hw)
  | constant width => exact .constant width
  | byteRun width kind refs => exact .byteRun width kind refs
  | slice width hp refs => exact .slice width hp refs

theorem fieldWidth?_of_keeps {before : List RecordedField} {f : RecordedField} {n : Nat}
    (hf : SoundField allowed r before f.info f.decl.type) (h : r.fieldWidth? f = some n) :
    r'.fieldWidth? f = some n := by
  obtain ⟨⟨span, id, type⟩, ⟨width, endian, kind⟩⟩ := f
  cases kind with
  | dynamic => simp [fieldWidth?] at h
  | unresolved => simp [fieldWidth?] at h
  | literal =>
    cases width with
    | none => simp [fieldWidth?] at h
    | some w =>
      -- Only a slice looks at another record, the one its elements are made of.
      cases hf with
      | slice hwidth hp refs =>
        rename_i element w'
        cases hw : w.fold with
        | none => simp [fieldWidth?, hw] at h
        | some count =>
          simp only [fieldWidth?, hw, Option.bind_eq_some_iff] at h ⊢
          obtain ⟨k, hk, hmul⟩ := h
          exact ⟨k, elementWidth?_of_keeps hallowed hkeep hp hk, hmul⟩
      | plain hp known => cases hp <;> simpa [fieldWidth?] using h
      | constant hwidth => simpa [fieldWidth?] using h
      | byteRun hwidth kind refs => simpa [fieldWidth?] using h

theorem fieldWidths_of_keeps {e : RecordEntry} {ns : List Nat}
    (hfield : ∀ {before f after}, e.fields = before ++ f :: after →
      SoundField allowed r before f.info f.decl.type)
    (hns : e.fields.map r.fieldWidth? = ns.map some) :
    e.fields.map r'.fieldWidth? = ns.map some := by
  rw [← hns]
  apply List.map_congr_left
  intro f hf
  obtain ⟨before, after, hsplit⟩ := List.append_of_mem hf
  have hknown : r.fieldWidth? f ∈ ns.map some := by
    rw [← hns]
    exact List.mem_map_of_mem hf
  obtain ⟨n, _, hn⟩ := List.mem_map.mp hknown
  rw [← hn]
  exact fieldWidth?_of_keeps hallowed hkeep (hfield hsplit) hn.symm

theorem SoundRecord.of_keeps {e : RecordEntry} (h : SoundRecord allowed r e) :
    SoundRecord allowed r' e := by
  refine ⟨h.nodup, fun hs => (h.field hs).of_keeps hallowed hkeep, fun hw => ?_⟩
  obtain ⟨ns, hns, rfl⟩ := h.width hw
  exact ⟨ns, fieldWidths_of_keeps hallowed hkeep h.field hns, rfl⟩

end Extension

end Registry

/-- What a field may contain: as a whole, a named record of the run, declared before the field's own
where the directive also gives a width, or without a width a type from elsewhere; as an element,
either of the two. -/
def FieldSyntax.Nests (external all before : List String) (f : FieldSyntax) : Prop :=
  (∀ p ∈ f.type.bind TypeExpr.whole?,
    (p ∈ all ∧ p ≠ anonymous ∧ (f.width.isSome → p ∈ before)) ∨ p ∈ external ∧ f.width = none) ∧
  ∀ p ∈ f.type.bind TypeExpr.element?, (p ∈ all ∧ p ≠ anonymous) ∨ p ∈ external

instance (external all before : List String) (f : FieldSyntax) :
    Decidable (f.Nests external all before) :=
  inferInstanceAs (Decidable (_ ∧ _))

/-- The fields of directives that follow records named `before` nest what they may. -/
def NestsFrom (external all : List String) : List String → List Directive → Prop
  | _, [] => True
  | before, d :: ds =>
    (∀ f ∈ d.fields, f.Nests external all before) ∧ NestsFrom external all (d.id :: before) ds

instance NestsFrom.decidable (external all : List String) :
    (before : List String) → (ds : List Directive) → Decidable (NestsFrom external all before ds)
  | _, [] => inferInstanceAs (Decidable True)
  | before, d :: ds =>
    have := NestsFrom.decidable external all (d.id :: before) ds
    inferInstanceAs (Decidable (_ ∧ NestsFrom external all (d.id :: before) ds))

/-- Every nested type of a run is one of its named records or a type in `external` without a width,
and a nested field with a width names a record declared earlier. -/
structure SelfContained (external : List String) (ds : List Directive) : Prop where
  nests : NestsFrom external (ds.map (·.id)) [] ds

instance (external : List String) (ds : List Directive) : Decidable (SelfContained external ds) :=
  decidable_of_iff (NestsFrom external (ds.map (·.id)) [] ds) ⟨.mk, (·.nests)⟩

/-- The names that can be nested in a run. -/
def Allowed (external all : List String) (path : String) : Prop :=
  path ≠ anonymous ∧ (path ∈ all ∨ path ∈ external)

namespace Analysis
open Registry

/-- The names of resolved fields differ from each other and from those before. -/
theorem Resolves.nodup {d : Directive} {r : Registry} {before added : List RecordedField}
    {fs : List FieldSyntax} (h : Resolves d r before fs added)
    (hn : (before.map (·.decl.id)).Nodup) : ((before ++ added).map (·.decl.id)).Nodup := by
  induction h with
  | nil => simpa using hn
  | @cons before added f fs res resolved fresh rest ih =>
    have hstep : ((before ++ [recorded f res]).map (·.decl.id)).Nodup := by
      rw [List.map_append, List.nodup_append]
      refine ⟨hn, List.nodup_singleton _, ?_⟩
      intro id hid id' hid'
      obtain ⟨g, hg, rfl⟩ := List.mem_map.mp hid
      simp only [List.map_cons, List.map_nil, List.mem_singleton] at hid'
      rw [hid']
      exact fresh g hg
    simpa using ih hstep

/-- Each recorded field was resolved against the fields before it. -/
theorem Resolves.split {d : Directive} {r : Registry} {before added : List RecordedField}
    {fs : List FieldSyntax} (h : Resolves d r before fs added) {pre post : List RecordedField}
    {g : RecordedField} (hs : added = pre ++ g :: post) :
    ∃ f ∈ fs, ∃ res, g = recorded f res ∧
      Context.resolve ⟨d, (before ++ pre).map (·.decl), r⟩ f = .ok res := by
  induction h generalizing pre with
  | nil => simp at hs
  | @cons before added f fs res resolved fresh rest ih =>
    cases pre with
    | nil =>
      simp only [List.nil_append, List.cons.injEq] at hs
      exact ⟨f, by simp, res, hs.1.symm, by simpa using resolved⟩
    | cons g' pre =>
      simp only [List.cons_append, List.cons.injEq] at hs
      obtain ⟨f', hf', res', hg, hr⟩ := ih hs.2
      refine ⟨f', by simp [hf'], res', hg, ?_⟩
      simpa [hs.1] using hr

/-- A resolved field can be relied on in the registry it was resolved against. -/
theorem Resolution.sound {external all seen : List String} {d : Directive} {r : Registry}
    {before : List RecordedField} {f : FieldSyntax} {res : Resolved}
    (hexternal : anonymous ∉ external) (hseen : ∀ id ∈ seen, r.contains id = true)
    (hf : f.Nests external all seen)
    (h : Resolution ⟨d, before.map (·.decl), r⟩ f res) :
    SoundField (Allowed external all) r before ⟨res.width, f.endian, res.kind⟩ res.type := by
  have hwhole : ∀ {path type}, WholeOf f path type →
      type.Plain (Allowed external all) ∧ r.plainWidth? type = r.width? path ∧
        (f.width.isSome → r.contains path = true) := by
    intro path type hw
    have hcases := hf.1 path hw.whole?
    have hallowed : Allowed external all path := by
      rcases hcases with ⟨hmem, hne, _⟩ | ⟨hmem, _⟩
      · exact ⟨hne, Or.inl hmem⟩
      · exact ⟨fun ha => hexternal (ha ▸ hmem), Or.inr hmem⟩
    refine ⟨?_, ?_, ?_⟩
    · cases hw with
      | nested _ => exact .nested hallowed
      | boxed _ => exact .boxed hallowed
    · cases hw <;> rfl
    · intro hsome
      rcases hcases with ⟨_, _, hbefore⟩ | ⟨_, hnone⟩
      · exact hseen path (hbefore hsome)
      · simp [hnone] at hsome
  have helement : ∀ {element}, ElementOf f element → element.Plain (Allowed external all) := by
    intro element he
    cases he with
    | scalar _ => exact .scalar _
    | bytes length => exact .bytes length
    | nested hpath =>
      rcases hf.2 _ hpath with ⟨hmem, hne⟩ | hmem
      · exact .nested ⟨hne, Or.inl hmem⟩
      · exact .nested ⟨fun ha => hexternal (ha ▸ hmem), Or.inr hmem⟩
  cases h with
  | scalar s =>
    refine .plain (.scalar s) fun n _ hn => ?_
    simpa [Resolved.literal, plainWidth?, elementWidth?, Width.fold] using hn
  | bytes length =>
    refine .plain (.bytes length) fun n _ hn => ?_
    simpa [Resolved.literal, plainWidth?, elementWidth?, Width.fold] using hn
  | constant value length => exact .constant rfl
  | byteRun _ refs => exact .byteRun rfl rfl refs
  | fixedSlice he count => exact .slice rfl (helement he) (by simp [RefersTo, Width.refs])
  | slice he _ refs => exact .slice rfl (helement he) refs
  | selfDelimited hw => exact .plain (hwhole hw).1 (by simp)
  | fixed hw known =>
    obtain ⟨hplain, hwidth, hcontains⟩ := hwhole hw
    refine .plain hplain fun n _ hn => ?_
    rcases known with hk | ⟨hnot, hsome⟩
    · rw [Resolved.literal, hwidth]
      exact hk.trans (by simpa [Resolved.literal, Width.fold] using hn)
    · simp [hcontains hsome] at hnot

end Analysis

/-- Records that a run has declared stay declared. -/
theorem contains_of_analyze {d : Directive} {r r' : Registry} {decl : RecordDecl}
    (h : analyze d r = .ok (r', .ok decl)) (id : String) :
    r'.contains id = (id == d.id || r.contains id) := by
  obtain ⟨_, fields, width, _, _, rfl, _⟩ := analyze_eq_ok h
  exact Registry.contains_insert _ _ _

theorem Analyses.contains_of_mem {r r' : Registry} {ds : List Directive} {decls : List RecordDecl}
    (h : Analyses r ds decls r') {id : String}
    (hid : id ∈ decls.map (·.id) ∨ r.contains id = true) : r'.contains id = true := by
  induction h with
  | nil => simpa using hid
  | cons head _ ih =>
    apply ih
    rw [contains_of_analyze head]
    obtain ⟨_, _, _, _, _, _, rfl⟩ := analyze_eq_ok head
    rcases hid with hid | hid
    · rcases List.mem_cons.mp hid with rfl | hid
      · exact Or.inr (by simp)
      · exact Or.inl hid
    · exact Or.inr (by simp [hid])

theorem contains_seen {d : Directive} {r r' : Registry} {decl : RecordDecl} {seen : List String}
    (h : analyze d r = .ok (r', .ok decl)) (hseen : ∀ id ∈ seen, r.contains id = true) :
    ∀ id ∈ d.id :: seen, r'.contains id = true := by
  intro id hid
  rw [contains_of_analyze h]
  rcases List.mem_cons.mp hid with rfl | hid
  · simp
  · simp [hseen id hid]

open Registry Analysis in
/-- An accepted directive that nests what it may leaves a sound registry. -/
theorem sound_of_analyze {external all seen : List String} {d : Directive} {r r' : Registry}
    {decl : RecordDecl} (hexternal : anonymous ∉ external)
    (hseen : ∀ id ∈ seen, r.contains id = true)
    (hd : ∀ f ∈ d.fields, f.Nests external all seen) (hr : Sound (Allowed external all) r)
    (h : analyze d r = .ok (r', .ok decl)) : Sound (Allowed external all) r' := by
  obtain ⟨hnew, fields, width, hfields, htotal, rfl, _⟩ := analyze_eq_ok h
  have hallowed : ∀ p, Allowed external all p → p ≠ anonymous := fun _ hp => hp.1
  have hkeep : Keeps r (r.insert ⟨d.id, d.span, fields, true, width⟩) := by
    intro path n hp hw
    rw [width?_insert, if_neg]
    · exact hw
    · rintro rfl
      rcases hnew with ha | hf
      · exact hp ha
      · simp [width?, hf] at hw
  have hopened : Keeps (opened d r) (r.insert ⟨d.id, d.span, fields, true, width⟩) := by
    intro path n _ hw
    rw [opened, width?_insert] at hw
    split at hw
    · simp at hw
    · rwa [width?_insert, if_neg ‹_›]
  have hseen' : ∀ id ∈ seen, (opened d r).contains id = true := by
    intro id hid
    simp [opened, contains_insert, hseen id hid]
  have hsound : ∀ {before f after}, fields = before ++ f :: after →
      SoundField (Allowed external all) (opened d r) before f.info f.decl.type := by
    intro before f after hs
    obtain ⟨g, hg, res, rfl, hres⟩ := hfields.split hs
    exact (Context.resolve_eq_ok hres).sound hexternal hseen' (hd g hg)
  intro id e he
  rw [find?_insert] at he
  split at he
  · obtain rfl := Option.some.inj he
    refine ⟨by simpa using hfields.nodup, fun hs => (hsound hs).of_keeps hallowed hopened, ?_⟩
    rintro w rfl
    obtain ⟨ns, hns, rfl⟩ := totalWidth_eq_some htotal
    exact ⟨ns, fieldWidths_of_keeps hallowed hopened hsound hns, by simp⟩
  · exact (hr he).of_keeps hallowed hkeep

/-- The end of a run is sound, and its records are there. -/
theorem Analyses.sound {external all seen : List String} {r r' : Registry} {ds : List Directive}
    {decls : List RecordDecl} (hexternal : anonymous ∉ external) (h : Analyses r ds decls r')
    (hseen : ∀ id ∈ seen, r.contains id = true) (hd : NestsFrom external all seen ds)
    (hr : Registry.Sound (Allowed external all) r) :
    Registry.Sound (Allowed external all) r' ∧
      ∀ id, id ∈ ds.map (·.id) ∨ r.contains id = true → r'.contains id = true := by
  induction h generalizing seen with
  | nil => exact ⟨hr, by simp⟩
  | @cons r next last d ds decl decls head tail ih =>
    have hnext := contains_of_analyze head
    obtain ⟨hsound, hcontains⟩ :=
      ih (contains_seen head hseen) hd.2 (sound_of_analyze hexternal hseen hd.1 hr head)
    refine ⟨hsound, fun id hid => hcontains id ?_⟩
    rw [hnext]
    rcases hid with hid | hid
    · rcases List.mem_cons.mp hid with rfl | hid
      · simp
      · exact Or.inl hid
    · simp [hid]

/-- What the codecs rely on holds at the end of every accepted self-contained run. -/
theorem compile_sound {external : List String} {config : Config} {units : List CompilationUnit}
    {p : Progress} (hexternal : anonymous ∉ external) (h : compile config units = .ok p)
    (hs : SelfContained external (declared config units)) :
    p.compilation.registry.Sound (Allowed external ((declared config units).map (·.id))) ∧
      ∀ id ∈ (declared config units).map (·.id), p.compilation.registry.contains id = true := by
  have hempty : Registry.Sound (Allowed external ((declared config units).map (·.id))) {} :=
    fun _ _ he => by simp [Registry.find?] at he
  obtain ⟨hsound, hcontains⟩ := (compile_analyses h).sound hexternal (by simp) hs.nests hempty
  exact ⟨hsound, fun id hid => hcontains id (Or.inl hid)⟩

end WireRecords
