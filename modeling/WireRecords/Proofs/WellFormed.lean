import WireRecords.Proofs.Codec.Value

/-!
# Accepted records are well formed

Which metadata goes with which representation. Analysis leaves no other combination: the first
theorem says so of the directive that is accepted, `Analyses.wellFormed` of every record at the end
of a run.
-/
namespace WireRecords

/-- The elements of a slice. A sequence of single bytes is no slice. -/
inductive FieldType.IsElement : FieldType → Prop
  | scalar {s : Scalar} (h : s ≠ .u8) : IsElement (.scalar s)
  | bytes (length : Nat) : IsElement (.bytes length)
  | nested (path : String) : IsElement (.nested path)

/-- The metadata of a field behind the fields `before`, by its representation. -/
inductive FieldMeta.Consistent (before : List FieldDecl) : FieldMeta → FieldType → Prop
  | scalar {endian : Endian} (s : Scalar) :
      Consistent before ⟨some (.literal s.width), endian, .literal⟩ (.scalar s)
  | bytes {endian : Endian} (length : Nat) :
      Consistent before ⟨some (.literal length), endian, .literal⟩ (.bytes length)
  | byteRun {endian : Endian} {w : Width} (ne : w.refs ≠ []) (refs : Analysis.RefersTo before w) :
      Consistent before ⟨some w, endian, .dynamic⟩ .byteRun
  | fixedSlice {endian : Endian} {element : FieldType} (h : element.IsElement) (count : Nat) :
      Consistent before ⟨some (.literal count), endian, .literal⟩ (.slice element)
  | slice {endian : Endian} {element : FieldType} {w : Width} (h : element.IsElement)
      (ne : w.refs ≠ []) (refs : Analysis.RefersTo before w) :
      Consistent before ⟨some w, endian, .dynamic⟩ (.slice element)
  | constant {endian : Endian} (value : String) (length : Nat) :
      Consistent before ⟨some (.literal length), endian, .literal⟩ (.constant value)
  | fixed {endian : Endian} {type : FieldType} {path : String} (h : type.target? = some path)
      (width : Nat) : Consistent before ⟨some (.literal width), endian, .literal⟩ type
  | selfDelimited {endian : Endian} {type : FieldType} {path : String}
      (h : type.target? = some path) : Consistent before ⟨none, endian, .unresolved⟩ type

theorem FieldType.IsElement.plain {element : FieldType} (h : element.IsElement) :
    element.Plain fun _ => True := by
  cases h with
  | scalar _ => exact .scalar _
  | bytes length => exact .bytes length
  | nested path => exact .nested trivial

theorem FieldType.plain_of_target? {type : FieldType} {path : String}
    (h : type.target? = some path) : type.Plain fun _ => True := by
  rcases FieldType.target?_eq_some h with rfl | rfl
  · exact .nested trivial
  · exact .boxed trivial

/-- How the field is read depends on this much of its metadata. -/
theorem FieldMeta.Consistent.cases {before : List FieldDecl} {info : FieldMeta} {type : FieldType}
    (h : info.Consistent before type) :
    type.Plain (fun _ => True) ∨
      (∃ value length, type = .constant value ∧ info.width = some (.literal length)) ∨
      (∃ w, type = .byteRun ∧ info.width = some w) ∨
      ∃ element w, type = .slice element ∧ info.width = some w ∧ element.IsElement := by
  cases h with
  | scalar s => exact Or.inl (.scalar s)
  | bytes length => exact Or.inl (.bytes length)
  | byteRun ne refs => exact Or.inr (Or.inr (Or.inl ⟨_, rfl, rfl⟩))
  | fixedSlice he count => exact Or.inr (Or.inr (Or.inr ⟨_, _, rfl, rfl, he⟩))
  | slice he ne refs => exact Or.inr (Or.inr (Or.inr ⟨_, _, rfl, rfl, he⟩))
  | constant value length => exact Or.inr (Or.inl ⟨_, _, rfl, rfl⟩)
  | fixed ht width => exact Or.inl (FieldType.plain_of_target? ht)
  | selfDelimited ht => exact Or.inl (FieldType.plain_of_target? ht)

/-- Widths refer only to integers before the field, and only where the length is computed. -/
theorem FieldMeta.Consistent.refs {before : List FieldDecl} {info : FieldMeta} {type : FieldType}
    (h : info.Consistent before type) {w : Width} (hw : info.width = some w) :
    Analysis.RefersTo before w ∧ (w.refs = [] ∨ ¬ type.Plain fun _ => True) := by
  have hliteral : ∀ n, w = .literal n →
      Analysis.RefersTo before w ∧ (w.refs = [] ∨ ¬ type.Plain fun _ => True) := by
    intro n hn
    subst hn
    exact ⟨fun id hid => by simp [Width.refs] at hid, Or.inl rfl⟩
  cases h with
  | scalar s => exact hliteral _ (Option.some.inj hw).symm
  | bytes length => exact hliteral _ (Option.some.inj hw).symm
  | byteRun ne refs =>
    obtain rfl := Option.some.inj hw
    refine ⟨refs, Or.inr fun hplain => ?_⟩
    cases hplain
  | fixedSlice he count => exact hliteral _ (Option.some.inj hw).symm
  | slice he ne refs =>
    obtain rfl := Option.some.inj hw
    refine ⟨refs, Or.inr fun hplain => ?_⟩
    cases hplain
  | constant value length => exact hliteral _ (Option.some.inj hw).symm
  | fixed htarget width => exact hliteral _ (Option.some.inj hw).symm
  | selfDelimited htarget => simp at hw

/-- A record whose names differ and whose fields are consistent with those before them. -/
structure RecordEntry.WellFormed (e : RecordEntry) : Prop where
  nodup : (e.fields.map (·.decl.id)).Nodup
  consistent : ∀ {before f after}, e.fields = before ++ f :: after →
    f.info.Consistent (before.map (·.decl)) f.decl.type

theorem RecordEntry.WellFormed.determined {e : RecordEntry} (h : e.WellFormed) : e.Determined := by
  refine ⟨h.nodup, fun {before f after} hs => ?_⟩
  have hf := h.consistent hs
  generalize ht : f.decl.type = type at hf
  obtain hp | ⟨value, length, rfl, hw⟩ | ⟨w, rfl, hw⟩ | ⟨element, w, rfl, hw, he⟩ := hf.cases
  · exact .plain hp
  · exact .constant hw
  · exact .byteRun hw (hf.refs hw).1
  · exact .slice hw he.plain (hf.refs hw).1

/-- The record that a directive declares, with the metadata that the registry `r` has for it. -/
structure RecordDecl.Declares (decl : RecordDecl) (d : Directive) (r : Registry) : Prop where
  id : decl.id = d.id
  fields : decl.fields.map (fun f => (f.id, f.span)) = d.fields.map fun f => (f.id, f.span)
  nodup : (decl.fields.map (·.id)).Nodup
  recorded : ∀ {before f after}, decl.fields = before ++ f :: after →
    ∃ g ∈ d.fields, g.id = f.id ∧ ∃ info, r.get d.id f.id = .ok info ∧
      info.endian = g.endian ∧ info.Consistent before f.type

namespace Analysis

theorem ElementOf.isElement {f : FieldSyntax} {element : FieldType} (h : ElementOf f element) :
    element.IsElement := by
  cases h with
  | scalar hs => exact .scalar hs
  | bytes length => exact .bytes length
  | nested _ => exact .nested _

theorem WholeOf.target? {f : FieldSyntax} {path : String} {type : FieldType}
    (h : WholeOf f path type) : type.target? = some path := by
  cases h <;> rfl

theorem Resolution.consistent {c : Context} {f : FieldSyntax} {res : Resolved}
    (h : Resolution c f res) :
    FieldMeta.Consistent c.resolved ⟨res.width, f.endian, res.kind⟩ res.type := by
  cases h with
  | scalar s => exact .scalar s
  | bytes length => exact .bytes length
  | constant value length => exact .constant value length
  | byteRun ne refs => exact .byteRun ne refs
  | fixedSlice he count => exact .fixedSlice he.isElement count
  | slice he ne refs => exact .slice he.isElement ne refs
  | selfDelimited hw => exact .selfDelimited hw.target?
  | fixed hw known => exact .fixed hw.target? _

/-- Fields are recorded in the order in which they are written. -/
theorem Resolves.map_decl {d : Directive} {r : Registry} {before added : List RecordedField}
    {fs : List FieldSyntax} (h : Resolves d r before fs added) :
    added.map (fun g => (g.decl.id, g.decl.span)) = fs.map fun f => (f.id, f.span) := by
  induction h with
  | nil => rfl
  | cons resolved fresh rest ih => simp [recorded, ih]

theorem Resolves.wellFormed {d : Directive} {r : Registry} {e : RecordEntry}
    (h : Resolves d r [] d.fields e.fields) : e.WellFormed := by
  refine ⟨by simpa using h.nodup (by simp), fun hs => ?_⟩
  obtain ⟨f, _, res, rfl, hres⟩ := h.split hs
  exact (Context.resolve_eq_ok hres).consistent

end Analysis

open Analysis

/-- The metadata of a field is found under its name. -/
theorem Registry.get_of_mem {r : Registry} {e : RecordEntry} {f : RecordedField}
    (hfind : r.find? e.id = some e) (he : e.WellFormed) (hf : f ∈ e.fields) :
    r.get e.id f.decl.id = .ok f.info := by
  simp [get, hfind, RecordEntry.find?_field he.nodup hf]

theorem wellFormed_of_analyze {d : Directive} {r r' : Registry} {decl : RecordDecl}
    (hr : ∀ {id e}, r.find? id = some e → e.WellFormed) (h : analyze d r = .ok (r', .ok decl))
    {id : String} {e : RecordEntry} (he : r'.find? id = some e) : e.WellFormed := by
  obtain ⟨_, fields, width, hfields, _, rfl, _⟩ := analyze_eq_ok h
  rw [Registry.find?_insert] at he
  split at he
  · obtain rfl := Option.some.inj he
    exact hfields.wellFormed
  · exact hr he

/-- Every record at the end of a run is well formed. -/
theorem Analyses.wellFormed {r r' : Registry} {ds : List Directive} {decls : List RecordDecl}
    (h : Analyses r ds decls r') (hr : ∀ {id e}, r.find? id = some e → e.WellFormed)
    {id : String} {e : RecordEntry} (he : r'.find? id = some e) : e.WellFormed := by
  induction h with
  | nil => exact hr he
  | cons head _ ih => exact ih (wellFormed_of_analyze hr head) he

theorem compile_wellFormed {config : Config} {units : List CompilationUnit} {p : Progress}
    (h : compile config units = .ok p) {id : String} {e : RecordEntry}
    (he : p.compilation.registry.find? id = some e) : e.WellFormed :=
  (compile_analyses h).wellFormed (fun hnone => by simp [Registry.find?] at hnone) he

theorem compile_determined {config : Config} {units : List CompilationUnit} {p : Progress}
    (h : compile config units = .ok p) : p.compilation.registry.Determined :=
  fun _ _ he => (compile_wellFormed h he).determined

/-- An accepted directive declares a well-formed record, whatever was analysed before it. -/
theorem accepted_record_wellFormed {d : Directive} {r r' : Registry} {decl : RecordDecl}
    (h : analyze d r = .ok (r', .ok decl)) : decl.Declares d r' := by
  obtain ⟨_, fields, width, hfields, _, rfl, rfl⟩ := analyze_eq_ok h
  have hwell : RecordEntry.WellFormed ⟨d.id, d.span, fields, true, width⟩ := hfields.wellFormed
  refine ⟨rfl, ?_, ?_, ?_⟩
  · simpa [Function.comp_def] using hfields.map_decl
  · simpa [Function.comp_def] using hwell.nodup
  · intro before f after hs
    -- The declared fields are the recorded ones without their metadata.
    obtain ⟨pre, rest, rfl, rfl, hrest⟩ := List.map_eq_append_iff.mp hs
    obtain ⟨g, post, rfl, rfl, rfl⟩ := List.map_eq_cons_iff.mp hrest
    obtain ⟨written, hmem, res, rfl, _⟩ := hfields.split rfl
    have hget := Registry.get_of_mem (r.find?_insert_self _) hwell
      (List.mem_append_right pre (List.mem_cons_self ..))
    exact ⟨written, hmem, rfl, _, hget, rfl, hwell.consistent rfl⟩

/-- Two directives, of which the second has a field of every representation. -/
def letters : List String :=
  ["Stamp zone[1] time[8]",
    "Letter kind[1] size[2,, BE] body[size - 1] sums[3, []u32] marks[kind * 2, []Stamp] " ++
      "sent[, *Stamp] route[, Route] flag[4, \"ab\"] key[16]"]

theorem letters_accepted :
    ∃ stamp ∈ (Directive.parse 0 (letters.getD 0 "")).toOption,
      ∃ s ∈ (analyze stamp {}).toOption,
      ∃ letter ∈ (Directive.parse 1 (letters.getD 1 "")).toOption,
      ∃ t ∈ (analyze letter s.1).toOption, ∃ decl ∈ t.2.toOption,
        decl.fields.map (·.type) = [.scalar .u8, .scalar .u16, .byteRun, .slice (.scalar .u32),
          .slice (.nested "Stamp"), .boxed (.nested "Stamp"), .nested "Route", .constant "ab",
          .bytes 16] := by
  decide +kernel

theorem accepted_record_wellFormed_letter :
    ∃ d r r' decl, analyze d r = .ok (r', .ok decl) ∧ decl.fields.length = 9 ∧
      decl.Declares d r' := by
  obtain ⟨_, _, s, _, d, _, ⟨r', outcome⟩, ht, decl, hdecl, htypes⟩ := letters_accepted
  have hok : outcome = .ok decl := by
    cases outcome with
    | error e => simp [Except.toOption] at hdecl
    | ok decl' => simpa [Except.toOption] using hdecl
  have hrun : analyze d s.1 = .ok (r', .ok decl) := by
    cases ha : analyze d s.1 with
    | error e => simp [ha, Except.toOption] at ht
    | ok out => simpa [ha, Except.toOption, hok] using ht
  have hlength := congrArg List.length htypes
  exact ⟨d, s.1, r', decl, hrun, by simpa using hlength, accepted_record_wellFormed hrun⟩

end WireRecords
