import WireRecords.Proofs.Codec.Endless
import WireRecords.Proofs.Execution.Procedures
import WireRecords.Proofs.Program.Contents
import WireRecords.Proofs.Program.Generated

/-!
# Procedures in generated files

A generated file has what the machine looks for: for every record that has a name the two procedures
with the statements for its fields, and the helper where a constant is written. Each is found under
its name, since no other item declares anything that could be taken for it.
-/
namespace WireRecords.Execution

open Codec Program Exec

variable {c : Context}

/-- A search finds what only one element, if any other, comes to. -/
theorem findSome?_eq_some {α β : Type} {f : α → Option β} {l : List α} {a : α} {b : β} (ha : a ∈ l)
    (hb : f a = some b) (honly : ∀ a' ∈ l, ∀ b', f a' = some b' → b' = b) :
    l.findSome? f = some b := by
  cases hfind : l.findSome? f with
  | none =>
    have hnone := List.findSome?_eq_none_iff.mp hfind a ha
    simp [hb] at hnone
  | some b' =>
    obtain ⟨a', ha', hb'⟩ := List.exists_of_findSome?_eq_some hfind
    rw [honly a' ha' b' hb']

theorem outlines_eq_map (items : List Item) :
    (machine c).outlines items = items.map (machine c).outline := by
  induction items with
  | nil => simp [Interpretation.outlines]
  | cons i items ih => simp [Interpretation.outlines, ih]

/-- What a file declares does not depend on whether it is flat. -/
theorem exists_outlines {comp : Compilation} {isFlat : Bool} {items : List Item}
    (h : (generate comp isFlat).2 = .ok items) :
    ∃ all, (generateItems comp).items = .ok all ∧
      ∀ c, (machine c).outlines items = all.map (machine c).outline := by
  obtain ⟨all, hall, _, rfl⟩ := generate_iff.mp h
  refine ⟨all, hall, fun c => ?_⟩
  rw [← outlines_eq_map]
  cases isFlat with
  | false => rfl
  | true =>
    exact Interpretation.outlines_flattenItems all
      (Interpretation.orderly_generateItems comp all hall)

/-! ### Items -/

/-- An item that is the procedure of a record under a name. -/
def IsProcedure (registry : Registry) (r : RecordDecl) (name : String) (i : Item) : Prop :=
  name = "read_binary" ∧ decoder registry r = .ok i ∨
    name = "write_binary" ∧ encoder registry r = .ok i

/-- Neither a procedure of a record nor a function. -/
def Inert (d : Program.Declaration (Bindings → Exec Datum)) : Prop :=
  (∀ record name, procedureOf record name d = none) ∧ ∀ name, functionOf name d = none

theorem item_cases {comp : Compilation} {all : List Item}
    (hall : (generateItems comp).items = .ok all) {i : Item} (hi : i ∈ all) :
    i = writePadded ∨ (∃ r ∈ named comp, ∃ name, IsProcedure comp.registry r name i) ∨
      ∀ c, Inert ((machine c).outline i) := by
  obtain himport | ⟨r, hr, hemits⟩ | hhelper := (mem_generateItems hall i).mp hi
  · refine Or.inr (Or.inr fun c => ?_)
    simp only [imports, List.mem_cons, List.not_mem_nil, or_false] at himport
    obtain rfl | rfl := himport
    · exact ⟨fun _ _ => rfl, fun _ => rfl⟩
    · exact ⟨fun _ _ => rfl, fun _ => rfl⟩
  · cases hemits with
    | type _ hdecl =>
      refine Or.inr (Or.inr fun c => ?_)
      simp only [declaration, List.mem_cons, List.not_mem_nil, or_false] at hdecl
      obtain rfl | rfl := hdecl
      · exact ⟨fun _ _ => rfl, fun _ => rfl⟩
      · exact ⟨fun _ _ => rfl, fun _ => rfl⟩
    | decode _ hdecoder => exact Or.inr (Or.inl ⟨r, hr, _, Or.inl ⟨rfl, hdecoder⟩⟩)
    | encode _ hencoder => exact Or.inr (Or.inl ⟨r, hr, _, Or.inr ⟨rfl, hencoder⟩⟩)
    | wire _ _ => exact Or.inr (Or.inr fun c => ⟨fun _ _ => rfl, fun _ => rfl⟩)
    | found _ => exact Or.inr (Or.inr fun c => ⟨fun _ _ => rfl, fun _ => rfl⟩)
  · exact Or.inl (eq_of_mem_helpers hhelper)

section Lookup

variable {registry : Registry} {r r' : RecordDecl} {name name' : String} {i i' : Item}

/-- A procedure is that of its name and of the fields of its record. -/
theorem IsProcedure.unique (h : IsProcedure registry r name i)
    (h' : IsProcedure registry r' name i') (hid : r'.id = r.id) (hfields : r'.fields = r.fields) :
    i' = i := by
  have hdecoder : decoder registry r' = decoder registry r := by
    simp only [decoder, transferFields, procedure, recordType, hid, hfields]
  have hencoder : encoder registry r' = encoder registry r := by
    simp only [encoder, transferFields, procedure, recordType, hid, hfields]
  obtain ⟨rfl, h⟩ | ⟨rfl, h⟩ := h
  · obtain ⟨_, h'⟩ | ⟨hname, _⟩ := h'
    · exact Except.ok.inj (h'.symm.trans (hdecoder.trans h))
    · simp at hname
  · obtain ⟨hname, _⟩ | ⟨_, h'⟩ := h'
    · simp at hname
    · exact Except.ok.inj (h'.symm.trans (hencoder.trans h))

theorem IsProcedure.exists_eq (h : IsProcedure registry r name i) :
    ∃ kind parameters blocks, i = procedure r name kind parameters blocks := by
  obtain ⟨rfl, h⟩ | ⟨rfl, h⟩ := h
  · obtain ⟨blocks, _, hi⟩ := decoder_eq_ok h
    exact ⟨_, _, blocks, hi⟩
  · obtain ⟨blocks, _, hi⟩ := encoder_eq_ok h
    exact ⟨_, _, blocks, hi⟩

/-- What a procedure is declared with. -/
def signatureOf (r : RecordDecl) (name kind : String) (parameters : List Parameter) : Signature :=
  { attributes := if r.fields.isEmpty then [.list "allow" ["unused_variables"]] else []
    isPublic := true
    name
    parameters
    result := some (fallible kind) }

theorem procedureOf_procedure (record : String) (r : RecordDecl) (kind : String)
    (parameters : List Parameter) (blocks : Block) :
    procedureOf record name ((machine c).outline (procedure r name' kind parameters blocks)) =
      if segments r.id = segments record ∧ name' = name then
        some (signatureOf r name' kind parameters, runBlock c [boundary r.id kind blocks])
      else none := by
  have hbody : procedureOf record name
      ((machine c).outline (procedure r name' kind parameters blocks)) =
        if segments r.id = segments record then
          [(signatureOf r name' kind parameters, runBlock c [boundary r.id kind blocks])].find?
            (·.1.name = name)
        else none := rfl
  rw [hbody]
  by_cases hid : segments r.id = segments record
  · by_cases hname : name' = name <;> simp [hid, hname, signatureOf]
  · simp [hid]

theorem segments_injective {a b : String} (ha : IsIdentifier a) (hb : IsIdentifier b)
    (h : segments a = segments b) : a = b := by
  rw [segments_of_isIdentifier ha, segments_of_isIdentifier hb, List.cons.injEq] at h
  rw [← unescape_escape ha.hash_notMem, h.1, unescape_escape hb.hash_notMem]

end Lookup

section File

variable {comp : Compilation} {all items : List Item}
  (hall : (generateItems comp).items = .ok all)

include hall

/-- The only item that declares a procedure of a record under its name, where records of one name have
the same fields. -/
theorem eq_of_procedureOf (hids : ∀ r ∈ named comp, IsIdentifier r.id)
    (hsame : ∀ r ∈ named comp, ∀ r' ∈ named comp, r'.id = r.id → r'.fields = r.fields)
    {r : RecordDecl} (hr : r ∈ named comp) {name : String} {i i' : Item}
    (hproc : IsProcedure comp.registry r name i) (hi' : i' ∈ all)
    (hsome : procedureOf r.id name ((machine c).outline i') ≠ none) : i' = i := by
  obtain rfl | ⟨r', hr', name', hproc'⟩ | hinert := item_cases hall hi'
  · simp [procedureOf, writePadded, Interpretation.outline] at hsome
  · -- The names of records are spelled in different ways, and a record has one procedure of a name.
    obtain ⟨kind', parameters', blocks', hi'⟩ := hproc'.exists_eq
    rw [hi', procedureOf_procedure] at hsome
    split at hsome
    · rename_i hboth
      obtain ⟨hsegments, rfl⟩ := hboth
      have hid := segments_injective (hids r' hr') (hids r hr) hsegments
      exact hproc.unique hproc' hid (hsame r hr r' hr' hid)
    · simp at hsome
  · simp [(hinert c).1] at hsome

variable (hitems : ∀ c, (machine c).outlines items = all.map (machine c).outline)

include hitems

/-- The machine finds a procedure of the file. -/
theorem declares_of_mem (hids : ∀ r ∈ named comp, IsIdentifier r.id)
    (hsame : ∀ r ∈ named comp, ∀ r' ∈ named comp, r'.id = r.id → r'.fields = r.fields)
    {r : RecordDecl} (hr : r ∈ named comp) {name kind : String} {parameters : List Parameter}
    {blocks : Block}
    (hproc : IsProcedure comp.registry r name (procedure r name kind parameters blocks))
    (hmem : procedure r name kind parameters blocks ∈ all)
    (hnames : parameterNames (signatureOf r name kind parameters) = ["buf"]) :
    Declares items r.id name blocks := by
  refine ⟨_, kind, hnames, fun c => ?_⟩
  rw [hitems c]
  refine findSome?_eq_some (List.mem_map_of_mem hmem) ?_ fun d hd b hb => ?_
  · rw [procedureOf_procedure, if_pos ⟨rfl, rfl⟩]
  · obtain ⟨i, hi, rfl⟩ := List.mem_map.mp hd
    have hsome : procedureOf r.id name ((machine c).outline i) ≠ none := by simp [hb]
    rw [eq_of_procedureOf hall hids hsame hr hproc hi hsome, procedureOf_procedure,
      if_pos ⟨rfl, rfl⟩] at hb
    exact (Option.some.inj hb).symm

/-- The machine finds the helper of the file. -/
theorem padded_of_mem (hmem : writePadded ∈ all) (c : Context) :
    ((machine c).outlines items).findSome? (functionOf "write_padded") =
      functionOf "write_padded" ((machine c).outline writePadded) := by
  obtain ⟨b, hb⟩ : ∃ b, functionOf "write_padded" ((machine c).outline writePadded) = some b :=
    ⟨_, rfl⟩
  rw [hitems c, hb]
  refine findSome?_eq_some (List.mem_map_of_mem hmem) hb fun d hd b' hb' => ?_
  obtain ⟨i, hi, rfl⟩ := List.mem_map.mp hd
  obtain rfl | ⟨r, _, name, hproc⟩ | hinert := item_cases hall hi
  · exact Option.some.inj (hb'.symm.trans hb)
  · obtain ⟨kind, parameters, blocks, rfl⟩ := hproc.exists_eq
    simp [functionOf, procedure, Interpretation.outline] at hb'
  · rw [(hinert c).2] at hb'
    simp at hb'

end File

/-! ### Files of a run -/

/-- The statements of the fields of a record, as it is recorded. -/
theorem fieldBlocks_of_transferFields {registry : Registry}
    {transfer : Subject → Except TransferError Block} {r : RecordDecl} {e : RecordEntry}
    {blocks : Block} (hfind : registry.find? e.id = some e) (hwell : e.WellFormed)
    (hid : r.id = e.id) (hfields : r.fields = e.fields.map (·.decl))
    (h : transferFields registry transfer r = .ok blocks) :
    FieldBlocks transfer e.id e.fields blocks := by
  have hall := transferFields_eq_ok h
  rw [hid, hfields, List.forall₂_map_left_iff, List.forall₂_iff_zip] at hall
  refine List.forall₂_iff_zip.mpr ⟨hall.1, fun {f b} hmem => ?_⟩
  obtain ⟨info, own, hget, hown, hb⟩ := hall.2 hmem
  have hf := (List.of_mem_zip hmem).1
  obtain rfl : f.info = info :=
    Except.ok.inj ((Registry.get_of_mem hfind hwell hf).symm.trans hget)
  exact ⟨own, hown, hb⟩

section Run

variable {config : Config} {units : List CompilationUnit} {p : Progress}
  (h : compile config units = .ok p) {isFlat : Bool} {items : List Item}

include h

/-- A record that has a name is recorded with its fields. -/
theorem find?_of_named {r : RecordDecl} (hr : r ∈ named p.compilation) :
    ∃ e, p.compilation.registry.find? r.id = some e ∧ e.fields.map (·.decl) = r.fields := by
  obtain ⟨hmem, hnamed⟩ := mem_named.mp hr
  have hid : r.id ≠ anonymous := by simpa [RecordDecl.isAnonymous] using hnamed
  exact (compile_analyses h).find?_of_mem hmem hid

/-- Records of one name have the same fields. -/
theorem fields_of_named {r r' : RecordDecl} (hr : r ∈ named p.compilation)
    (hr' : r' ∈ named p.compilation) (hid : r'.id = r.id) : r'.fields = r.fields := by
  obtain ⟨e, he, hfields⟩ := find?_of_named h hr
  obtain ⟨e', he', hfields'⟩ := find?_of_named h hr'
  rw [hid, he] at he'
  rw [← hfields, ← hfields', Option.some.inj he']

theorem isIdentifier_of_named {r : RecordDecl} (hr : r ∈ named p.compilation) :
    IsIdentifier r.id :=
  compile_identifiers h (mem_named.mp hr).1 (List.mem_cons_self ..)

theorem find?_varint : p.compilation.registry.find? Varint.path = none := by
  cases hfind : p.compilation.registry.find? Varint.path with
  | none => rfl
  | some e =>
    obtain ⟨decl, hdecl, hid, _⟩ := compile_mem_of_find? h hfind
    have hcolon := (compile_identifiers h hdecl (List.mem_cons_self ..)).colon_notMem
    rw [hid] at hcolon
    exact absurd (by decide) hcolon

variable (hitems : (generate (p.compilation.against {}) isFlat).2 = .ok items)

include hitems

theorem provides_of_generated {r : RecordDecl} (hr : r ∈ named p.compilation) {e : RecordEntry}
    (hfind : p.compilation.registry.find? r.id = some e) :
    Provides p.compilation.registry items e := by
  obtain ⟨all, hall, houtlines⟩ := exists_outlines hitems
  have hid : r.id = e.id := (Registry.id_of_find? hfind).symm
  have hwell := compile_wellFormed h hfind
  have hfields : r.fields = e.fields.map (·.decl) := by
    obtain ⟨e', hfind', hfields⟩ := find?_of_named h hr
    rw [← hfields, Option.some.inj (hfind'.symm.trans hfind)]
  have hids : ∀ r ∈ named (p.compilation.against {}), IsIdentifier r.id :=
    fun r hr => isIdentifier_of_named h hr
  have hsame : ∀ r ∈ named (p.compilation.against {}), ∀ r' ∈ named (p.compilation.against {}),
      r'.id = r.id → r'.fields = r.fields :=
    fun r hr r' hr' hid => fields_of_named h hr hr' hid
  refine ⟨?_, ?_, fun hconstant c => padded_of_mem hall houtlines ?_ c⟩
  · obtain ⟨i, hi, hmem⟩ := decoder_of_generated hall hr rfl
    obtain ⟨blocks, hblocks, rfl⟩ := decoder_eq_ok hi
    refine ⟨blocks, fieldBlocks_of_transferFields (hid ▸ hfind) hwell hid hfields hblocks, ?_⟩
    rw [← hid]
    exact declares_of_mem hall houtlines hids hsame hr (Or.inl ⟨rfl, hi⟩) hmem rfl
  · obtain ⟨i, hi, hmem⟩ := encoder_of_generated hall hr rfl
    obtain ⟨blocks, hblocks, rfl⟩ := encoder_eq_ok hi
    refine ⟨blocks, fieldBlocks_of_transferFields (hid ▸ hfind) hwell hid hfields hblocks, ?_⟩
    rw [← hid]
    exact declares_of_mem hall houtlines hids hsame hr (Or.inr ⟨rfl, hi⟩) hmem rfl
  · obtain ⟨f, hf, value, htype⟩ := hconstant
    have hwrites : writesConstant f.decl.type = true := by rw [htype]; rfl
    have hany : r.fields.any (fun f => writesConstant f.type) = true :=
      List.any_eq_true.mpr ⟨f.decl, hfields ▸ List.mem_map_of_mem hf, hwrites⟩
    refine (mem_generateItems hall _).mpr (Or.inr (Or.inr ?_))
    have hneeded : ((named (p.compilation.against {})).any fun r =>
        isGenerated (p.compilation.against {}) r .encode &&
          r.fields.any fun f => writesConstant f.type) = true :=
      List.any_eq_true.mpr ⟨r, hr, hany⟩
    rw [helpers, if_pos hneeded]
    exact List.mem_singleton_self _

/-- A generated file has all that is needed for the records that have a name. -/
theorem covers_of_generated (hread : Readable (named p.compilation)) :
    Covers p.compilation.registry items
      fun path => path ∈ (named p.compilation).map (·.id) ∨ path = Varint.path := by
  have hvarint := find?_varint h
  refine ⟨compile_determined h, hvarint, ?_, ?_, ?_, ?_⟩
  · intro path hpath hne
    obtain ⟨r, hr, rfl⟩ := List.mem_map.mp (hpath.resolve_right hne)
    obtain ⟨e, he, _⟩ := find?_of_named h hr
    exact ⟨e, he⟩
  · intro path e hpath he
    obtain hmem | rfl := hpath
    · obtain ⟨r, hr, rfl⟩ := List.mem_map.mp hmem
      exact provides_of_generated h hitems hr he
    · simp [hvarint] at he
  · intro path e he f hf
    obtain ⟨decl, hdecl, _, hfields⟩ := compile_mem_of_find? h he
    have hmem : f.decl.id ∈ decl.names := by
      refine List.mem_cons_of_mem _ (List.mem_flatMap.mpr ⟨f.decl, ?_, List.mem_cons_self ..⟩)
      rw [hfields]
      exact List.mem_map_of_mem hf
    exact (compile_identifiers h hdecl hmem).hash_notMem
  · intro path e hpath he f hf inner hinner
    obtain hmem | rfl := hpath
    · obtain ⟨r, hr, rfl⟩ := List.mem_map.mp hmem
      obtain ⟨e', he', hfields⟩ := find?_of_named h hr
      rw [Option.some.inj (he'.symm.trans he)] at hfields
      exact hread r hr f.decl (hfields ▸ List.mem_map_of_mem hf) inner hinner
    · simp [hvarint] at he

end Run

end WireRecords.Execution
