import WireRecords.Export
import WireRecords.Proofs.Names
import WireRecords.Proofs.Program.Transfer
import WireRecords.Proofs.WellFormed

/-!
# Generation succeeds

What is generated for a compilation, item by item, and why no error is met on the way: the registry
has consistent metadata for every field of a record that has a name.
-/
namespace WireRecords

/-- The same records, where a host declares other symbols. -/
def Compilation.against (c : Compilation) (s : CollisionSet) : Compilation :=
  { c with collisions := s }

/-! ### Metadata of records -/

/-- The registry has metadata for every field of a record. It is consistent with the field and with
fields before it. -/
def RecordDecl.Recorded (r : RecordDecl) (registry : Registry) : Prop :=
  ∀ f ∈ r.fields, ∃ info before, registry.get r.id f.id = .ok info ∧
    info.Consistent before f.type ∧ before ⊆ r.fields

/-- Records without a name replace each other in the registry; all others are recorded. -/
theorem compile_recorded {config : Config} {units : List CompilationUnit} {p : Progress}
    (h : compile config units = .ok p) {r : RecordDecl} (hr : r ∈ p.compilation.records)
    (hnamed : r.isAnonymous = false) : r.Recorded p.compilation.registry := by
  have hid : r.id ≠ anonymous := by simpa [RecordDecl.isAnonymous] using hnamed
  obtain ⟨e, hfind, hfields⟩ := (compile_analyses h).find?_of_mem hr hid
  have hwell := compile_wellFormed h hfind
  have heid : e.id = r.id := Registry.id_of_find? hfind
  intro f hf
  rw [← hfields] at hf
  obtain ⟨g, hg, rfl⟩ := List.mem_map.mp hf
  obtain ⟨before, after, hsplit⟩ := List.append_of_mem hg
  have hget := Registry.get_of_mem (heid ▸ hfind) hwell hg
  refine ⟨g.info, before.map (·.decl), heid ▸ hget, hwell.consistent hsplit, ?_⟩
  rw [← hfields, hsplit, List.map_append]
  exact List.subset_append_left _ _

namespace Program

/-! ### Procedures -/

namespace Subject

variable {s : Subject} {type : FieldType}

theorem decode_plain (h : type.Plain fun _ => True) (registry : Registry) (isElement : Bool) :
    ∃ body, s.decode registry isElement type = .ok body := by
  cases h with
  | scalar k => exact ⟨_, rfl⟩
  | bytes length => exact ⟨_, rfl⟩
  | nested _ => exact ⟨_, rfl⟩
  | boxed _ => exact ⟨_, rfl⟩

theorem encode_plain (h : type.Plain fun _ => True) (isElement : Bool) :
    ∃ body, s.encode isElement type = .ok body := by
  cases h with
  | scalar k => exact ⟨_, rfl⟩
  | bytes length => exact ⟨_, rfl⟩
  | nested _ => exact ⟨_, rfl⟩
  | boxed _ => exact ⟨_, rfl⟩

theorem decode_total {before : List FieldDecl} (h : s.info.Consistent before type)
    (registry : Registry) : ∃ body, s.decode registry false type = .ok body := by
  obtain hplain | ⟨value, n, rfl, hw⟩ | ⟨w, rfl, hw⟩ | ⟨element, w, rfl, hw, he⟩ := h.cases
  · exact decode_plain hplain registry false
  · exact ⟨_, decode_constant.mpr ⟨n, by rw [hw]; rfl, rfl⟩⟩
  · exact ⟨_, decode_byteRun.mpr ⟨w, hw, rfl⟩⟩
  · obtain ⟨inner, hinner⟩ := decode_plain (s := s) he.plain registry true
    exact ⟨_, decode_slice.mpr ⟨w, inner, hw, hinner, rfl⟩⟩

theorem encode_total {before : List FieldDecl} (h : s.info.Consistent before type) :
    ∃ body, s.encode false type = .ok body := by
  obtain hplain | ⟨value, n, rfl, hw⟩ | ⟨w, rfl, hw⟩ | ⟨element, w, rfl, hw, he⟩ := h.cases
  · exact encode_plain hplain false
  · exact ⟨_, encode_constant.mpr ⟨n, by rw [hw]; rfl, rfl⟩⟩
  · exact ⟨_, encode_byteRun.mpr ⟨w, hw, rfl⟩⟩
  · obtain ⟨inner, hinner⟩ := encode_plain (s := s) he.plain true
    exact ⟨_, encode_slice.mpr ⟨w, inner, hw, hinner, rfl⟩⟩

end Subject

theorem transferFields_total {registry : Registry} {r : RecordDecl} (hr : r.Recorded registry)
    {transfer : Subject → Except TransferError Block}
    (htransfer : ∀ {s : Subject} {before}, s.info.Consistent before s.field.type →
      ∃ body, transfer s = .ok body) :
    ∃ body, transferFields registry transfer r = .ok body := by
  apply exists_mapM_eq_ok.mpr
  intro f hf
  obtain ⟨info, before, hget, hconsistent, _⟩ := hr f hf
  obtain ⟨body, hbody⟩ := htransfer (s := ⟨r.id, f, info⟩) hconsistent
  exact ⟨_, by simp only [hget, hbody]; rfl⟩

theorem decoder_total {registry : Registry} {r : RecordDecl} (hr : r.Recorded registry) :
    ∃ item, decoder registry r = .ok item := by
  obtain ⟨body, hbody⟩ := transferFields_total hr fun h => Subject.decode_total h registry
  exact ⟨_, by simp only [decoder, hbody]; rfl⟩

theorem encoder_total {registry : Registry} {r : RecordDecl} (hr : r.Recorded registry) :
    ∃ item, encoder registry r = .ok item := by
  obtain ⟨body, hbody⟩ := transferFields_total hr Subject.encode_total
  exact ⟨_, by simp only [encoder, hbody]; rfl⟩

/-! ### Items -/

namespace Part

theorem concat_total {ps : List Part} (h : ∀ p ∈ ps, ∃ items, p.items = .ok items) :
    ∃ items, (concat ps).items = .ok items := by
  induction ps with
  | nil => exact ⟨[], rfl⟩
  | cons p ps ih =>
    obtain ⟨first, hfirst⟩ := h p List.mem_cons_self
    obtain ⟨rest, hrest⟩ := ih fun q hq => h q (List.mem_cons_of_mem p hq)
    exact ⟨first ++ rest, by simp [concat, hfirst, hrest, Except.map]⟩

/-- The items of a part that is free of errors. -/
def own (p : Part) : List Item := p.items.toOption.getD []

theorem own_eq {p : Part} {items : List Item} (h : p.items = .ok items) : p.own = items := by
  simp [own, h, Except.toOption]

/-- What is joined consists of the items of all parts, in their order. -/
theorem concat_eq {ps : List Part} {items : List Item} (h : (concat ps).items = .ok items) :
    (∀ p ∈ ps, p.items = .ok p.own) ∧ items = ps.flatMap own := by
  induction ps generalizing items with
  | nil =>
    obtain rfl := Except.ok.inj h
    simp
  | cons p ps ih =>
    simp only [concat] at h
    cases hp : p.items with
    | error e => simp [hp] at h
    | ok first =>
      cases hps : (concat ps).items with
      | error e => simp [hp, hps, Except.map] at h
      | ok rest =>
        simp only [hp, hps, Except.map, Except.ok.injEq] at h
        obtain ⟨hall, rfl⟩ := ih hps
        rw [List.flatMap_cons, own_eq hp]
        refine ⟨fun q hq => ?_, h.symm⟩
        rcases List.mem_cons.mp hq with rfl | hq
        · rw [own_eq hp]
          exact hp
        · exact hall q hq

theorem mem_concat {ps : List Part} {items : List Item} (h : (concat ps).items = .ok items)
    (i : Item) : i ∈ items ↔ ∃ p ∈ ps, ∃ own, p.items = .ok own ∧ i ∈ own := by
  obtain ⟨hok, rfl⟩ := concat_eq h
  rw [List.mem_flatMap]
  refine exists_congr fun p => and_congr_right fun hp => ?_
  simp [hok p hp]

theorem unlessDeclared_total {c : Compilation} {r : RecordDecl} {kind : SymbolKind}
    {items : Except TransferError (List Item)} (h : ∃ own, items = .ok own) :
    ∃ own, (unlessDeclared c r kind items).items = .ok own := by
  unfold unlessDeclared
  split
  · exact h
  · exact ⟨_, rfl⟩

end Part

/-- What is generated for a record. -/
inductive Emits (c : Compilation) (r : RecordDecl) : Item → Prop
  | type {i : Item} (h : c.collisions.contains r.id .type = false)
      (hi : i ∈ declaration r (c.origin? r.id)) : Emits c r i
  | decode {i : Item} (h : c.collisions.contains r.id .decode = false)
      (hi : decoder c.registry r = .ok i) : Emits c r i
  | encode {i : Item} (h : c.collisions.contains r.id .encode = false)
      (hi : encoder c.registry r = .ok i) : Emits c r i
  | wire (hd : c.collisions.contains r.id .decode = false)
      (he : c.collisions.contains r.id .encode = false) : Emits c r (wire r)
  /-- What stands for a symbol that the host declares. -/
  | found {kind : SymbolKind} {origin : String}
      (h : c.collisions.provenance? r.id kind = some origin) :
      Emits c r (placeholder r.id kind origin)

theorem mem_unlessDeclared {c : Compilation} {r : RecordDecl} {kind : SymbolKind}
    {items : Except TransferError (List Item)} (i : Item) :
    (∃ own, (Part.unlessDeclared c r kind items).items = .ok own ∧ i ∈ own) ↔
      (c.collisions.contains r.id kind = false ∧ ∃ own, items = .ok own ∧ i ∈ own) ∨
        ∃ origin, c.collisions.provenance? r.id kind = some origin ∧
          i = placeholder r.id kind origin := by
  unfold Part.unlessDeclared CollisionSet.contains
  cases c.collisions.provenance? r.id kind with
  | none => simp
  | some origin => simp

theorem mem_singleton_ok {x : Except TransferError Item} (i : Item) :
    (∃ own, x.map ([·]) = .ok own ∧ i ∈ own) ↔ x = .ok i := by
  cases x with
  | error e => simp [Except.map]
  | ok j => simp [Except.map, eq_comm]

theorem emits_iff {c : Compilation} {r : RecordDecl} {i : Item} :
    Emits c r i ↔ ∃ p ∈ typePart c r :: procedureParts c r, ∃ own, p.items = .ok own ∧ i ∈ own := by
  simp only [typePart, procedureParts, List.mem_cons, List.not_mem_nil, or_false, exists_eq_or_imp,
    exists_eq_left, mem_unlessDeclared, mem_singleton_ok]
  constructor
  · intro h
    cases h with
    | type h hi => exact Or.inl (Or.inl ⟨h, _, rfl, hi⟩)
    | decode h hi => exact Or.inr (Or.inl (Or.inl ⟨h, hi⟩))
    | encode h hi => exact Or.inr (Or.inr (Or.inl (Or.inl ⟨h, hi⟩)))
    | wire hd he => exact Or.inr (Or.inr (Or.inr ⟨_, rfl, by simp [isGenerated, hd, he]⟩))
    | @found kind origin h =>
      cases kind with
      | type => exact Or.inl (Or.inr ⟨origin, h, rfl⟩)
      | decode => exact Or.inr (Or.inl (Or.inr ⟨origin, h, rfl⟩))
      | encode => exact Or.inr (Or.inr (Or.inl (Or.inr ⟨origin, h, rfl⟩)))
  · intro h
    obtain (⟨h, own, hown, hi⟩ | ⟨origin, h, rfl⟩) | (⟨h, hi⟩ | ⟨origin, h, rfl⟩) |
      (⟨h, hi⟩ | ⟨origin, h, rfl⟩) | ⟨own, hown, hi⟩ := h
    · obtain rfl := Except.ok.inj hown
      exact .type h hi
    · exact .found h
    · exact .decode h hi
    · exact .found h
    · exact .encode h hi
    · exact .found h
    · obtain rfl := Except.ok.inj hown
      split at hi
      · rename_i hboth
        simp only [isGenerated, Bool.and_eq_true, Bool.not_eq_true'] at hboth
        obtain rfl := List.mem_singleton.mp hi
        exact .wire hboth.1 hboth.2
      · simp at hi

/-- The records that have a name. -/
def named (c : Compilation) : List RecordDecl := c.records.filter (!·.isAnonymous)

theorem mem_named {c : Compilation} {r : RecordDecl} :
    r ∈ named c ↔ r ∈ c.records ∧ r.isAnonymous = false := by
  simp [named]

/-- The parts of a file: imports, those of the records that have a name, and helpers. -/
theorem mem_parts {c : Compilation} {p : Part} :
    p ∈ ⟨anonymousRemarks c, .ok imports⟩ :: ((named c).map (typePart c) ++
        (named c).flatMap (procedureParts c) ++ [⟨[], .ok (helpers c (named c))⟩]) ↔
      p = ⟨anonymousRemarks c, .ok imports⟩ ∨
        (∃ r ∈ named c, p ∈ typePart c r :: procedureParts c r) ∨
        p = ⟨[], .ok (helpers c (named c))⟩ := by
  have hrecord : (∃ r ∈ named c, p ∈ typePart c r :: procedureParts c r) ↔
      (∃ r ∈ named c, typePart c r = p) ∨ ∃ r ∈ named c, p ∈ procedureParts c r := by
    simp only [List.mem_cons, and_or_left, exists_or, eq_comm]
  rw [hrecord]
  simp only [List.mem_append, List.mem_map, List.mem_flatMap, List.mem_cons, List.not_mem_nil,
    or_false]

/-- A generated file has its imports, what is generated for the records that have a name, and the
helpers. -/
theorem mem_generateItems {c : Compilation} {items : List Item}
    (h : (generateItems c).items = .ok items) (i : Item) :
    i ∈ items ↔ i ∈ imports ∨ (∃ r ∈ named c, Emits c r i) ∨ i ∈ helpers c (named c) := by
  have hparts := Part.mem_concat h i
  rw [hparts]
  constructor
  · intro hi
    obtain ⟨p, hp, own, hown, hi⟩ := hi
    obtain rfl | ⟨r, hr, hpart⟩ | rfl := mem_parts.mp hp
    · obtain rfl := Except.ok.inj hown
      exact Or.inl hi
    · exact Or.inr (Or.inl ⟨r, hr, emits_iff.mpr ⟨p, hpart, own, hown, hi⟩⟩)
    · obtain rfl := Except.ok.inj hown
      exact Or.inr (Or.inr hi)
  · intro hi
    obtain hi | ⟨r, hr, hemits⟩ | hi := hi
    · exact ⟨_, mem_parts.mpr (Or.inl rfl), _, rfl, hi⟩
    · obtain ⟨p, hpart, hown⟩ := emits_iff.mp hemits
      exact ⟨p, mem_parts.mpr (Or.inr (Or.inl ⟨r, hr, hpart⟩)), hown⟩
    · exact ⟨_, mem_parts.mpr (Or.inr (Or.inr rfl)), _, rfl, hi⟩

/-- There is only one helper. -/
theorem eq_of_mem_helpers {c : Compilation} {records : List RecordDecl} {i : Item}
    (h : i ∈ helpers c records) : i = writePadded := by
  unfold helpers at h
  split at h
  · exact List.mem_singleton.mp h
  · simp at h

/-- A file is generated if no item fails and all names can stand where they do. -/
theorem generate_iff {c : Compilation} {isFlat : Bool} {items : List Item} :
    (generate c isFlat).2 = .ok items ↔ ∃ all, (generateItems c).items = .ok all ∧
      faultOfItems? all = none ∧ items = if isFlat then flattenItems all else all := by
  simp only [generate]
  cases (generateItems c).items with
  | error e => simp
  | ok all =>
    cases hfault : faultOfItems? all with
    | some fault => simp [hfault]
    | none => simp [hfault, eq_comm]

theorem generateItems_total {c : Compilation} (h : ∀ r ∈ named c, r.Recorded c.registry) :
    ∃ items, (generateItems c).items = .ok items := by
  apply Part.concat_total
  intro p hp
  obtain rfl | ⟨r, hr, hpart⟩ | rfl := mem_parts.mp hp
  · exact ⟨_, rfl⟩
  · obtain ⟨reading, hreading⟩ := decoder_total (h r hr)
    obtain ⟨writing, hwriting⟩ := encoder_total (h r hr)
    simp only [typePart, procedureParts, List.mem_cons, List.not_mem_nil, or_false] at hpart
    rcases hpart with rfl | rfl | rfl | rfl
    · exact Part.unlessDeclared_total ⟨_, rfl⟩
    · exact Part.unlessDeclared_total ⟨_, by rw [hreading]; rfl⟩
    · exact Part.unlessDeclared_total ⟨_, by rw [hwriting]; rfl⟩
    · exact ⟨_, rfl⟩
  · exact ⟨_, rfl⟩

end Program

/-! ### Exported records -/

namespace Compilation

theorem exportRecord_total {c : Compilation} {r : RecordDecl} (hr : r.Recorded c.registry) :
    ∃ json, c.exportRecord r = .ok json := by
  have hfields : ∃ fields, r.fields.mapM (c.exportField r.id) = .ok fields := by
    apply exists_mapM_eq_ok.mpr
    intro f hf
    obtain ⟨info, _, hget, _, _⟩ := hr f hf
    exact ⟨_, by simp only [exportField, hget]; rfl⟩
  obtain ⟨fields, hfields⟩ := hfields
  exact ⟨_, by simp only [exportRecord, hfields]; rfl⟩

theorem exportRecords_total {c : Compilation}
    (h : ∀ r ∈ Program.named c, r.Recorded c.registry) : ∃ json, c.exportRecords = .ok json := by
  obtain ⟨records, hrecords⟩ := exists_mapM_eq_ok.mpr fun r hr => exportRecord_total (h r hr)
  exact ⟨.array records, by simp only [exportRecords, Program.named] at *; rw [hrecords]; rfl⟩

end Compilation

theorem compile_named {config : Config} {units : List CompilationUnit} {p : Progress}
    (h : compile config units = .ok p) :
    ∀ r ∈ Program.named p.compilation, r.Recorded p.compilation.registry ∧
      IsIdentifier r.id ∧ r.id ≠ anonymous := by
  intro r hr
  obtain ⟨hmem, hnamed⟩ := Program.mem_named.mp hr
  refine ⟨compile_recorded h hmem hnamed, ?_, ?_⟩
  · exact compile_identifiers h hmem (by simp [RecordDecl.names])
  · simpa [RecordDecl.isAnonymous] using hnamed

/-- Whatever a host declares, the records of a compilation are exported and generated, and all names
that stand in what is generated are identifiers. -/
theorem generation_reaches_no_error {config : Config} {units : List CompilationUnit} {p : Progress}
    (h : compile config units = .ok p) (s : CollisionSet) :
    (∃ json, (p.compilation.against s).exportRecords = .ok json) ∧
      (∃ items, (Program.generateItems (p.compilation.against s)).items = .ok items) ∧
      ∀ r ∈ p.compilation.records, ∀ name ∈ r.names, IsIdentifier name := by
  have hrecorded : ∀ r ∈ Program.named p.compilation, r.Recorded p.compilation.registry :=
    fun r hr => (compile_named h r hr).1
  exact ⟨Compilation.exportRecords_total hrecorded, Program.generateItems_total hrecorded,
    fun r hr name hname => compile_identifiers h hr hname⟩

/-- Two records without a name, whose fields have the same names, and one that is left out. -/
def crowd : List CompilationUnit :=
  [.inline "crowd" ["a[1] b[a]", "Skip x[2]",
    "Frame n[1] xs[n * 2, []Node] tag[3, \"ab\"] next[, *Frames] key[16]", "a[2] b[, *Frame]",
    "Node type[8] super[, wire::Point]"]]

theorem crowd_run : ∃ p ∈ (compile { excluded := ["Skip"] } crowd).toOption,
    p.compilation.records.map (·.id) = ["_", "Frame", "_", "Node"] := by
  decide +kernel

/-- What a host declares of the records. -/
def crowdHost : CollisionSet :=
  ⟨[⟨⟨"Frame", .type⟩, "host.rs"⟩, ⟨⟨"Node", .decode⟩, "host.rs"⟩]⟩

theorem generation_reaches_no_error_crowd :
    ∃ p, compile { excluded := ["Skip"] } crowd = .ok p ∧
      p.compilation.records.map (·.id) = ["_", "Frame", "_", "Node"] ∧
      (∃ json, (p.compilation.against crowdHost).exportRecords = .ok json) ∧
      ∃ items, (Program.generateItems (p.compilation.against crowdHost)).items = .ok items := by
  obtain ⟨p, hp, hids⟩ := crowd_run
  have hcompile := compile_of_toOption hp
  have hdone := generation_reaches_no_error hcompile crowdHost
  exact ⟨p, hcompile, hids, hdone.1, hdone.2.1⟩

end WireRecords
