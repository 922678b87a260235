import WireRecords.Proofs.Codec.Unchecked
import WireRecords.Proofs.Execution.Safety
import WireRecords.Proofs.Program.SliceChecks

/-!
# Running procedures without the check for slices

The procedures of a generated file are run with the checks for slices taken out. They do what reading
without these checks does, level by level, and so they succeed exactly where the procedures of the file
succeed.
-/
namespace WireRecords.Execution

open Codec Program Exec

variable {c : Context} {env : Bindings} {s : Machine}

/-! ### Fields -/

section Record

variable {r : Registry} {N : Reader} {e : RecordEntry} {before after : List RecordedField}
  {f : RecordedField} {record : String} (he : e.Determined)
  (hhash : ∀ g ∈ e.fields, '#' ∉ g.decl.id.toList) (hc : ServesReading r e N c) (h : Scope env)

include he hhash hc h

theorem read_fieldUnchecked {body : Block} (hsplit : e.fields = before ++ f :: after)
    (hs : Underway r e before (f :: after) s.fields)
    (hbody : Subject.decode ⟨record, f.decl, f.info⟩ r false f.decl.type = .ok body) :
    ReadsAs record .unit (readFieldUnchecked r N record s.fields f s.input)
      (runBlock c (dropSliceChecks body) env s) := by
  by_cases hslice : ∃ element, f.decl.type = .slice element
  · obtain ⟨element, htype⟩ := hslice
    have hf := he.field hsplit
    rw [htype] at hf hbody
    cases hf with
    | plain hplain => cases hplain
    | @slice _ w hwidth hplain refs =>
      have hmem : f ∈ e.fields := by simp [hsplit]
      have husable := hs.usable hsplit hhash (by rw [htype]; rfl) hwidth refs
      obtain ⟨w', inner, hw, hinner, rfl⟩ := Subject.decode_slice.mp hbody
      obtain rfl := Option.some.inj (hwidth.symm.trans hw)
      rw [readFieldUnchecked_slice htype hwidth, dropSliceChecks_slice _ _ _ _ _ rfl]
      have hlower := eval_lower (c := c) h (husable.width w hwidth)
      cases hm : s.fields.measure w with
      | error fault =>
        rw [hm] at hlower
        rw [declareSize, runBlock_binding_error _ hlower]
        exact .broken fault s
      | ok count =>
        rw [hm] at hlower
        rw [declareSize, runBlock_binding _ hlower]
        exact read_sliceElements (h.bind "count" (by decide) (.number count)) hc hmem husable htype
          hplain hinner rfl
  · have htype : ∀ element, f.decl.type ≠ .slice element := fun element ht => hslice ⟨element, ht⟩
    rw [readFieldUnchecked_of_ne_slice htype,
      dropSliceChecks_eq_self fun t ht => (bindsExpected_of_decode htype hbody t ht).1]
    exact read_field he hhash hc h hsplit hs hbody

theorem read_fieldsUnchecked (hN : ReadsWidths r N) {blocks : Block}
    (hblocks : FieldBlocks (fun sub => sub.decode r false sub.field.type) record after blocks)
    (hsplit : e.fields = before ++ after) (hs : Underway r e before after s.fields) :
    ReadsAs record (.result none) (readFieldsUnchecked r N record s.fields after s.input)
      (runBlock c (blocks.map Stmt.withoutSliceChecks ++ [success]) env s) := by
  induction hblocks generalizing before s with
  | nil =>
    rw [List.map_nil, List.nil_append, runBlock_success h]
    exact .done s
  | @cons f b after blocks hb _ ih =>
    obtain ⟨body, hbody, rfl⟩ := hb
    have hfield : ReadsAs record .unit (readFieldUnchecked r N record s.fields f s.input)
        ((machine c).eval (.block none false (dropSliceChecks body)) env s) :=
      read_fieldUnchecked he hhash hc h hsplit hs hbody
    refine ReadsAs.cons _ hfield (fun s' hdone => ?_) fun hfailed => ?_
    · -- What was read without the check is also read with it, so the next stage is reached.
      have hread := (readFieldUnchecked_ok_iff hN (he.field hsplit)).mp hdone
      simp only [readFieldsUnchecked, hdone]
      exact ih (by simp [hsplit]) (hs.step he hsplit hread)
    · simp only [readFieldsUnchecked]

end Record

/-! ### Levels -/

/-- Without the checks, running the reading procedures of a file comes to reading without them. -/
theorem runRead_unchecked {r : Registry} {items unchecked : List Item} {known : String → Prop}
    (h : Covers r items known) {allowed : String → Prop} (hr : r.Sound allowed)
    (hunchecked : ∀ path e, known path → r.find? path = some e → ∃ blocks,
      FieldBlocks (fun sub => sub.decode r false sub.field.type) e.id e.fields blocks ∧
        Declares unchecked e.id "read_binary" (blocks.map Stmt.withoutSliceChecks))
    {n : Nat} {path : String} {v : Value} (hpath : known path)
    (hv : v.fits r (.nested path) = true) (bytes : List UInt8) :
    runRead r unchecked n path v bytes = ended (readUnchecked r n path v bytes) := by
  induction n generalizing path v bytes with
  | zero => rfl
  | succ n ih =>
    have hinitial : (initial r path).fits r (.nested path) = true :=
      initial_fits h.determined (grounded_of_fits h.determined rfl hv (Nat.lt_succ_self _))
    simp only [readUnchecked, if_pos hinitial]
    by_cases hvarint : path = Varint.path
    · subst hvarint
      rw [h.varint]
      dsimp only
      rw [readLevel_varint h.varint]
      simp only [runRead, h.varint, if_true, takeGroups_eq, Varint.read]
      rcases Varint.readGroups Varint.maxLength 0 0 bytes with ⟨e | k, rest⟩ <;> rfl
    · obtain ⟨e, he⟩ := h.find? path hpath hvarint
      have hid := Registry.id_of_find? he
      obtain ⟨blocks, hblocks, hdeclares⟩ := hunchecked path e hpath he
      have hserves : ServesReading r e (readUnchecked r n)
          (contextOf r unchecked e (runRead r unchecked n) fun _ _ _ => .error .stuck) :=
        { type? := fun f hf => type?_contextOf r unchecked (h.determined he) _ _ hf
          default? := fun type => rfl
          read := fun f hf inner hinner v bytes hv =>
            ih (h.nested path e hpath he f hf inner hinner) hv bytes
          inhabited := fun _ _ _ _ hq => initial_fits_of_readUnchecked hq }
      have hreads := read_fieldsUnchecked (h.determined he) (h.hash path e he) hserves
        parameters_scope (readUnchecked_readsWidths hr n) hblocks (List.nil_append _).symm
        (s := { fields := v.asFields, input := bytes })
        (Underway.start (asFields_ready h.determined he hv))
      rw [runRead, he]
      dsimp only
      rw [← hid]
      exact runProcedure_reads hdeclares hreads

/-! ### Files -/

theorem orderly_of_mem {items : List Item} (h : (machine c).OrderlyItems items) {i : Item}
    (hi : i ∈ items) : (machine c).OrderlyItem i := by
  induction items with
  | nil => simp at hi
  | cons j items ih =>
    rw [Interpretation.OrderlyItems] at h
    rcases List.mem_cons.mp hi with rfl | hi
    · exact h.1
    · exact ih h.2 hi

/-- An item of a file means the same in a flat one. -/
theorem outline_finish {comp : Compilation} {all : List Item}
    (hall : (generateItems comp).items = .ok all) (isFlat : Bool) {i : Item} (hi : i ∈ all) :
    (machine c).outline (finish isFlat i) = (machine c).outline i := by
  cases isFlat with
  | false => rfl
  | true =>
    have horderly := Interpretation.orderly_generateItems (I := machine c) comp all hall
    exact (machine c).outline_flatten i (orderly_of_mem horderly hi)

/-- Without its checks an item declares procedures under the same names. -/
theorem procedureOf_withoutSliceChecks {record name : String} {i : Item}
    (h : procedureOf record name ((machine c).outline i) = none) :
    procedureOf record name ((machine c).outline i.withoutSliceChecks) = none := by
  have hfunctions : ∀ fs : List (Signature × Block),
      ((machine c).evalFunctions fs).find? (·.1.name = name) = none →
        ((machine c).evalFunctions
          (fs.map fun f => (f.1, boundaryWithoutSliceChecks f.2))).find? (·.1.name = name) = none := by
    intro fs hfs
    induction fs with
    | nil => exact hfs
    | cons f fs ih =>
      simp only [List.map_cons, Interpretation.evalFunctions, List.find?_cons] at hfs ⊢
      split at hfs
      · simp at hfs
      · rename_i hname
        simp only [hname]
        exact ih hfs
  cases i with
  | methods trait target functions =>
    cases trait with
    | some trait => exact h
    | none =>
      simp only [Item.withoutSliceChecks, Interpretation.outline] at h ⊢
      unfold procedureOf at h ⊢
      split at h
      · rename_i heq
        obtain ⟨_, rfl, rfl⟩ := heq
        split at h
        · rename_i hsegments
          simp only [if_pos hsegments]
          exact hfunctions functions h
        · rename_i hsegments
          simp only [if_neg hsegments]
      · split
        · simp_all
        · rfl
  | _ => exact h

section Decoder

variable {registry : Registry} {r : RecordDecl} {blocks : Block}
  (h : transferFields registry (fun sub => sub.decode registry false sub.field.type) r = .ok blocks)

include h

theorem decode_of_mem_blocks {t : Stmt} (ht : t ∈ blocks) : ∃ sub body,
    Subject.decode sub registry false sub.field.type = .ok body ∧
      t = .expr (.block none false body) false := by
  obtain ⟨f, _, info, body, _, hbody, ht⟩ := exists_of_forall₂ (transferFields_eq_ok h).flip ht
  exact ⟨_, body, hbody, ht⟩

/-- Without its checks, the reading procedure of a file is again one that reads its fields. -/
theorem outline_withoutSliceChecks (isFlat : Bool) (name kind : String)
    (parameters : List Parameter) :
    (machine c).outline (finish isFlat (procedure r name kind parameters blocks)).withoutSliceChecks =
      (machine c).outline
        (procedure r name kind parameters (blocks.map Stmt.withoutSliceChecks)) := by
  cases isFlat with
  | false =>
    change (machine c).outline (procedure r name kind parameters blocks).withoutSliceChecks = _
    rw [withoutSliceChecks_procedure]
  | true =>
    change (machine c).outline
      (procedure r name kind parameters blocks).flatten.withoutSliceChecks = _
    have hseparable : ∀ t ∈ blocks, ∃ body,
        t = .expr (.block none false body) false ∧ Separable body := by
      intro t ht
      obtain ⟨sub, body, hbody, rfl⟩ := decode_of_mem_blocks h ht
      exact ⟨body, rfl, separable_of_decode hbody⟩
    have hquiet : ∀ t ∈ blocks.map Stmt.withoutSliceChecks, (machine c).Quiet t := by
      intro t ht
      obtain ⟨block, hblock, rfl⟩ := List.mem_map.mp ht
      obtain ⟨sub, body, hbody, rfl⟩ := decode_of_mem_blocks h hblock
      exact Interpretation.quiet_block fun s hs =>
        Interpretation.quiet_decode hbody s ((dropSliceChecks_sublist body).subset hs)
    rw [withoutSliceChecks_flatten_procedure hseparable,
      (machine c).outline_flatten _ (Interpretation.orderly_procedure hquiet)]

end Decoder

section Run

variable {config : Config} {units : List CompilationUnit} {p : Progress}
  (h : compile config units = .ok p)

include h

/-- A generated file without its checks has the reading procedure of every record, without checks. -/
theorem declares_withoutSliceChecks {isFlat : Bool} {items : List Item}
    (hitems : (generate (p.compilation.against {}) isFlat).2 = .ok items) {r : RecordDecl}
    (hr : r ∈ named p.compilation) {e : RecordEntry}
    (hfind : p.compilation.registry.find? r.id = some e) :
    ∃ blocks,
      FieldBlocks (fun sub => sub.decode p.compilation.registry false sub.field.type) e.id e.fields
        blocks ∧
      Declares (items.map Item.withoutSliceChecks) e.id "read_binary"
        (blocks.map Stmt.withoutSliceChecks) := by
  obtain ⟨all, hall, rfl⟩ := generate_eq_ok hitems
  obtain ⟨i, hi, hmem⟩ := decoder_of_generated hall hr rfl
  obtain ⟨blocks, hblocks, rfl⟩ := decoder_eq_ok hi
  have hid : r.id = e.id := (Registry.id_of_find? hfind).symm
  have hfields : r.fields = e.fields.map (·.decl) := by
    obtain ⟨e', hfind', hfields⟩ := find?_of_named h hr
    rw [← hfields, Option.some.inj (hfind'.symm.trans hfind)]
  refine ⟨blocks, fieldBlocks_of_transferFields (hid ▸ hfind) (compile_wellFormed h hfind) hid hfields
    hblocks, ?_⟩
  rw [← hid]
  let parameters : List Parameter :=
    [.receiver true, .typed "buf" (.reference true (.bounded "Buf"))]
  have hfound : ∀ c, procedureOf r.id "read_binary" ((machine c).outline
      (finish isFlat (procedure r "read_binary" "DecodeError" parameters blocks)).withoutSliceChecks) =
        some (signatureOf r "read_binary" "DecodeError" parameters,
          runBlock c [boundary r.id "DecodeError" (blocks.map Stmt.withoutSliceChecks)]) := by
    intro c
    rw [outline_withoutSliceChecks hblocks, procedureOf_procedure, if_pos ⟨rfl, rfl⟩]
  refine ⟨signatureOf r "read_binary" "DecodeError" parameters, "DecodeError", rfl, fun c => ?_⟩
  rw [outlines_eq_map, List.map_map, List.map_map]
  refine findSome?_eq_some (List.mem_map_of_mem hmem) (hfound c) fun d hd b hb => ?_
  obtain ⟨i, hi', rfl⟩ := List.mem_map.mp hd
  have hsome : procedureOf r.id "read_binary" ((machine c).outline i) ≠ none := by
    intro hnone
    rw [← outline_finish hall isFlat hi'] at hnone
    rw [Function.comp_apply, Function.comp_apply, procedureOf_withoutSliceChecks hnone] at hb
    simp at hb
  rw [eq_of_procedureOf hall (fun r hr => isIdentifier_of_named h hr)
    (fun r hr r' hr' hid => fields_of_named h hr hr' hid) hr (Or.inl ⟨rfl, hi⟩) hi' hsome] at hb
  exact Option.some.inj (hb.symm.trans (hfound c))

/-- What the records of a self-contained run hold are records of it or variable-length integers. -/
theorem readable_of_selfContained (hs : SelfContained [Varint.path] (declared config units)) :
    Readable (named p.compilation) := by
  intro decl hdecl f hf path hpath
  obtain ⟨hsound, hcontains⟩ := compile_sound (by decide) h hs
  obtain ⟨e, he, hfields⟩ := find?_of_named h hdecl
  rw [← hfields] at hf
  obtain ⟨g, hg, rfl⟩ := List.mem_map.mp hf
  obtain ⟨before, after, hsplit⟩ := List.append_of_mem hg
  have hallowed : WireRecords.Allowed [Varint.path] ((declared config units).map (·.id)) path := by
    have hfield := (hsound he).field hsplit
    rw [Option.mem_def] at hpath
    generalize g.decl.type = type at hfield hpath
    cases hfield with
    | plain hplain _ =>
      have htarget : type.nested? = type.target? := by cases hplain <;> rfl
      exact hplain.of_target? (htarget ▸ hpath)
    | slice _ hplain _ => exact hplain.of_target? hpath
    | constant _ => simp [FieldType.nested?, FieldType.target?] at hpath
    | byteRun _ _ _ => simp [FieldType.nested?, FieldType.target?] at hpath
  obtain ⟨hname, hmem | hvarint⟩ := hallowed
  · obtain ⟨e', he'⟩ := Option.isSome_iff_exists.mp (hcontains path hmem)
    obtain ⟨decl', hdecl', rfl, _⟩ := compile_mem_of_find? h he'
    refine Or.inl (List.mem_map_of_mem (mem_named.mpr ⟨hdecl', ?_⟩))
    simpa [RecordDecl.isAnonymous] using hname
  · exact Or.inr (List.mem_singleton.mp hvarint)

end Run

/-- In every accepted self-contained run, the reading procedures of a generated file succeed on the
same inputs when the checks for slices are taken out of them, with the same value and the same bytes
left. These are the inputs that can be read. -/
theorem slice_checks_decide_nothing {config : Config} {units : List CompilationUnit} {p : Progress}
    (h : compile config units = .ok p)
    (hs : SelfContained [Varint.path] (declared config units)) {path : String}
    (hpath : path ∈ (named p.compilation).map (·.id)) {v : Value}
    (hv : v.fits p.compilation.registry (.nested path) = true) {isFlat : Bool} {items : List Item}
    (hitems : (generate (p.compilation.against {}) isFlat).2 = .ok items) (bytes : List UInt8)
    (w : Value) (rest : List UInt8) :
    (∀ n,
      runRead p.compilation.registry (items.map Item.withoutSliceChecks) n path v bytes =
          .ok ⟨w, rest, none⟩ ↔
        runRead p.compilation.registry items n path v bytes = .ok ⟨w, rest, none⟩) ∧
    ((∃ n, runRead p.compilation.registry (items.map Item.withoutSliceChecks) n path v bytes =
        .ok ⟨w, rest, none⟩) ↔
      read p.compilation.registry path v bytes = some ⟨w, rest, none⟩) := by
  have hcovers := covers_of_generated h hitems (readable_of_selfContained h hs)
  have hknown : path ∈ (named p.compilation).map (·.id) ∨ path = Varint.path := Or.inl hpath
  obtain ⟨hsound, _⟩ := compile_sound (by decide) h hs
  have hunchecked : ∀ path e, (path ∈ (named p.compilation).map (·.id) ∨ path = Varint.path) →
      p.compilation.registry.find? path = some e → ∃ blocks,
        FieldBlocks (fun sub => sub.decode p.compilation.registry false sub.field.type) e.id e.fields
          blocks ∧
        Declares (items.map Item.withoutSliceChecks) e.id "read_binary"
          (blocks.map Stmt.withoutSliceChecks) := by
    intro path e hpath he
    obtain hmem | rfl := hpath
    · obtain ⟨r, hr, rfl⟩ := List.mem_map.mp hmem
      exact declares_withoutSliceChecks h hitems hr he
    · simp [find?_varint h] at he
  have hsame : ∀ n,
      runRead p.compilation.registry (items.map Item.withoutSliceChecks) n path v bytes =
          .ok ⟨w, rest, none⟩ ↔
        runRead p.compilation.registry items n path v bytes = .ok ⟨w, rest, none⟩ := by
    intro n
    rw [runRead_unchecked hcovers hsound hunchecked hknown hv, runRead_eq hcovers hknown hv,
      ended_eq_ok_iff, ended_eq_ok_iff, readUnchecked_ok_iff hsound]
  refine ⟨hsame, ?_, fun hread => ?_⟩
  · rintro ⟨n, hrun⟩
    obtain ⟨q, hq, hagree⟩ := readTo_of_runRead hcovers hknown hv ((hsame n).mp hrun)
    rw [hagree.eq_of_ok rfl] at hq
    exact read_eq hcovers.determined hv hv hq
  · exact ⟨_, (hsame _).mpr (runRead_of_readTo hcovers hknown hv hread)⟩

theorem frames_generated : ∃ p ∈ (compile {} frames).toOption,
    ((generate (p.compilation.against {}) true).2.toOption).isSome = true ∧
      "Frame" ∈ (named p.compilation).map (·.id) ∧
      frame.fits p.compilation.registry (.nested "Frame") = true ∧
      (∃ q ∈ read p.compilation.registry "Frame" frame (frameBytes ++ [9]),
        q.rest = [9] ∧ q.error = none) ∧
      ∃ q ∈ read p.compilation.registry "Frame" frame (frameBytes.take 6), q.error ≠ none := by
  decide +kernel

/-- A frame is read with and without the checks; the beginning of one that ends within its slice is
read in neither way. -/
theorem slice_checks_decide_nothing_frame :
    ∃ p items w, compile {} frames = .ok p ∧
      SelfContained [Varint.path] (declared {} frames) ∧
      (generate (p.compilation.against {}) true).2 = .ok items ∧
      "Frame" ∈ (named p.compilation).map (·.id) ∧
      frame.fits p.compilation.registry (.nested "Frame") = true ∧
      (∃ n, runRead p.compilation.registry (items.map Item.withoutSliceChecks) n "Frame" frame
          (frameBytes ++ [9]) = .ok ⟨w, [9], none⟩ ∧
        runRead p.compilation.registry items n "Frame" frame (frameBytes ++ [9]) =
          .ok ⟨w, [9], none⟩) ∧
      ¬ ∃ n x rest, runRead p.compilation.registry (items.map Item.withoutSliceChecks) n "Frame"
        frame (frameBytes.take 6) = .ok ⟨x, rest, none⟩ := by
  obtain ⟨p, hp, hgenerated, hframe, hfits, ⟨⟨w, rest, error⟩, hread, hrest, herror⟩, q, hshort,
    hfails⟩ := frames_generated
  have h := compile_of_toOption hp
  obtain ⟨items, hsome⟩ := Option.isSome_iff_exists.mp hgenerated
  have hitems := ok_of_toOption hsome
  obtain rfl : rest = [9] := hrest
  obtain rfl : error = none := herror
  have hnothing := slice_checks_decide_nothing h frames_selfContained hframe hfits hitems
  obtain ⟨hsame, hreads⟩ := hnothing (frameBytes ++ [9]) w [9]
  obtain ⟨n, hrun⟩ := hreads.mpr hread
  refine ⟨p, items, w, h, frames_selfContained, hitems, hframe, hfits,
    ⟨n, hrun, (hsame n).mp hrun⟩, ?_⟩
  rintro ⟨n, x, rest, hrun⟩
  have hok := (hnothing (frameBytes.take 6) x rest).2.mp ⟨n, hrun⟩
  rw [Option.mem_def, hok, Option.some.injEq] at hshort
  exact hfails (hshort ▸ rfl)

end WireRecords.Execution
