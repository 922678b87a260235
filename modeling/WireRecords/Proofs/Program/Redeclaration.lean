import WireRecords.Host.Items
import WireRecords.Program.Tokens
import WireRecords.Proofs.Collision
import WireRecords.Proofs.Program.Spelling

/-!
# What is generated, seen as a host

A host that holds a generated file declares the records of the file. It declares them as they are
spelled there, and a compilation asks for them by their own names: so records are generated again
that are named by keywords, and no others.
-/
namespace WireRecords

namespace Program

/-! ### Outlines of generated items -/

/-- The name of a type that is given by a path: that of its last segment. -/
def Ty.name? : Ty → Option String
  | .path segments _ => segments.getLast?
  | _ => none

mutual

/-- What a host declares with an item. -/
def Item.outline? : Item → Option Host.Outline
  | .struct _ name _ => some (.type name)
  | .methods _ target functions => some (.methods target.name? (functions.map (·.1.name)))
  | .module _ items => some (.module (outlines items))
  | .imports .. | .constant .. | .function .. | .trait .. => none

/-- What a host declares that consists of items. -/
def outlines : List Item → List Host.Outline
  | [] => []
  | i :: is => i.outline?.toList ++ outlines is

end

/-- The symbols that are found where the tokens of items are read, with a grammar for forms that are
nested `depth` deep at most. -/
def readSymbols? (depth : Nat) (items : List Item) : Option (List Symbol) :=
  ((Host.Reader.untilEnd (Host.grammar depth).item).run ⟨tokensOfItems items, []⟩).map
    (Host.symbolsOf ·.1)

theorem names_flattenFunctions (fs : List (Signature × Block)) :
    (flattenFunctions fs).map (·.1.name) = fs.map (·.1.name) := by
  induction fs with
  | nil => simp [flattenFunctions]
  | cons f fs ih =>
    obtain ⟨signature, body⟩ := f
    simp [flattenFunctions, ih]

mutual

/-- A flat item declares the same. -/
theorem outline?_flatten : (i : Item) → i.flatten.outline? = i.outline?
  | .imports .. | .constant .. | .struct .. | .function .. | .trait .. => by
    simp [Item.flatten, Item.outline?]
  | .methods trait target functions => by
    simp [Item.flatten, Item.outline?, names_flattenFunctions]
  | .module name items => by
    simp [Item.flatten, Item.outline?, outlines_flatten items]

theorem outlines_flatten : (items : List Item) → outlines (flattenItems items) = outlines items
  | [] => by simp [flattenItems]
  | i :: is => by simp [flattenItems, outlines, outline?_flatten i, outlines_flatten is]

end

/-- The symbols that a host declares with an item. -/
def Item.symbols (i : Item) : List Symbol := i.outline?.toList.flatMap Host.Outline.symbols

theorem mem_symbols_outlines {items : List Item} {symbol : Symbol} :
    symbol ∈ Host.symbolsOf (outlines items) ↔ ∃ i ∈ items, symbol ∈ i.symbols := by
  induction items with
  | nil => simp [outlines, Host.symbolsOf]
  | cons i is ih =>
    have hhead : symbol ∈ Host.symbolsOf (i.outline?.toList ++ outlines is) ↔
        symbol ∈ i.symbols ∨ symbol ∈ Host.symbolsOf (outlines is) := by
      cases h : i.outline? with
      | none => simp [Item.symbols, h]
      | some o => simp [Item.symbols, h, Host.symbolsOf]
    rw [outlines, hhead, ih, List.exists_mem_cons_iff]

theorem symbols_declaration (r : RecordDecl) (origin : Option String) {symbol : Symbol} :
    (∃ i ∈ declaration r origin, symbol ∈ i.symbols) ↔ symbol = ⟨escape r.id, .type⟩ := by
  simp [declaration, Item.symbols, Item.outline?, Host.Outline.symbols, Ty.named, Ty.name?,
    Host.procedureOf?]

theorem name?_recordType {r : RecordDecl} (hid : IsIdentifier r.id) :
    (recordType r).name? = some (escape r.id) := by
  simp [recordType, Ty.name?, segments_of_isIdentifier hid]

theorem symbols_decoder {registry : Registry} {r : RecordDecl} (hid : IsIdentifier r.id) {i : Item}
    (h : decoder registry r = .ok i) : i.symbols = [⟨escape r.id, .decode⟩] := by
  obtain ⟨blocks, _, rfl⟩ := decoder_eq_ok h
  simp [procedure, Item.symbols, Item.outline?, name?_recordType hid, Host.Outline.symbols,
    Host.procedureOf?]

theorem symbols_encoder {registry : Registry} {r : RecordDecl} (hid : IsIdentifier r.id) {i : Item}
    (h : encoder registry r = .ok i) : i.symbols = [⟨escape r.id, .encode⟩] := by
  obtain ⟨blocks, _, rfl⟩ := encoder_eq_ok h
  simp [procedure, Item.symbols, Item.outline?, name?_recordType hid, Host.Outline.symbols,
    Host.procedureOf?]

theorem symbols_wire {r : RecordDecl} (hid : IsIdentifier r.id) :
    (wire r).symbols = [⟨escape r.id, .decode⟩, ⟨escape r.id, .encode⟩] := by
  simp [wire, Item.symbols, Item.outline?, name?_recordType hid, Host.Outline.symbols,
    Host.procedureOf?]

/-- A record is declared as it is spelled, as far as the host did not declare it. -/
theorem symbols_emitted {c : Compilation} {r : RecordDecl} (hr : r.Recorded c.registry)
    (hid : IsIdentifier r.id) {symbol : Symbol} :
    (∃ i, Emits c r i ∧ symbol ∈ i.symbols) ↔
      symbol.subject = escape r.id ∧ c.collisions.contains r.id symbol.kind = false := by
  constructor
  · intro h
    obtain ⟨i, hi, hsymbol⟩ := h
    cases hi with
    | type h hi =>
      rw [(symbols_declaration r (c.origin? r.id)).mp ⟨i, hi, hsymbol⟩]
      exact ⟨rfl, h⟩
    | decode h hi =>
      rw [symbols_decoder hid hi, List.mem_singleton] at hsymbol
      rw [hsymbol]
      exact ⟨rfl, h⟩
    | encode h hi =>
      rw [symbols_encoder hid hi, List.mem_singleton] at hsymbol
      rw [hsymbol]
      exact ⟨rfl, h⟩
    | wire hd he =>
      rw [symbols_wire hid, List.mem_pair] at hsymbol
      rcases hsymbol with rfl | rfl
      · exact ⟨rfl, hd⟩
      · exact ⟨rfl, he⟩
    | found h => simp [placeholder, Item.symbols, Item.outline?] at hsymbol
  · intro h
    obtain ⟨subject, kind⟩ := symbol
    obtain ⟨rfl, hkind⟩ := h
    cases kind with
    | type =>
      obtain ⟨i, hi, hsymbol⟩ := (symbols_declaration r (c.origin? r.id)).mpr rfl
      exact ⟨i, .type hkind hi, hsymbol⟩
    | decode =>
      obtain ⟨i, hi⟩ := decoder_total hr
      exact ⟨i, .decode hkind hi, by simp [symbols_decoder hid hi]⟩
    | encode =>
      obtain ⟨i, hi⟩ := encoder_total hr
      exact ⟨i, .encode hkind hi, by simp [symbols_encoder hid hi]⟩

theorem symbols_imports {symbol : Symbol} : ∀ i ∈ imports, symbol ∉ i.symbols := by
  simp [imports, Item.symbols, Item.outline?]

theorem symbols_helpers (c : Compilation) (records : List RecordDecl) {symbol : Symbol} :
    ∀ i ∈ helpers c records, symbol ∉ i.symbols := by
  intro i hi
  rw [eq_of_mem_helpers hi]
  simp [writePadded, Item.symbols, Item.outline?]

theorem outlines_generated {c : Compilation} {isFlat : Bool} {items : List Item}
    (h : (generate c isFlat).2 = .ok items) :
    ∃ all, (generateItems c).items = .ok all ∧ outlines items = outlines all := by
  obtain ⟨all, hall, _, rfl⟩ := generate_iff.mp h
  refine ⟨all, hall, ?_⟩
  cases isFlat with
  | false => rfl
  | true => exact outlines_flatten all

/-- What a host declares that holds a generated file. -/
theorem symbols_generated {c : Compilation} (hrecorded : ∀ r ∈ named c, r.Recorded c.registry)
    (hids : ∀ r ∈ named c, IsIdentifier r.id) {isFlat : Bool} {items : List Item}
    (h : (generate c isFlat).2 = .ok items) {symbol : Symbol} :
    symbol ∈ Host.symbolsOf (outlines items) ↔ ∃ r ∈ named c, symbol.subject = escape r.id ∧
      c.collisions.contains r.id symbol.kind = false := by
  obtain ⟨all, hall, houtlines⟩ := outlines_generated h
  rw [houtlines, mem_symbols_outlines]
  constructor
  · intro hsymbol
    obtain ⟨i, hi, hsymbol⟩ := hsymbol
    obtain himport | ⟨r, hr, hemits⟩ | hhelper := (mem_generateItems hall i).mp hi
    · exact absurd hsymbol (symbols_imports i himport)
    · exact ⟨r, hr, (symbols_emitted (hrecorded r hr) (hids r hr)).mp ⟨i, hemits, hsymbol⟩⟩
    · exact absurd hsymbol (symbols_helpers c (named c) i hhelper)
  · intro hsymbol
    obtain ⟨r, hr, hsymbol⟩ := hsymbol
    obtain ⟨i, hemits, hmem⟩ := (symbols_emitted (hrecorded r hr) (hids r hr)).mpr hsymbol
    exact ⟨i, (mem_generateItems hall i).mpr (Or.inr (Or.inl ⟨r, hr, hemits⟩)), hmem⟩

/-- The declarations of a host that consists of items. -/
def declaredBy (provenance : String) (items : List Item) : CollisionSet :=
  (CollisionSet.detect (fun _ => false) (Host.declarations provenance (outlines items))).1

theorem contains_declaredBy {provenance : String} {items : List Item} {subject : String}
    {kind : SymbolKind} : (declaredBy provenance items).contains subject kind = true ↔
      ⟨subject, kind⟩ ∈ Host.symbolsOf (outlines items) := by
  simp [declaredBy, CollisionSet.contains_detect, Host.declarations]

end Program

open Program

/-- A host that declares more leaves less to be spelled. -/
theorem RecordDecl.Spellable.of_empty {r : RecordDecl} (h : r.Spellable {}) (s : CollisionSet) :
    r.Spellable s :=
  ⟨fun _ => h.declared rfl, fun kind _ => h.selected kind rfl⟩

theorem regenerated_iff_keyword {config : Config} {units : List CompilationUnit} {p : Progress}
    (h : compile config units = .ok p) {isFlat : Bool} {items : List Item}
    (hitems : (generate (p.compilation.against {}) isFlat).2 = .ok items) (provenance : String)
    (isFlatAgain : Bool) :
    (∀ r ∈ named p.compilation, ∀ kind,
      (declaredBy provenance items).contains r.id kind = true ↔ r.id ∉ keywords) ∧
    ∃ again,
      (generate (p.compilation.against (declaredBy provenance items)) isFlatAgain).2 = .ok again ∧
      ∀ symbol, symbol ∈ Host.symbolsOf (outlines again) ↔
        ∃ r ∈ named p.compilation, r.id ∈ keywords ∧ symbol.subject = escape r.id := by
  have hrecorded : ∀ r ∈ named p.compilation, r.Recorded p.compilation.registry :=
    fun r hr => (compile_named h r hr).1
  have hnames : ∀ r ∈ named p.compilation, IsIdentifier r.id ∧ r.id ≠ anonymous :=
    fun r hr => (compile_named h r hr).2
  have hsymbols : ∀ {s : CollisionSet} {isFlat : Bool} {items : List Item},
      (generate (p.compilation.against s) isFlat).2 = .ok items → ∀ symbol,
        symbol ∈ Host.symbolsOf (outlines items) ↔ ∃ r ∈ named p.compilation,
          symbol.subject = escape r.id ∧ s.contains r.id symbol.kind = false := by
    intro s isFlat items hok symbol
    exact symbols_generated (c := p.compilation.against s) hrecorded
      (fun r hr => (hnames r hr).1) hok
  have hcontains : ∀ r ∈ named p.compilation, ∀ kind,
      (declaredBy provenance items).contains r.id kind = true ↔ r.id ∉ keywords := by
    intro r hr kind
    rw [contains_declaredBy, hsymbols hitems]
    constructor
    · intro hfound
      obtain ⟨r', _, hspelled, _⟩ := hfound
      have hid : r.id = escape r'.id := hspelled
      rw [hid]
      exact escape_notMem_keywords r'.id
    · intro hplain
      exact ⟨r, hr, by simp [escape, hplain], rfl⟩
  have hspellable : ∀ r ∈ named p.compilation, r.Spellable {} :=
    (generate_ok_iff (c := p.compilation.against {}) hrecorded hnames isFlat).mp ⟨items, hitems⟩
  obtain ⟨again, hagain⟩ := (generate_ok_iff
    (c := p.compilation.against (declaredBy provenance items)) hrecorded hnames isFlatAgain).mpr
    fun r hr => (hspellable r hr).of_empty _
  refine ⟨hcontains, again, hagain, fun symbol => ?_⟩
  have hfree : ∀ r ∈ named p.compilation,
      (declaredBy provenance items).contains r.id symbol.kind = false ↔ r.id ∈ keywords := by
    intro r hr
    rw [← Bool.not_eq_true, hcontains r hr symbol.kind, not_not]
  rw [hsymbols hagain]
  constructor
  · intro hsymbol
    obtain ⟨r, hr, hspelled, hundeclared⟩ := hsymbol
    exact ⟨r, hr, (hfree r hr).mp hundeclared, hspelled⟩
  · intro hsymbol
    obtain ⟨r, hr, hkeyword, hspelled⟩ := hsymbol
    exact ⟨r, hr, hspelled, (hfree r hr).mpr hkeyword⟩

/-- A record is named by a keyword. -/
def keywordRecord : List CompilationUnit := [.inline "keyword" ["type a[1]"]]

theorem keywordRecord_run : ∃ p ∈ (compile {} keywordRecord).toOption,
    ∃ items ∈ (generate (p.compilation.against {}) true).2.toOption,
    ∃ again ∈
      (generate (p.compilation.against (declaredBy "host.rs" items)) true).2.toOption,
      readSymbols? 40 items = some (Host.symbolsOf (outlines items)) ∧
      (declaredBy "host.rs" items).contains "type" .type = false ∧
      Host.symbolsOf (outlines again) = Host.symbolsOf (outlines items) := by
  decide +kernel

/-- All that a host declares of the record is generated again. -/
theorem keyword_record_generated_again :
    ∃ p items again, compile {} keywordRecord = .ok p ∧
      (generate (p.compilation.against {}) true).2 = .ok items ∧
      readSymbols? 40 items = some (Host.symbolsOf (outlines items)) ∧
      (declaredBy "host.rs" items).contains "type" .type = false ∧
      (generate (p.compilation.against (declaredBy "host.rs" items)) true).2 = .ok again ∧
      Host.symbolsOf (outlines again) = Host.symbolsOf (outlines items) := by
  obtain ⟨p, hp, items, hitems, again, hagain, hread, hfree, hsymbols⟩ := keywordRecord_run
  exact ⟨p, items, again, compile_of_toOption hp, ok_of_toOption hitems, hread, hfree,
    ok_of_toOption hagain, hsymbols⟩

/-- One record is named by a keyword, one by a name of its own, and one has no name. -/
def mixedRecords : List CompilationUnit :=
  [.inline "mixed" ["type a[1]", "Node n[2] data[n] at[, *type]", "b[4]"]]

theorem mixedRecords_run : ∃ p ∈ (compile {} mixedRecords).toOption,
    ∃ items ∈ (generate (p.compilation.against {}) true).2.toOption,
      (named p.compilation).map (·.id) = ["type", "Node"] ∧
        (Host.symbolsOf (outlines items)).length = 10 ∧
        readSymbols? 40 items = some (Host.symbolsOf (outlines items)) := by
  decide +kernel

theorem regenerated_iff_keyword_mixed :
    ∃ p items again, compile {} mixedRecords = .ok p ∧
      (generate (p.compilation.against {}) true).2 = .ok items ∧
      (Host.symbolsOf (outlines items)).length = 10 ∧
      readSymbols? 40 items = some (Host.symbolsOf (outlines items)) ∧
      (generate (p.compilation.against (declaredBy "host.rs" items)) false).2 = .ok again ∧
      ∀ symbol ∈ Host.symbolsOf (outlines again), symbol.subject = "r#type" := by
  obtain ⟨p, hp, items, hitems, hids, hlength, hread⟩ := mixedRecords_run
  obtain ⟨_, again, hagain, hsymbols⟩ :=
    regenerated_iff_keyword (compile_of_toOption hp) (ok_of_toOption hitems) "host.rs" false
  refine ⟨p, items, again, compile_of_toOption hp, ok_of_toOption hitems, hlength, hread, hagain, ?_⟩
  intro symbol hsymbol
  obtain ⟨r, hr, hkeyword, hspelled⟩ := (hsymbols symbol).mp hsymbol
  have hid : r.id ∈ ["type", "Node"] := hids ▸ List.mem_map_of_mem hr
  have hplain : "Node" ∉ keywords := by decide
  rcases List.mem_pair.mp hid with htype | hnode
  · rw [hspelled, htype]
    decide
  · exact absurd (hnode ▸ hkeyword) hplain

end WireRecords
