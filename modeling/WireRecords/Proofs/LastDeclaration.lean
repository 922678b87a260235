import WireRecords.Host.Scan
import WireRecords.Proofs.Collision
import WireRecords.Proofs.Compilation

/-!
# The last declaration counts

Units and files may declare a symbol again and again. A compilation answers for it with the last
unit that has it, and a host with the last of its files that declares it and is not generated.
-/
namespace WireRecords

/-! ### The last of a list -/

/-- `x` stands in `xs`, has the property, and nothing behind it has. -/
def LastWith {α : Type} (p : α → Prop) (xs : List α) (x : α) : Prop :=
  ∃ before after, xs = before ++ x :: after ∧ p x ∧ ∀ y ∈ after, ¬ p y

theorem not_lastWith_nil {α : Type} {p : α → Prop} {x : α} : ¬ LastWith p [] x := by
  rintro ⟨before, after, h, _⟩
  simp at h

theorem lastWith_concat {α : Type} {p : α → Prop} {xs : List α} {x y : α} :
    LastWith p (xs ++ [y]) x ↔ p y ∧ x = y ∨ ¬ p y ∧ LastWith p xs x := by
  constructor
  · rintro ⟨before, after, h, hx, hafter⟩
    rcases List.eq_nil_or_concat' after with rfl | ⟨after, z, rfl⟩
    · obtain ⟨rfl, rfl⟩ := List.append_singleton_inj.mp h
      exact Or.inl ⟨hx, rfl⟩
    · rw [← List.cons_append, ← List.append_assoc] at h
      obtain ⟨rfl, rfl⟩ := List.append_singleton_inj.mp h
      exact Or.inr ⟨hafter y (by simp), before, after, rfl, hx, fun z hz => hafter z (by simp [hz])⟩
  · rintro (⟨hy, rfl⟩ | ⟨hy, before, after, rfl, hx, hafter⟩)
    · exact ⟨xs, [], rfl, hy, by simp⟩
    · refine ⟨before, after ++ [y], by simp, hx, fun z hz => ?_⟩
      rcases List.mem_append.mp hz with hz | hz
      · exact hafter z hz
      · exact List.mem_singleton.mp hz ▸ hy

theorem exists_lastWith {α : Type} {p : α → Prop} {xs : List α} :
    (∃ x, LastWith p xs x) ↔ ∃ x ∈ xs, p x := by
  induction xs using List.reverseRecOn with
  | nil => simp [not_lastWith_nil]
  | append_singleton xs y ih =>
    by_cases hy : p y
    · exact iff_of_true ⟨y, lastWith_concat.mpr (Or.inl ⟨hy, rfl⟩)⟩ ⟨y, by simp, hy⟩
    · simp [lastWith_concat, hy, ih, or_and_right, exists_or]

/-! ### Units -/

namespace Progress

theorem addDirective_collisions {config : Config} {unit : String} {p q : Progress}
    {line : DirectiveLine} (h : p.addDirective config unit line = .ok q) :
    q.compilation.collisions = p.compilation.collisions := by
  simp only [addDirective] at h
  split at h
  · simp at h
  · split at h
    · exact Except.ok.inj h ▸ rfl
    · split at h
      · simp at h
      · simp at h
      · exact Except.ok.inj h ▸ rfl

theorem addDirectives_collisions {config : Config} {unit : String} {p q : Progress}
    {lines : List DirectiveLine} (h : p.addDirectives config unit lines = .ok q) :
    q.compilation.collisions = p.compilation.collisions := by
  induction lines generalizing p with
  | nil => exact Except.ok.inj h ▸ rfl
  | cons line lines ih =>
    simp only [addDirectives] at h
    split at h
    · rename_i next hd
      exact (ih h).trans (addDirective_collisions hd)
    · simp at h

theorem addUnit_collisions {config : Config} {p q : Progress} {u : CompilationUnit}
    (h : p.addUnit config u = .ok q) :
    q.compilation.collisions = (p.compilation.collisions.merge u.collisions).1 := by
  simp only [addUnit] at h
  split at h
  · simp at h
  · rename_i next hd
    have hsame := addDirectives_collisions hd
    rw [← Except.ok.inj h]
    exact congrArg (fun s => (s.merge u.collisions).1) hsame

end Progress

/-- The collisions of units, merged in order into those that are known. -/
def mergeUnits (s : CollisionSet) (units : List CompilationUnit) : CollisionSet :=
  units.foldl (fun s u => (s.merge u.collisions).1) s

theorem Progress.addUnits_collisions {config : Config} {p q : Progress}
    {units : List CompilationUnit} (h : p.addUnits config units = .ok q) :
    q.compilation.collisions = mergeUnits p.compilation.collisions units := by
  induction units generalizing p with
  | nil => exact Except.ok.inj h ▸ rfl
  | cons u units ih =>
    simp only [addUnits] at h
    split at h
    · rename_i next hu
      rw [ih h, addUnit_collisions hu]
      rfl
    · simp at h

theorem compile_collisions {config : Config} {units : List CompilationUnit} {p : Progress}
    (h : compile config units = .ok p) :
    p.compilation.collisions = mergeUnits {} units := by
  unfold compile at h
  split at h
  · simp at h
  · rename_i q hq
    rw [← Except.ok.inj h, ← Progress.addUnits_collisions hq]
    split <;> rfl

theorem mergeUnits_concat (s : CollisionSet) (units : List CompilationUnit) (u : CompilationUnit) :
    mergeUnits s (units ++ [u]) = ((mergeUnits s units).merge u.collisions).1 := by
  simp [mergeUnits]

theorem ordered_mergeUnits (units : List CompilationUnit) : (mergeUnits {} units).Ordered := by
  induction units using List.reverseRecOn with
  | nil => exact CollisionSet.ordered_empty
  | append_singleton units u ih =>
    rw [mergeUnits_concat]
    exact ih.insertAll _

theorem contains_mergeUnits {units : List CompilationUnit} {subject : String} {kind : SymbolKind} :
    (mergeUnits {} units).contains subject kind = true ↔
      ∃ u ∈ units, u.collisions.contains subject kind = true := by
  induction units using List.reverseRecOn with
  | nil => simp [mergeUnits, CollisionSet.contains, CollisionSet.provenance?_empty]
  | append_singleton units u ih =>
    rw [mergeUnits_concat, CollisionSet.merge, CollisionSet.contains_insertAll, ih,
      ← CollisionSet.contains_iff]
    simp [or_and_right, exists_or]

theorem provenance?_mergeUnits {units : List CompilationUnit}
    (h : ∀ u ∈ units, u.collisions.Ordered) {subject provenance : String} {kind : SymbolKind} :
    (mergeUnits {} units).provenance? subject kind = some provenance ↔
      ∃ u, LastWith (fun u => u.collisions.contains subject kind = true) units u ∧
        u.collisions.provenance? subject kind = some provenance := by
  induction units using List.reverseRecOn with
  | nil => simp [mergeUnits, CollisionSet.provenance?_empty, not_lastWith_nil]
  | append_singleton units u ih =>
    have hu : u.collisions.Ordered := h u (by simp)
    rw [mergeUnits_concat, hu.provenance?_merge]
    simp only [lastWith_concat]
    cases hp : u.collisions.provenance? subject kind with
    | none =>
      have hc : u.collisions.contains subject kind = false :=
        CollisionSet.contains_eq_false_iff.mpr hp
      simpa [hc] using ih fun v hv => h v (by simp [hv])
    | some own =>
      have hc : u.collisions.contains subject kind = true := by simp [CollisionSet.contains, hp]
      simp [hc, hp]

/-! ### Files -/

namespace Host

/-- What an item declares: a type of its own name, the procedures among the methods of a named type,
and what is declared in a module. -/
inductive Outline.Declares : Outline → Symbol → Prop
  | type {name : String} : Declares (.type name) ⟨name, .type⟩
  | method {target method : String} {names : List String} {kind : SymbolKind}
      (mem : method ∈ names) (procedure : procedureOf? method = some kind) :
      Declares (.methods (some target) names) ⟨target, kind⟩
  | module {items : List Outline} {item : Outline} {symbol : Symbol} (mem : item ∈ items)
      (declares : item.Declares symbol) : Declares (.module items) symbol

mutual

theorem Outline.mem_symbols {symbol : Symbol} :
    (item : Outline) → (symbol ∈ item.symbols ↔ item.Declares symbol)
  | .type name => by
    constructor
    · intro h
      obtain rfl := List.mem_singleton.mp h
      exact .type
    · intro h
      cases h with
      | type => exact List.mem_singleton.mpr rfl
  | .methods none names => by
    constructor
    · intro h
      simp [Outline.symbols] at h
    · intro h
      cases h
  | .methods (some target) names => by
    constructor
    · intro h
      simp only [Outline.symbols, List.mem_filterMap, Option.map_eq_some_iff] at h
      obtain ⟨method, hmem, kind, hkind, rfl⟩ := h
      exact .method hmem hkind
    · intro h
      cases h with
      | method hmem hkind =>
        simp only [Outline.symbols, List.mem_filterMap, Option.map_eq_some_iff]
        exact ⟨_, hmem, _, hkind, rfl⟩
  | .module items => by
    rw [Outline.symbols, mem_symbolsOf items]
    constructor
    · rintro ⟨item, hmem, hdeclares⟩
      exact .module hmem hdeclares
    · intro h
      cases h with
      | module hmem hdeclares => exact ⟨_, hmem, hdeclares⟩

theorem mem_symbolsOf {symbol : Symbol} :
    (items : List Outline) → (symbol ∈ symbolsOf items ↔ ∃ item ∈ items, item.Declares symbol)
  | [] => by simp [symbolsOf]
  | item :: items => by
    simp [symbolsOf, Outline.mem_symbols item, mem_symbolsOf items]

end

/-- The file at a path can be read, and is a program with these items. -/
def Holds (lookup : Lookup) (path : String) (items : List Outline) : Prop :=
  ∃ text, lookup path = .ok text ∧ outlines? text = some items

/-- The file at a path is a program that declares the symbol. -/
def DeclaredAt (lookup : Lookup) (symbol : Symbol) (path : String) : Prop :=
  ∃ items, Holds lookup path items ∧ ∃ item ∈ items, item.Declares symbol

theorem scanFile_eq_ok {lookup : Lookup} {path : String} {ds : List Declaration} :
    scanFile lookup path = .ok ds ↔
      ∃ items, Holds lookup path items ∧ ds = declarations path items := by
  simp only [scanFile, Holds]
  cases hl : lookup path with
  | error e => simp
  | ok text =>
    cases ho : outlines? text with
    | none => simp [ho]
    | some items => simp [ho, eq_comm]

theorem scan_cons {lookup : Lookup} {path : String} {paths : List String} {ds : List Declaration} :
    scan lookup (path :: paths) = .ok ds ↔
      ∃ es fs, scanFile lookup path = .ok es ∧ scan lookup paths = .ok fs ∧ ds = es ++ fs := by
  simp only [scan]
  cases scanFile lookup path with
  | error e => simp
  | ok es => cases scan lookup paths <;> simp [eq_comm]

theorem scan_append {lookup : Lookup} {paths more : List String} {ds : List Declaration} :
    scan lookup (paths ++ more) = .ok ds ↔
      ∃ es fs, scan lookup paths = .ok es ∧ scan lookup more = .ok fs ∧ ds = es ++ fs := by
  induction paths generalizing ds with
  | nil => simp [scan]
  | cons path paths ih =>
    simp only [List.cons_append, scan_cons, ih]
    constructor
    · rintro ⟨es, _, hes, ⟨fs, gs, hfs, hgs, rfl⟩, rfl⟩
      exact ⟨es ++ fs, gs, ⟨es, fs, hes, hfs, rfl⟩, hgs, (List.append_assoc es fs gs).symm⟩
    · rintro ⟨_, gs, ⟨es, fs, hes, hfs, rfl⟩, hgs, rfl⟩
      exact ⟨es, fs ++ gs, hes, ⟨fs, gs, hfs, hgs, rfl⟩, List.append_assoc es fs gs⟩

theorem exists_scan {lookup : Lookup} {paths : List String}
    (h : ∀ path ∈ paths, ∃ items, Holds lookup path items) : ∃ ds, scan lookup paths = .ok ds := by
  induction paths with
  | nil => exact ⟨[], rfl⟩
  | cons path paths ih =>
    obtain ⟨items, hitems⟩ := h path List.mem_cons_self
    obtain ⟨ds, hds⟩ := ih fun p hp => h p (List.mem_cons_of_mem path hp)
    exact ⟨_, scan_cons.mpr ⟨_, ds, scanFile_eq_ok.mpr ⟨items, hitems, rfl⟩, hds, rfl⟩⟩

theorem filter_declarations (suffix path : String) (items : List Outline) :
    (declarations path items).filter (fun d => !isGenerated suffix d.provenance) =
      if isGenerated suffix path then [] else declarations path items := by
  cases hg : isGenerated suffix path <;> simp [declarations, List.filter_map, Function.comp_def, hg]

/-- What generated files declare is what is left out when the declarations of files are used. -/
theorem scan_filter {lookup : Lookup} {paths : List String} {ds : List Declaration}
    (suffix : String) (h : scan lookup paths = .ok ds) :
    scan lookup (paths.filter (!isGenerated suffix ·)) =
      .ok (ds.filter fun d => !isGenerated suffix d.provenance) := by
  induction paths generalizing ds with
  | nil => exact Except.ok.inj h ▸ rfl
  | cons path paths ih =>
    obtain ⟨es, fs, hes, hfs, rfl⟩ := scan_cons.mp h
    obtain ⟨items, _, rfl⟩ := scanFile_eq_ok.mp hes
    rw [List.filter_append, filter_declarations]
    cases hg : isGenerated suffix path with
    | true => simpa [hg] using ih hfs
    | false =>
      simp only [hg, Bool.not_false, List.filter_cons_of_pos, scan_cons]
      exact ⟨_, _, hes, ih hfs, by simp⟩

/-- Files that differ in generated ones only declare the same set. -/
theorem detect_eq_of_filter_eq {lookup : Lookup} {suffix : String} {paths others : List String}
    {ds es : List Declaration} (hds : scan lookup paths = .ok ds)
    (hes : scan lookup others = .ok es)
    (h : others.filter (!isGenerated suffix ·) = paths.filter (!isGenerated suffix ·)) :
    (CollisionSet.detect (isGenerated suffix) es).1 =
      (CollisionSet.detect (isGenerated suffix) ds).1 := by
  have hkept := scan_filter suffix hes
  rw [h, scan_filter suffix hds, Except.ok.injEq] at hkept
  rw [CollisionSet.detect_eq, CollisionSet.detect_eq, hkept]

theorem Holds.unique {lookup : Lookup} {path : String} {items others : List Outline}
    (h : Holds lookup path items) (g : Holds lookup path others) : items = others := by
  obtain ⟨text, hl, ho⟩ := h
  obtain ⟨text', gl, go⟩ := g
  obtain rfl := Except.ok.inj (hl.symm.trans gl)
  exact Option.some.inj (ho.symm.trans go)

theorem Holds.declaredAt_iff {lookup : Lookup} {path : String} {items : List Outline}
    {symbol : Symbol} (h : Holds lookup path items) :
    DeclaredAt lookup symbol path ↔ symbol ∈ symbolsOf items := by
  rw [mem_symbolsOf]
  constructor
  · rintro ⟨others, hothers, hdeclares⟩
    exact h.unique hothers ▸ hdeclares
  · exact fun hdeclares => ⟨items, h, hdeclares⟩

/-- One more file: its symbols are found there, unless it is generated. -/
theorem provenance?_detect_concat (suffix path : String) (ds : List Declaration)
    (items : List Outline) (subject : String) (kind : SymbolKind) :
    (CollisionSet.detect (isGenerated suffix) (ds ++ declarations path items)).1.provenance?
        subject kind =
      if isGenerated suffix path = false ∧ ⟨subject, kind⟩ ∈ symbolsOf items then some path
      else (CollisionSet.detect (isGenerated suffix) ds).1.provenance? subject kind := by
  simp only [CollisionSet.detect_eq, List.filter_append, CollisionSet.insertAll_append,
    filter_declarations]
  cases hg : isGenerated suffix path with
  | true => simp [CollisionSet.insertAll]
  | false =>
    simp only [Bool.false_eq_true, if_false, true_and]
    exact CollisionSet.provenance?_insertAll_map _ (symbolsOf items) path subject kind

/-- A file that counts for a symbol: it declares the symbol and is not generated. -/
def Counts (lookup : Lookup) (suffix : String) (symbol : Symbol) (path : String) : Prop :=
  isGenerated suffix path = false ∧ DeclaredAt lookup symbol path

theorem provenance?_detect_scan {lookup : Lookup} {paths : List String} {ds : List Declaration}
    (suffix : String) (h : scan lookup paths = .ok ds) {subject path : String} {kind : SymbolKind} :
    (CollisionSet.detect (isGenerated suffix) ds).1.provenance? subject kind = some path ↔
      LastWith (Counts lookup suffix ⟨subject, kind⟩) paths path := by
  induction paths using List.reverseRecOn generalizing ds with
  | nil =>
    obtain rfl := Except.ok.inj h
    exact iff_of_false (by simp [CollisionSet.detect_eq, CollisionSet.insertAll,
      CollisionSet.provenance?_empty]) not_lastWith_nil
  | append_singleton paths last ih =>
    obtain ⟨es, _, hes, hlast, rfl⟩ := scan_append.mp h
    obtain ⟨fs, _, hfs, hnil, rfl⟩ := scan_cons.mp hlast
    obtain rfl := Except.ok.inj hnil
    obtain ⟨items, hitems, rfl⟩ := scanFile_eq_ok.mp hfs
    have hcounts : Counts lookup suffix ⟨subject, kind⟩ last ↔
        isGenerated suffix last = false ∧ ⟨subject, kind⟩ ∈ symbolsOf items := by
      rw [Counts, hitems.declaredAt_iff]
    rw [List.append_nil, provenance?_detect_concat, lastWith_concat, ← ih hes]
    by_cases hc : Counts lookup suffix ⟨subject, kind⟩ last
    · rw [if_pos (hcounts.mp hc), Option.some.injEq]
      simpa [hc] using eq_comm
    · simp [if_neg (mt hcounts.mpr hc), hc]

end Host

/-! ### What is answered -/

/-- A set answers for every symbol with the last unit that has it, and has the symbols of all. -/
structure ResolvesUnits (units : List CompilationUnit) (s : CollisionSet) : Prop where
  ordered : s.Ordered
  found : ∀ subject kind provenance, s.provenance? subject kind = some provenance ↔
    ∃ u, LastWith (fun u => u.collisions.contains subject kind = true) units u ∧
      u.collisions.provenance? subject kind = some provenance
  missing : ∀ subject kind, s.provenance? subject kind = none ↔
    ∀ u ∈ units, u.collisions.contains subject kind = false
  size : s.size =
    {x : Symbol | ∃ u ∈ units, u.collisions.contains x.subject x.kind = true}.ncard

/-- A set answers for every symbol with the last file that declares it and is not generated. -/
structure ResolvesFiles (lookup : Host.Lookup) (suffix : String) (paths : List String)
    (s : CollisionSet) : Prop where
  ordered : s.Ordered
  found : ∀ subject kind path, s.provenance? subject kind = some path ↔
    LastWith (Host.Counts lookup suffix ⟨subject, kind⟩) paths path
  missing : ∀ subject kind, s.provenance? subject kind = none ↔
    ∀ path ∈ paths, ¬ Host.Counts lookup suffix ⟨subject, kind⟩ path

theorem resolvesUnits_mergeUnits {units : List CompilationUnit}
    (h : ∀ u ∈ units, u.collisions.Ordered) : ResolvesUnits units (mergeUnits {} units) where
  ordered := ordered_mergeUnits units
  found _ _ _ := provenance?_mergeUnits h
  missing subject kind := by
    rw [← CollisionSet.contains_eq_false_iff, ← Bool.not_eq_true, contains_mergeUnits]
    simp
  size := by
    rw [(ordered_mergeUnits units).size_eq]
    simp only [contains_mergeUnits]

theorem resolvesFiles_detect {lookup : Host.Lookup} {paths : List String} {ds : List Declaration}
    (suffix : String) (h : Host.scan lookup paths = .ok ds) :
    ResolvesFiles lookup suffix paths (CollisionSet.detect (Host.isGenerated suffix) ds).1 where
  ordered := CollisionSet.ordered_detect _ ds
  found _ _ _ := Host.provenance?_detect_scan suffix h
  missing subject kind := by
    rw [Option.eq_none_iff_forall_ne_some]
    simp only [ne_eq, Host.provenance?_detect_scan suffix h, ← not_exists, exists_lastWith]
    simp

/-- The last relevant declaration of a symbol is the one that a set answers with: over units the
last unit that has the symbol, over files the last file that declares it and is not generated. Two
lists of files that differ in generated files only have the same set. -/
theorem collisions_resolve_to_last :
    (∀ config units p, compile config units = .ok p → (∀ u ∈ units, u.collisions.Ordered) →
      ResolvesUnits units p.compilation.collisions) ∧
    (∀ lookup suffix paths, (∀ path ∈ paths, ∃ items, Host.Holds lookup path items) →
      ∃ s journal, Host.collisions lookup suffix paths = .ok (s, journal) ∧
        ResolvesFiles lookup suffix paths s ∧
        ∀ others, (∀ path ∈ others, ∃ items, Host.Holds lookup path items) →
          others.filter (!Host.isGenerated suffix ·) = paths.filter (!Host.isGenerated suffix ·) →
          ∃ remarks, Host.collisions lookup suffix others = .ok (s, remarks)) := by
  constructor
  · intro config units p h hordered
    rw [compile_collisions h]
    exact resolvesUnits_mergeUnits hordered
  · intro lookup suffix paths hpaths
    obtain ⟨ds, hds⟩ := Host.exists_scan hpaths
    refine ⟨_, _, by rw [Host.collisions, hds], resolvesFiles_detect suffix hds, ?_⟩
    intro others hothers hsame
    obtain ⟨es, hes⟩ := Host.exists_scan hothers
    refine ⟨(CollisionSet.detect (Host.isGenerated suffix) es).2, ?_⟩
    rw [Host.collisions, hes, ← Host.detect_eq_of_filter_eq hds hes hsame]

/-- Units of which two have declared a type, and the last has nothing. -/
def rivals : List CompilationUnit :=
  [.inline "a" ["Foo x[1]"] ⟨[⟨⟨"Foo", .type⟩, "a.rs"⟩, ⟨⟨"Foo", .decode⟩, "a.rs"⟩]⟩,
    .inline "b" [] ⟨[⟨⟨"Foo", .type⟩, "b.rs"⟩]⟩, .inline "c" ["Bar y[2]"]]

theorem rivals_run : ∃ p ∈ (compile {} rivals).toOption,
    (∀ u ∈ rivals, u.collisions.Ordered) ∧ p.compilation.collisions.size = 2 ∧
      p.compilation.collisions.provenance? "Foo" .type = some "b.rs" := by
  decide +kernel

/-- Files that all declare one type. The generated one declares another type as well. -/
def rivalFiles : Host.Lookup := fun path =>
  if path = "a_w" then .ok "struct Foo; struct Bar;" else .ok "mod m { enum Foo {} }"

theorem rivalFiles_outlines :
    (∃ items ∈ Host.outlines? "mod m { enum Foo {} }", Host.symbolsOf items = [⟨"Foo", .type⟩]) ∧
      (Host.outlines? "struct Foo; struct Bar;").isSome = true := by
  decide +kernel

theorem isGenerated_rivals : Host.isGenerated "_w" "a" = false ∧
    Host.isGenerated "_w" "b" = false ∧ Host.isGenerated "_w" "a_w" = true :=
  ⟨by cbv, by cbv, by cbv⟩

/-- The second of three units and of three files is answered with, as the third unit has nothing and
the third file is generated. -/
theorem collisions_resolve_to_last_rivals :
    (∃ p, compile {} rivals = .ok p ∧
      p.compilation.collisions.provenance? "Foo" .type = some "b.rs" ∧
      (∃ u, LastWith (fun u => u.collisions.contains "Foo" .type = true) rivals u ∧
        u.collisions.provenance? "Foo" .type = some "b.rs") ∧
      {x : Symbol | ∃ u ∈ rivals, u.collisions.contains x.subject x.kind = true}.ncard = 2) ∧
    ∃ s journal, Host.collisions rivalFiles "_w" ["a", "b", "a_w"] = .ok (s, journal) ∧
      s.provenance? "Foo" .type = some "b" ∧ s.provenance? "Bar" .type = none ∧
      ∃ remarks, Host.collisions rivalFiles "_w" ["a", "b"] = .ok (s, remarks) := by
  obtain ⟨hunits, hfiles⟩ := collisions_resolve_to_last
  constructor
  · obtain ⟨p, hp, hordered, hsize, hfound⟩ := rivals_run
    have hall := hunits {} rivals p (compile_of_toOption hp) hordered
    exact ⟨p, compile_of_toOption hp, hfound, (hall.found _ _ _).mp hfound, hall.size ▸ hsize⟩
  · obtain ⟨⟨items, hitems, hsymbols⟩, hgenerated⟩ := rivalFiles_outlines
    obtain ⟨others, hothers⟩ := Option.isSome_iff_exists.mp hgenerated
    obtain ⟨ha, hb, hw⟩ := isGenerated_rivals
    have holda : Host.Holds rivalFiles "a" items := ⟨_, rfl, hitems⟩
    have holdb : Host.Holds rivalFiles "b" items := ⟨_, rfl, hitems⟩
    have holdw : Host.Holds rivalFiles "a_w" others := ⟨_, rfl, hothers⟩
    obtain ⟨s, journal, hs, hall, hother⟩ := hfiles rivalFiles "_w" ["a", "b", "a_w"]
      (by simpa using ⟨⟨items, holda⟩, ⟨items, holdb⟩, ⟨others, holdw⟩⟩)
    refine ⟨s, journal, hs, (hall.found _ _ _).mpr ⟨["a"], ["a_w"], rfl, ?_, ?_⟩,
      (hall.missing _ _).mpr ?_, hother ["a", "b"] ?_ ?_⟩
    · exact ⟨hb, holdb.declaredAt_iff.mpr (by simp [hsymbols])⟩
    · simp [Host.Counts, hw]
    · simp [Host.Counts, hw, holda.declaredAt_iff, holdb.declaredAt_iff, hsymbols]
    · simpa using ⟨⟨items, holda⟩, ⟨items, holdb⟩⟩
    · simp [ha, hb, hw]

end WireRecords
