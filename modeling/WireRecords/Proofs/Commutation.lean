import WireRecords.Proofs.Footprint
import WireRecords.Proofs.Run

/-!
# Independent directives commute

Two neighbouring directives with different names, neither of which mentions the other, can trade
places; one of them may be anonymous. The records come in the new order and are otherwise the same
but for the numbers of their directives, which show in spans only.
-/
namespace WireRecords

/-! ### Registries that differ in numbers -/

namespace Registry

/-- The same entries but for the numbers of their directives. -/
def Similar (r s : Registry) : Prop :=
  ∀ id, (s.find? id).map (·.atFile 0) = (r.find? id).map (·.atFile 0)

variable {r s : Registry}

theorem Similar.refl (r : Registry) : r.Similar r := fun _ => rfl

theorem Similar.agreeOn (h : r.Similar s) (id : String) : r.AgreeOn s id := by
  constructor
  · have hsome := congrArg Option.isSome (h id)
    simpa [contains] using hsome
  · have hwidth := congrArg (·.bind (·.width)) (h id)
    simpa [width?, Option.bind_map, RecordEntry.atFile, Function.comp_def] using hwidth

theorem Similar.shape? (h : r.Similar s) (id : String) :
    (s.shape? id).map (·.map (·.atFile 0)) = (r.shape? id).map (·.map (·.atFile 0)) := by
  have hshape := congrArg (·.map fun e => e.fields.map (·.decl)) (h id)
  simpa [Registry.shape?, RecordEntry.atFile, RecordedField.atFile, Function.comp_def] using hshape

/-- The metadata of a field, if the registry has any. -/
def info? (r : Registry) (record field : String) : Option FieldMeta :=
  (r.find? record).bind fun e => (e.fields.find? (·.decl.id == field)).map (·.info)

theorem get_eq_info? (r : Registry) (record field : String) : r.get record field =
    (r.info? record field).elim (.error (.unknownField record field)) .ok := by
  unfold Registry.get info?
  cases r.find? record with
  | none => rfl
  | some e => cases hf : e.fields.find? (·.decl.id == field) <;> simp [hf]

theorem Similar.get (h : r.Similar s) (record field : String) :
    s.get record field = r.get record field := by
  have hentry : ∀ e : RecordEntry,
      ((e.atFile 0).fields.find? (·.decl.id == field)).map (·.info) =
        (e.fields.find? (·.decl.id == field)).map (·.info) := by
    intro e
    simp only [RecordEntry.atFile, List.find?_map, Option.map_map]
    rfl
  have hinfo := congrArg
    (·.bind fun e => (e.fields.find? (·.decl.id == field)).map (·.info)) (h record)
  simp only [Option.bind_map, Function.comp_def, hentry] at hinfo
  rw [get_eq_info?, get_eq_info?, info?, info?, hinfo]

/-- Adds an entry, if there is one. -/
def extend (r : Registry) : Option RecordEntry → Registry
  | none => r
  | some e => r.insert e

theorem find?_extend_of_ne {o : Option RecordEntry} {id : String} (h : ∀ e ∈ o, e.id ≠ id) :
    (r.extend o).find? id = r.find? id := by
  cases o with
  | none => rfl
  | some e => rw [extend, find?_insert, if_neg (h e rfl).symm]

theorem agreeOn_extend {o : Option RecordEntry} {id : String} (h : ∀ e ∈ o, e.id ≠ id) :
    r.AgreeOn (r.extend o) id ∧ (r.extend o).AgreeOn r id := by
  have hfind := find?_extend_of_ne (r := r) h
  refine ⟨⟨?_, ?_⟩, ⟨?_, ?_⟩⟩ <;> simp [contains, width?, hfind]

theorem Similar.extend (h : r.Similar s) (o : Option RecordEntry) (n : Nat) :
    (r.extend o).Similar (s.extend (o.map (·.atFile n))) := by
  intro id
  cases o with
  | none => exact h id
  | some e =>
    have heid : (e.atFile n).id = e.id := rfl
    simp only [Registry.extend, Option.map_some, find?_insert, heid]
    by_cases hid : id = e.id
    · simp [hid]
    · simp [hid, h id]

/-- Entries of different records can be added in either order. -/
theorem similar_extend_extend {o o' : Option RecordEntry} (m n : Nat)
    (h : ∀ e ∈ o, ∀ e' ∈ o', e.id ≠ e'.id) :
    ((r.extend o).extend o').Similar
      ((r.extend (o'.map (·.atFile m))).extend (o.map (·.atFile n))) := by
  cases o with
  | none => exact (Similar.refl r).extend o' m
  | some e =>
    cases o' with
    | none => exact (Similar.refl r).extend (some e) n
    | some e' =>
      intro id
      have hne := h e rfl e' rfl
      have heid : (e.atFile n).id = e.id := rfl
      have heid' : (e'.atFile m).id = e'.id := rfl
      simp only [extend, Option.map_some, find?_insert, heid, heid']
      by_cases hid : id = e.id
      · have hid' : id ≠ e'.id := hid ▸ hne
        simp [hid, hne]
      · by_cases hid' : id = e'.id
        · simp [hid', hne.symm]
        · simp [hid, hid']

end Registry

/-! ### Directives under another number -/

section

variable {config : Config} {m n : Nat} {r s next : Registry} {source : Source}
  {sources : List Source} {decls : List RecordDecl} {d : Directive}

/-- What an accepted directive adds to the registry, if anything, it adds under any number to any
registry that agrees on the names it depends on. -/
theorem Accepts.atFile (h : Accepts config m r source decls next)
    (hparse : Directive.parse m source.text = .ok d) :
    decls.map (·.id) = (if d.id ∈ config.excluded then [] else [d.id]) ∧
      ∃ o : Option RecordEntry, (∀ e ∈ o, e.id = d.id) ∧ next = r.extend o ∧
        ∀ n s, (∀ id, id = d.id ∨ d.Mentions id → r.AgreeOn s id) →
          Accepts config n s source (decls.map (·.atFile n)) (s.extend (o.map (·.atFile n))) := by
  cases h with
  | leftOut parsed dropped =>
    obtain rfl := Except.ok.inj (hparse.symm.trans parsed)
    refine ⟨by simp [dropped], none, by simp, rfl, fun n s _ => ?_⟩
    exact .leftOut (Directive.parse_atFile parsed n) dropped
  | @declares _ decl _ parsed kept accepted =>
    obtain rfl := Except.ok.inj (hparse.symm.trans parsed)
    have hid : decl.id = d.id := by
      obtain ⟨_, _, _, _, _, _, rfl⟩ := analyze_eq_ok accepted
      rfl
    obtain ⟨e, he, hnext, haccepted⟩ := analyze_atFile accepted
    refine ⟨by simp [kept, hid], some e, by simpa using he, hnext, fun n s hagree => ?_⟩
    exact .declares (Directive.parse_atFile parsed n) kept (haccepted n s hagree)

/-- A run takes the same course under other numbers and from a similar registry. -/
theorem Runs.similar (h : Runs config m r sources decls next) (hsimilar : r.Similar s) (n : Nat) :
    ∃ decls' last, Runs config n s sources decls' last ∧
      decls'.map (·.atFile 0) = decls.map (·.atFile 0) ∧ next.Similar last := by
  induction h generalizing s n with
  | nil => exact ⟨[], s, .nil, rfl, hsimilar⟩
  | cons head tail ih =>
    obtain ⟨d, hparse⟩ := head.parsed
    obtain ⟨_, o, _, rfl, haccepts⟩ := head.atFile hparse
    obtain ⟨decls', last, hrun, hdecls, hlast⟩ := ih (hsimilar.extend o n) (n + 1)
    refine ⟨_, last, .cons (haccepts n s fun id _ => hsimilar.agreeOn id) hrun, ?_, hlast⟩
    simp [hdecls, Function.comp_def]

end

/-! ### Trading places -/

namespace Directive

/-- The directives have different names, and no type of one is made of the name of the other. -/
structure Independent (a b : Directive) : Prop where
  ne : a.id ≠ b.id
  left : ∀ f ∈ a.fields, f.type.bind TypeExpr.path? ≠ some [b.id]
  right : ∀ f ∈ b.fields, f.type.bind TypeExpr.path? ≠ some [a.id]

variable {a b : Directive}

theorem Independent.symm (h : a.Independent b) : b.Independent a :=
  ⟨h.ne.symm, h.right, h.left⟩

theorem Independent.atFile (h : a.Independent b) (m n : Nat) :
    (a.atFile m).Independent (b.atFile n) := by
  refine ⟨h.ne, ?_, ?_⟩
  · simpa [Directive.atFile, FieldSyntax.atFile] using h.left
  · simpa [Directive.atFile, FieldSyntax.atFile] using h.right

/-- A name that a directive depends on is not that of an independent one. -/
theorem Independent.ne_of_depends (h : a.Independent b) (hname : IsName b.id) {id : String}
    (hid : id = a.id ∨ a.Mentions id) : b.id ≠ id := by
  rintro rfl
  obtain hid | ⟨f, hf, ids, hids, hjoin⟩ := hid
  · exact h.ne hid.symm
  · have hself : ids = ["::".intercalate ids] := IsName.eq_singleton (hjoin ▸ hname)
    rw [hself, ← hjoin] at hids
    exact h.left f hf hids

end Directive

section

variable {config : Config} {m n file : Nat} {r s last : Registry} {a b : Source}
  {before after : List Source} {decls : List RecordDecl} {da db : Directive}

theorem Accepts.swap {x y : List RecordDecl} {next : Registry}
    (hda : Directive.parse m a.text = .ok da) (hdb : Directive.parse n b.text = .ok db)
    (h : da.Independent db) (ha : Accepts config file r a x next)
    (hb : Accepts config (file + 1) next b y last) :
    ∃ next' last', Accepts config file r b (y.map (·.atFile file)) next' ∧
      Accepts config (file + 1) next' a (x.map (·.atFile (file + 1))) last' ∧
      last.Similar last' := by
  have hka := Directive.parse_atFile hda file
  have hkb := Directive.parse_atFile hdb (file + 1)
  have hk := h.atFile file (file + 1)
  obtain ⟨_, o, hoid, rfl, hacceptsa⟩ := ha.atFile hka
  obtain ⟨_, o', hoid', rfl, hacceptsb⟩ := hb.atFile hkb
  have hb' := hacceptsb file r fun id hid =>
    (Registry.agreeOn_extend fun e he => hoid e he ▸
      hk.symm.ne_of_depends (Directive.isName_of_parse hka) hid).2
  have ha' := hacceptsa (file + 1) (r.extend (o'.map (·.atFile file))) fun id hid =>
    (Registry.agreeOn_extend fun e he => by
      obtain ⟨e', he', rfl⟩ := Option.map_eq_some_iff.mp he
      exact hoid' e' he' ▸ hk.ne_of_depends (Directive.isName_of_parse hkb) hid).1
  refine ⟨_, _, hb', ha', Registry.similar_extend_extend file (file + 1) ?_⟩
  intro e he e' he'
  rw [hoid e he, hoid' e' he']
  exact hk.ne

/-- A run over two independent neighbours is one over them in the other order. -/
theorem Runs.swap (hda : Directive.parse m a.text = .ok da)
    (hdb : Directive.parse n b.text = .ok db) (hind : da.Independent db)
    (h : Runs config file r (before ++ a :: b :: after) decls last) :
    ∃ first x y rest decls' last', decls = first ++ (x ++ (y ++ rest)) ∧
      Runs config file r (before ++ b :: a :: after) decls' last' ∧
      decls'.map (·.atFile 0) = (first ++ (y ++ (x ++ rest))).map (·.atFile 0) ∧
      x.map (·.id) = (if da.id ∈ config.excluded then [] else [da.id]) ∧
      y.map (·.id) = (if db.id ∈ config.excluded then [] else [db.id]) ∧
      last.Similar last' := by
  obtain ⟨first, behind, mid, rfl, hfirst, hbehind⟩ := h.split
  obtain ⟨x, behind, next, rfl, ha, hbehind⟩ := hbehind.cons_inv
  obtain ⟨y, rest, mid', rfl, hb, hrest⟩ := hbehind.cons_inv
  obtain ⟨next', mid'', hb', ha', hsimilar⟩ := Accepts.swap hda hdb hind ha hb
  obtain ⟨rest', last', hrest', hdecls, hlast⟩ :=
    hrest.similar hsimilar (file + before.length + 1 + 1)
  refine ⟨first, x, y, rest, _, last', rfl, hfirst.append (.cons hb' (.cons ha' hrest')), ?_, ?_,
    ?_, hlast⟩
  · simp [hdecls, Function.comp_def]
  · exact (ha.atFile (Directive.parse_atFile hda _)).1
  · exact (hb.atFile (Directive.parse_atFile hdb _)).1

end

theorem sourcesOf_neighbours (us vs : List CompilationUnit) (name : String)
    (collisions : CollisionSet) (ls ms : List DirectiveLine) :
    ∃ before after, ∀ a b : DirectiveLine,
      sourcesOf (us ++ ⟨name, ls ++ a :: b :: ms, collisions⟩ :: vs) =
        before ++ ⟨s!"{name}:{a.line}", a.text⟩ :: ⟨s!"{name}:{b.line}", b.text⟩ :: after := by
  refine ⟨sourcesOf us ++ ls.map fun line => ⟨s!"{name}:{line.line}", line.text⟩,
    (ms.map fun line => ⟨s!"{name}:{line.line}", line.text⟩) ++ sourcesOf vs, fun a b => ?_⟩
  simp [sourcesOf, CompilationUnit.sources]

theorem compile_swap {config : Config} {us vs : List CompilationUnit} {p : Progress} {m n : Nat}
    {a b : Source} {before after : List Source} {da db : Directive}
    (hda : Directive.parse m a.text = .ok da) (hdb : Directive.parse n b.text = .ok db)
    (hind : da.Independent db) (hus : sourcesOf us = before ++ a :: b :: after)
    (hvs : sourcesOf vs = before ++ b :: a :: after) (h : compile config us = .ok p) :
    ∃ q, compile config vs = .ok q ∧
      (∃ first x y rest, p.compilation.records = first ++ (x ++ (y ++ rest)) ∧
        q.compilation.records.map (·.atFile 0) = (first ++ (y ++ (x ++ rest))).map (·.atFile 0) ∧
        x.map (·.id) = (if da.id ∈ config.excluded then [] else [da.id]) ∧
        y.map (·.id) = (if db.id ∈ config.excluded then [] else [db.id])) ∧
      p.compilation.registry.Similar q.compilation.registry := by
  have hrun := (runs_of_compile h).2
  rw [hus] at hrun
  obtain ⟨first, x, y, rest, decls, last, hrecords, hrun', hdecls, hx, hy, hsimilar⟩ :=
    hrun.swap hda hdb hind
  rw [← hvs] at hrun'
  obtain ⟨q, hq, rfl, rfl⟩ := compile_of_runs hrun'
  exact ⟨q, hq, ⟨first, x, y, rest, hrecords, hdecls, hx, hy⟩, hsimilar⟩

/-- Two neighbouring directives of a unit, independent of each other, can trade places: the
compilation succeeds as before, and what it knows of every record is the same but for the numbers of
directives. The records of the two trade places in the list. -/
theorem independent_directives_commute (config : Config) (us vs : List CompilationUnit)
    (name : String) (collisions : CollisionSet) (ls ms : List DirectiveLine) {a b : DirectiveLine}
    {m n : Nat} {da db : Directive} (hda : Directive.parse m a.text = .ok da)
    (hdb : Directive.parse n b.text = .ok db) (hind : da.Independent db) :
    ((∃ p, compile config (us ++ ⟨name, ls ++ a :: b :: ms, collisions⟩ :: vs) = .ok p) ↔
      ∃ q, compile config (us ++ ⟨name, ls ++ b :: a :: ms, collisions⟩ :: vs) = .ok q) ∧
    ∀ p q, compile config (us ++ ⟨name, ls ++ a :: b :: ms, collisions⟩ :: vs) = .ok p →
      compile config (us ++ ⟨name, ls ++ b :: a :: ms, collisions⟩ :: vs) = .ok q →
      (∃ first x y rest,
        p.compilation.records.map (·.atFile 0) = first ++ (x ++ (y ++ rest)) ∧
        q.compilation.records.map (·.atFile 0) = first ++ (y ++ (x ++ rest)) ∧
        x.map (·.id) = (if da.id ∈ config.excluded then [] else [da.id]) ∧
        y.map (·.id) = (if db.id ∈ config.excluded then [] else [db.id])) ∧
      ∀ id, q.compilation.registry.width? id = p.compilation.registry.width? id ∧
        (q.compilation.registry.shape? id).map (·.map (·.atFile 0)) =
          (p.compilation.registry.shape? id).map (·.map (·.atFile 0)) ∧
        ∀ field, q.compilation.registry.get id field = p.compilation.registry.get id field := by
  obtain ⟨before, after, hsources⟩ := sourcesOf_neighbours us vs name collisions ls ms
  refine ⟨⟨fun ⟨p, hp⟩ => ?_, fun ⟨q, hq⟩ => ?_⟩, fun p q hp hq => ?_⟩
  · obtain ⟨q, hq, _⟩ := compile_swap (a := ⟨s!"{name}:{a.line}", a.text⟩)
      (b := ⟨s!"{name}:{b.line}", b.text⟩) hda hdb hind (hsources a b) (hsources b a) hp
    exact ⟨q, hq⟩
  · obtain ⟨p, hp, _⟩ := compile_swap (a := ⟨s!"{name}:{b.line}", b.text⟩)
      (b := ⟨s!"{name}:{a.line}", a.text⟩) hdb hda hind.symm (hsources b a) (hsources a b) hq
    exact ⟨p, hp⟩
  · obtain ⟨q', hq', ⟨first, x, y, rest, hrecords, hrecords', hx, hy⟩, hsimilar⟩ :=
      compile_swap (a := ⟨s!"{name}:{a.line}", a.text⟩) (b := ⟨s!"{name}:{b.line}", b.text⟩)
        hda hdb hind (hsources a b) (hsources b a) hp
    obtain rfl := Except.ok.inj (hq.symm.trans hq')
    refine ⟨⟨first.map (·.atFile 0), x.map (·.atFile 0), y.map (·.atFile 0),
      rest.map (·.atFile 0), ?_, ?_, ?_, ?_⟩, fun id => ?_⟩
    · simp [hrecords]
    · simp [hrecords']
    · simpa [RecordDecl.atFile, Function.comp_def] using hx
    · simpa [RecordDecl.atFile, Function.comp_def] using hy
    · exact ⟨(hsimilar.agreeOn id).width?, hsimilar.shape? id, hsimilar.get id⟩

/-- Two directives, and one behind them that needs both. -/
def neighbours (a b : DirectiveLine) : List CompilationUnit :=
  [⟨"near", [a, b], {}⟩, .inline "far" ["C a[, A] b[, B] n[1] c[n, []B]"]]

theorem neighbours_run :
    ∃ da ∈ (Directive.parse 0 "A n[1] d[2]").toOption,
      ∃ db ∈ (Directive.parse 1 "B a[4, []u16] b[2, Far]").toOption,
        (da.id ≠ db.id ∧ (∀ f ∈ da.fields, f.type.bind TypeExpr.path? ≠ some [db.id]) ∧
          ∀ f ∈ db.fields, f.type.bind TypeExpr.path? ≠ some [da.id]) ∧
        ∃ p ∈ (compile {} (neighbours ⟨1, "A n[1] d[2]"⟩ ⟨2, "B a[4, []u16] b[2, Far]"⟩)).toOption,
          p.compilation.registry.width? "B" = some 10 := by
  decide +kernel

theorem independent_directives_commute_neighbours :
    ∃ q, compile {} (neighbours ⟨2, "B a[4, []u16] b[2, Far]"⟩ ⟨1, "A n[1] d[2]"⟩) = .ok q ∧
      q.compilation.registry.width? "B" = some 10 := by
  obtain ⟨da, hda, db, hdb, ⟨hne, ha, hb⟩, p, hp, hwidth⟩ := neighbours_run
  have hcommute := independent_directives_commute {} []
    [.inline "far" ["C a[, A] b[, B] n[1] c[n, []B]"]] "near" {} [] []
    (a := ⟨1, "A n[1] d[2]"⟩) (b := ⟨2, "B a[4, []u16] b[2, Far]"⟩)
    (ok_of_toOption hda) (ok_of_toOption hdb) ⟨hne, ha, hb⟩
  obtain ⟨q, hq⟩ := hcommute.1.mp ⟨p, compile_of_toOption hp⟩
  exact ⟨q, hq, ((hcommute.2 p q (compile_of_toOption hp) hq).2 "B").1.trans hwidth⟩

end WireRecords
