import WireRecords.Compilation
import WireRecords.Proofs.Analysis
import WireRecords.Proofs.Sequencing

/-!
# A compilation is a run of analyses

`compile` mixes parsing, exclusion, journal and collisions. What it does to the registry is the run
`Analyses`: the directives that are not left out, analysed one after the other.
-/
namespace WireRecords

/-- The directives of lines numbered from `file` on, without those that are left out. -/
def declaredFrom (config : Config) : Nat → List DirectiveLine → List Directive
  | _, [] => []
  | file, line :: lines =>
    match Directive.parse file line.text with
    | .error _ => declaredFrom config (file + 1) lines
    | .ok d =>
      if d.id ∈ config.excluded then declaredFrom config (file + 1) lines
      else d :: declaredFrom config (file + 1) lines

/-- The directives of a run. -/
def declared (config : Config) (units : List CompilationUnit) : List Directive :=
  declaredFrom config 0 (units.flatMap (·.directives))

/-- Directives accepted one after the other, and the records they declare. -/
inductive Analyses : Registry → List Directive → List RecordDecl → Registry → Prop
  | nil {r : Registry} : Analyses r [] [] r
  | cons {r next last : Registry} {d : Directive} {ds : List Directive} {decl : RecordDecl}
      {decls : List RecordDecl} (head : analyze d r = .ok (next, .ok decl))
      (tail : Analyses next ds decls last) : Analyses r (d :: ds) (decl :: decls) last

theorem Analyses.append {r s t : Registry} {ds es : List Directive} {decls more : List RecordDecl}
    (h : Analyses r ds decls s) (g : Analyses s es more t) :
    Analyses r (ds ++ es) (decls ++ more) t := by
  induction h with
  | nil => exact g
  | cons head _ ih => exact .cons head (ih g)

theorem declaredFrom_append (config : Config) (file : Nat) (ls ms : List DirectiveLine) :
    declaredFrom config file (ls ++ ms) =
      declaredFrom config file ls ++ declaredFrom config (file + ls.length) ms := by
  induction ls generalizing file with
  | nil => simp [declaredFrom]
  | cons l ls ih =>
    have hlen : file + (l :: ls).length = file + 1 + ls.length := by
      simp only [List.length_cons]
      omega
    simp only [List.cons_append, declaredFrom, ih, hlen]
    split
    · rfl
    · split <;> rfl

theorem parse_of_mem_declaredFrom {config : Config} {file : Nat} {lines : List DirectiveLine}
    {d : Directive} (h : d ∈ declaredFrom config file lines) :
    ∃ number, ∃ line ∈ lines, Directive.parse number line.text = .ok d := by
  induction lines generalizing file with
  | nil => simp [declaredFrom] at h
  | cons line lines ih =>
    have hrest : d ∈ declaredFrom config (file + 1) lines →
        ∃ number, ∃ l ∈ line :: lines, Directive.parse number l.text = .ok d := by
      intro hd
      obtain ⟨number, l, hl, hparse⟩ := ih hd
      exact ⟨number, l, List.mem_cons_of_mem _ hl, hparse⟩
    simp only [declaredFrom] at h
    cases hp : Directive.parse file line.text with
    | error e =>
      simp only [hp] at h
      exact hrest h
    | ok first =>
      simp only [hp] at h
      split at h
      · exact hrest h
      · rcases List.mem_cons.mp h with rfl | h
        · exact ⟨file, line, List.mem_cons_self, hp⟩
        · exact hrest h

namespace Progress

/-- What a stretch of a compilation does: it looks at `lines` and runs their directives. -/
structure Advances (config : Config) (p : Progress) (lines : List DirectiveLine) (q : Progress) :
    Prop where
  sources : q.sources.length = p.sources.length + lines.length
  run : ∃ decls, q.compilation.records = p.compilation.records ++ decls ∧
    Analyses p.compilation.registry (declaredFrom config p.sources.length lines) decls
      q.compilation.registry

theorem Advances.refl (config : Config) (p : Progress) : Advances config p [] p :=
  ⟨rfl, [], by simp, .nil⟩

theorem Advances.trans {config : Config} {p q s : Progress} {ls ms : List DirectiveLine}
    (h : Advances config p ls q) (g : Advances config q ms s) :
    Advances config p (ls ++ ms) s := by
  obtain ⟨decls, hrecords, hrun⟩ := h.run
  obtain ⟨more, grecords, grun⟩ := g.run
  refine ⟨?_, decls ++ more, ?_, ?_⟩
  · rw [g.sources, h.sources, List.length_append, Nat.add_assoc]
  · rw [grecords, hrecords, List.append_assoc]
  · rw [declaredFrom_append, ← h.sources]
    exact hrun.append grun

theorem addDirective_advances {config : Config} {unit : String} {p q : Progress}
    {line : DirectiveLine} (h : p.addDirective config unit line = .ok q) :
    Advances config p [line] q := by
  simp only [addDirective] at h
  cases hp : Directive.parse p.sources.length line.text with
  | error e => simp [hp] at h
  | ok d =>
    simp only [hp] at h
    by_cases hx : d.id ∈ config.excluded
    · simp only [hx, if_true, Except.ok.injEq] at h
      subst h
      refine ⟨by simp [remark], [], by simp [remark], ?_⟩
      simpa [remark, declaredFrom, hp, hx] using Analyses.nil
    · simp only [hx, if_false] at h
      cases ha : analyze d p.compilation.registry with
      | error fault => simp [ha] at h
      | ok result =>
        obtain ⟨registry, outcome⟩ := result
        cases outcome with
        | error fault => simp [ha] at h
        | ok decl =>
          simp only [ha, Except.ok.injEq] at h
          subst h
          refine ⟨by simp, [decl], rfl, ?_⟩
          simpa [declaredFrom, hp, hx] using Analyses.cons ha .nil

theorem addDirectives_advances {config : Config} {unit : String} {p q : Progress}
    {lines : List DirectiveLine} (h : p.addDirectives config unit lines = .ok q) :
    Advances config p lines q := by
  induction lines generalizing p with
  | nil =>
    simp only [addDirectives, Except.ok.injEq] at h
    exact h ▸ Advances.refl config p
  | cons line lines ih =>
    simp only [addDirectives] at h
    cases hd : p.addDirective config unit line with
    | error e => simp [hd] at h
    | ok next =>
      simp only [hd] at h
      exact (addDirective_advances hd).trans (ih h)

theorem addUnit_advances {config : Config} {p q : Progress} {u : CompilationUnit}
    (h : p.addUnit config u = .ok q) : Advances config p u.directives q := by
  simp only [addUnit] at h
  split at h
  · simp at h
  · rename_i next hd
    -- The remark before and the collisions behind leave sources, records and registry alone.
    have hadv := addDirectives_advances hd
    simp only [Except.ok.injEq] at h
    subst h
    exact ⟨hadv.sources, hadv.run⟩

theorem addUnits_advances {config : Config} {p q : Progress} {units : List CompilationUnit}
    (h : p.addUnits config units = .ok q) :
    Advances config p (units.flatMap (·.directives)) q := by
  induction units generalizing p with
  | nil =>
    simp only [addUnits, Except.ok.injEq] at h
    exact h ▸ Advances.refl config p
  | cons u units ih =>
    simp only [addUnits] at h
    cases hu : p.addUnit config u with
    | error e => simp [hu] at h
    | ok next =>
      simp only [hu] at h
      exact (addUnit_advances hu).trans (ih h)

end Progress

/-- The records and the registry of a compilation come from analysing its directives in order. -/
theorem compile_analyses {config : Config} {units : List CompilationUnit} {p : Progress}
    (h : compile config units = .ok p) :
    Analyses {} (declared config units) p.compilation.records p.compilation.registry := by
  unfold compile at h
  split at h
  · simp at h
  · rename_i q hq
    obtain ⟨decls, hrecords, hrun⟩ := (Progress.addUnits_advances hq).run
    have hp : p.compilation = q.compilation := by
      simp only [Except.ok.injEq] at h
      subst h
      split <;> rfl
    rw [hp, hrecords]
    exact hrun

/-- A directive leaves the records that have a name as they are. -/
theorem find?_of_analyze {d : Directive} {r r' : Registry} {decl : RecordDecl} {id : String}
    {e : RecordEntry} (h : analyze d r = .ok (r', .ok decl)) (hid : id ≠ anonymous)
    (he : r.find? id = some e) : r'.find? id = some e := by
  obtain ⟨hnew, fields, width, _, _, rfl, _⟩ := analyze_eq_ok h
  rw [Registry.find?_insert, if_neg]
  · exact he
  · rintro rfl
    rcases hnew with ha | hnone
    · exact hid ha
    · simp [hnone] at he

theorem Analyses.find?_of_find? {r r' : Registry} {ds : List Directive} {decls : List RecordDecl}
    (h : Analyses r ds decls r') {id : String} {e : RecordEntry} (hid : id ≠ anonymous)
    (he : r.find? id = some e) : r'.find? id = some e := by
  induction h with
  | nil => exact he
  | cons head _ ih => exact ih (find?_of_analyze head hid he)

/-- Every record of a run that has a name is found at its end. -/
theorem Analyses.find?_of_mem {r r' : Registry} {ds : List Directive} {decls : List RecordDecl}
    (h : Analyses r ds decls r') {decl : RecordDecl} (hdecl : decl ∈ decls)
    (hid : decl.id ≠ anonymous) :
    ∃ e, r'.find? decl.id = some e ∧ e.fields.map (·.decl) = decl.fields := by
  induction h with
  | nil => simp at hdecl
  | cons head tail ih =>
    rcases List.mem_cons.mp hdecl with rfl | hdecl
    · obtain ⟨_, fields, width, _, _, rfl, rfl⟩ := analyze_eq_ok head
      exact ⟨_, tail.find?_of_find? hid (Registry.find?_insert_self _ _), rfl⟩
    · exact ih hdecl

/-- Every record at the end of a run was there before or is one of the run. -/
theorem Analyses.mem_of_find? {r r' : Registry} {ds : List Directive} {decls : List RecordDecl}
    (h : Analyses r ds decls r') {id : String} {e : RecordEntry} (he : r'.find? id = some e) :
    r.find? id = some e ∨
      ∃ decl ∈ decls, decl.id = id ∧ decl.fields = e.fields.map (·.decl) := by
  induction h with
  | nil => exact Or.inl he
  | cons head _ ih =>
    rcases ih he with hnext | ⟨decl, hdecl, hid, hfields⟩
    · obtain ⟨_, fields, width, _, _, rfl, rfl⟩ := analyze_eq_ok head
      rw [Registry.find?_insert] at hnext
      split at hnext
      · rename_i hid
        obtain rfl := Option.some.inj hnext
        exact Or.inr ⟨_, List.mem_cons_self, hid.symm, rfl⟩
      · exact Or.inl hnext
    · exact Or.inr ⟨decl, by simp [hdecl], hid, hfields⟩

theorem compile_mem_of_find? {config : Config} {units : List CompilationUnit} {p : Progress}
    (h : compile config units = .ok p) {id : String} {e : RecordEntry}
    (he : p.compilation.registry.find? id = some e) :
    ∃ decl ∈ p.compilation.records, decl.id = id ∧ decl.fields = e.fields.map (·.decl) := by
  refine ((compile_analyses h).mem_of_find? he).resolve_left ?_
  simp [Registry.find?]

theorem compile_of_toOption {config : Config} {units : List CompilationUnit} {p : Progress}
    (h : (compile config units).toOption = some p) : compile config units = .ok p :=
  ok_of_toOption h

end WireRecords
