import WireRecords.Proofs.Compilation

/-!
# How a compilation ends

A compilation goes through the directives of its units in order. Each is accepted, which declares a
record or leaves one out, or it is refused, which ends the compilation. `compile_outcome` says this
of `compile` once and for all: it succeeds exactly on the runs in which every directive is accepted,
and otherwise stops at the first directive that is refused.
-/
namespace WireRecords

/-- The directives of a unit, under the names that diagnostics give them. -/
def CompilationUnit.sources (u : CompilationUnit) : List Source :=
  u.directives.map fun line => ⟨s!"{u.name}:{line.line}", line.text⟩

/-- The directives of all units, in order. -/
def sourcesOf (units : List CompilationUnit) : List Source := units.flatMap (·.sources)

/-- The directive numbered `file` is left out, or declares a record. -/
inductive Accepts (config : Config) (file : Nat) (r : Registry) (source : Source) :
    List RecordDecl → Registry → Prop
  | leftOut {d : Directive} (parsed : Directive.parse file source.text = .ok d)
      (dropped : d.id ∈ config.excluded) : Accepts config file r source [] r
  | declares {d : Directive} {decl : RecordDecl} {next : Registry}
      (parsed : Directive.parse file source.text = .ok d) (kept : d.id ∉ config.excluded)
      (accepted : analyze d r = .ok (next, .ok decl)) : Accepts config file r source [decl] next

/-- The directive numbered `file` ends the compilation. -/
inductive Refuses (config : Config) (file : Nat) (r : Registry) (source : Source) :
    CompilationFailure → Prop
  | malformed {e : Directive.SyntaxError} (failed : Directive.parse file source.text = .error e) :
      Refuses config file r source (.rejected (e.diagnostic source.name file))
  | faulty {d : Directive} {s : Registry} {fault : Analysis.Fault}
      (parsed : Directive.parse file source.text = .ok d) (kept : d.id ∉ config.excluded)
      (refused : analyze d r = .ok (s, .error fault)) :
      Refuses config file r source (.rejected fault.diagnostic)
  | overflows {d : Directive} {fault : ArithmeticFault}
      (parsed : Directive.parse file source.text = .ok d) (kept : d.id ∉ config.excluded)
      (brokeOff : analyze d r = .error fault) : Refuses config file r source (.overflow fault)

/-- Directives numbered from `file` on are accepted one after the other. -/
inductive Runs (config : Config) :
    Nat → Registry → List Source → List RecordDecl → Registry → Prop
  | nil {file : Nat} {r : Registry} : Runs config file r [] [] r
  | cons {file : Nat} {r next last : Registry} {source : Source} {sources : List Source}
      {decls more : List RecordDecl} (head : Accepts config file r source decls next)
      (tail : Runs config (file + 1) next sources more last) :
      Runs config file r (source :: sources) (decls ++ more) last

section

variable {config : Config} {file : Nat} {r s s' : Registry} {source : Source}
  {sources more : List Source} {decls decls' : List RecordDecl}

theorem Accepts.unique (h : Accepts config file r source decls s)
    (g : Accepts config file r source decls' s') : decls = decls' ∧ s = s' := by
  cases h with
  | leftOut parsed dropped =>
    cases g with
    | leftOut _ _ => exact ⟨rfl, rfl⟩
    | declares parsed' kept _ =>
      obtain rfl := Except.ok.inj (parsed.symm.trans parsed')
      exact absurd dropped kept
  | declares parsed kept accepted =>
    cases g with
    | leftOut parsed' dropped =>
      obtain rfl := Except.ok.inj (parsed.symm.trans parsed')
      exact absurd dropped kept
    | declares parsed' _ accepted' =>
      obtain rfl := Except.ok.inj (parsed.symm.trans parsed')
      have heq := Except.ok.inj (accepted.symm.trans accepted')
      simp only [Prod.mk.injEq, Except.ok.injEq] at heq
      exact ⟨by rw [heq.2], heq.1⟩

/-- An accepted directive parses. -/
theorem Accepts.parsed (h : Accepts config file r source decls s) :
    ∃ d, Directive.parse file source.text = .ok d := by
  cases h with
  | leftOut parsed _ => exact ⟨_, parsed⟩
  | declares parsed _ _ => exact ⟨_, parsed⟩

/-- No directive is both accepted and refused. -/
theorem Accepts.not_refuses {failure : CompilationFailure}
    (h : Accepts config file r source decls s) : ¬ Refuses config file r source failure := by
  intro g
  cases g with
  | malformed failed => cases h <;> simp_all
  | faulty parsed kept refused => cases h <;> simp_all
  | overflows parsed kept brokeOff => cases h <;> simp_all

theorem Runs.unique (h : Runs config file r sources decls s)
    (g : Runs config file r sources decls' s') : decls = decls' ∧ s = s' := by
  induction h generalizing decls' with
  | nil =>
    cases g
    exact ⟨rfl, rfl⟩
  | cons head tail ih =>
    cases g with
    | cons head' tail' =>
      obtain ⟨rfl, rfl⟩ := head.unique head'
      obtain ⟨rfl, rfl⟩ := ih tail'
      exact ⟨rfl, rfl⟩

theorem Runs.append {t : Registry} (h : Runs config file r sources decls s)
    (g : Runs config (file + sources.length) s more decls' t) :
    Runs config file r (sources ++ more) (decls ++ decls') t := by
  induction h with
  | nil => exact g
  | @cons file r next last source sources decls rest head tail ih =>
    have hnumber : file + (source :: sources).length = file + 1 + sources.length := by
      simp only [List.length_cons]
      omega
    rw [hnumber] at g
    rw [List.append_assoc]
    exact .cons head (ih g)

theorem Runs.split (h : Runs config file r (sources ++ more) decls s) :
    ∃ first last mid, decls = first ++ last ∧ Runs config file r sources first mid ∧
      Runs config (file + sources.length) mid more last s := by
  induction sources generalizing file r decls with
  | nil => exact ⟨[], decls, r, rfl, .nil, h⟩
  | cons source sources ih =>
    cases h with
    | @cons _ _ next _ _ _ decls rest head tail =>
      obtain ⟨first, last, mid, rfl, hfirst, hlast⟩ := ih tail
      have hnumber : file + (source :: sources).length = file + 1 + sources.length := by
        simp only [List.length_cons]
        omega
      exact ⟨decls ++ first, last, mid, by rw [List.append_assoc], .cons head hfirst,
        hnumber ▸ hlast⟩

/-- The first directive of a run, and what it leaves to the others. -/
theorem Runs.cons_inv (h : Runs config file r (source :: sources) decls s) :
    ∃ first last mid, decls = first ++ last ∧ Accepts config file r source first mid ∧
      Runs config (file + 1) mid sources last s := by
  cases h with
  | cons head tail => exact ⟨_, _, _, rfl, head, tail⟩

/-- A run does not get past a directive that is refused. -/
theorem Runs.not_refuses {failure : CompilationFailure} {mid : Registry}
    (h : Runs config file r (sources ++ source :: more) decls s)
    (hbefore : Runs config file r sources decls' mid) :
    ¬ Refuses config (file + sources.length) mid source failure := by
  obtain ⟨first, last, mid', _, hfirst, hlast⟩ := h.split
  obtain ⟨_, rfl⟩ := hfirst.unique hbefore
  obtain ⟨_, _, _, _, haccepts, _⟩ := hlast.cons_inv
  exact haccepts.not_refuses

end

namespace Progress

/-- All of `sources` are accepted, which leads from `p` to `q`. -/
structure Passes (config : Config) (p : Progress) (sources : List Source) (q : Progress) :
    Prop where
  seen : q.sources = p.sources ++ sources
  run : ∃ decls, q.compilation.records = p.compilation.records ++ decls ∧
    Runs config p.sources.length p.compilation.registry sources decls q.compilation.registry

/-- One of `sources` is refused, and those before it are accepted. -/
structure Stops (config : Config) (p : Progress) (sources : List Source) (q : Progress)
    (failure : CompilationFailure) : Prop where
  refused : ∃ before failing after decls r, sources = before ++ failing :: after ∧
    q.sources = p.sources ++ (before ++ [failing]) ∧
    Runs config p.sources.length p.compilation.registry before decls r ∧
    Refuses config (p.sources.length + before.length) r failing failure

/-- What a stretch of a compilation that looks at `sources` comes to. -/
def Outcome (config : Config) (p : Progress) (sources : List Source) :
    Except (Progress × CompilationFailure) Progress → Prop
  | .ok q => p.Passes config sources q
  | .error (q, failure) => p.Stops config sources q failure

section

variable {config : Config} {p q : Progress} {sources more : List Source}
  {failure : CompilationFailure}

theorem Passes.trans {t : Progress} (h : p.Passes config sources q)
    (g : q.Passes config more t) : p.Passes config (sources ++ more) t := by
  obtain ⟨decls, hrecords, hrun⟩ := h.run
  obtain ⟨decls', grecords, grun⟩ := g.run
  refine ⟨by rw [g.seen, h.seen, List.append_assoc], decls ++ decls', ?_, ?_⟩
  · rw [grecords, hrecords, List.append_assoc]
  · rw [h.seen, List.length_append] at grun
    exact hrun.append grun

/-- What stops a later stretch stops the whole. -/
theorem Passes.stops {t : Progress} (h : p.Passes config sources q)
    (g : q.Stops config more t failure) : p.Stops config (sources ++ more) t failure := by
  obtain ⟨decls, _, hrun⟩ := h.run
  obtain ⟨before, failing, after, decls', r, rfl, hsources, grun, hrefuses⟩ := g.refused
  rw [h.seen, List.length_append] at grun hrefuses
  refine ⟨sources ++ before, failing, after, decls ++ decls', r, by simp, ?_, hrun.append grun, ?_⟩
  · rw [hsources, h.seen]
    simp
  · rw [List.length_append, ← Nat.add_assoc]
    exact hrefuses

theorem Stops.append (h : p.Stops config sources q failure) (more : List Source) :
    p.Stops config (sources ++ more) q failure := by
  obtain ⟨before, failing, after, decls, r, rfl, hsources, hrun, hrefuses⟩ := h.refused
  exact ⟨before, failing, after ++ more, decls, r, by simp, hsources, hrun, hrefuses⟩

end

variable (config : Config)

theorem outcome_addDirective (unit : String) (p : Progress) (line : DirectiveLine) :
    p.Outcome config [⟨s!"{unit}:{line.line}", line.text⟩] (p.addDirective config unit line) := by
  -- A directive that is refused stops the compilation with nothing before it.
  have hstops : ∀ {q failure}, q.sources = p.sources ++ [⟨s!"{unit}:{line.line}", line.text⟩] →
      Refuses config p.sources.length p.compilation.registry ⟨s!"{unit}:{line.line}", line.text⟩
        failure → p.Stops config [⟨s!"{unit}:{line.line}", line.text⟩] q failure :=
    fun hsources hrefuses => ⟨[], _, [], [], _, rfl, hsources, .nil, hrefuses⟩
  have hpasses : ∀ {q decls}, q.sources = p.sources ++ [⟨s!"{unit}:{line.line}", line.text⟩] →
      q.compilation.records = p.compilation.records ++ decls →
      Accepts config p.sources.length p.compilation.registry ⟨s!"{unit}:{line.line}", line.text⟩
        decls q.compilation.registry →
      p.Passes config [⟨s!"{unit}:{line.line}", line.text⟩] q :=
    fun hsources hrecords haccepts =>
      ⟨hsources, _, hrecords, by simpa using Runs.cons haccepts .nil⟩
  simp only [addDirective]
  cases hparse : Directive.parse p.sources.length line.text with
  | error e => exact hstops rfl (.malformed hparse)
  | ok d =>
    by_cases hx : d.id ∈ config.excluded
    · simp only [hx, if_true]
      exact hpasses rfl (by simp [remark]) (.leftOut hparse hx)
    · simp only [hx, if_false]
      cases hanalyze : analyze d p.compilation.registry with
      | error fault => exact hstops rfl (.overflows hparse hx hanalyze)
      | ok result =>
        obtain ⟨registry, fault | decl⟩ := result
        · exact hstops rfl (.faulty hparse hx hanalyze)
        · exact hpasses rfl rfl (.declares hparse hx hanalyze)

theorem outcome_addDirectives (unit : String) (p : Progress) (lines : List DirectiveLine) :
    p.Outcome config (lines.map fun line => ⟨s!"{unit}:{line.line}", line.text⟩)
      (p.addDirectives config unit lines) := by
  induction lines generalizing p with
  | nil => exact ⟨by simp, [], by simp, .nil⟩
  | cons line lines ih =>
    have hline := outcome_addDirective config unit p line
    simp only [addDirectives, List.map_cons]
    cases hstep : p.addDirective config unit line with
    | error e =>
      rw [hstep] at hline
      exact Stops.append hline _
    | ok q =>
      rw [hstep] at hline
      have hrest := ih q
      simp only
      cases htail : q.addDirectives config unit lines with
      | error e =>
        rw [htail] at hrest
        exact Passes.stops hline hrest
      | ok t =>
        rw [htail] at hrest
        exact Passes.trans hline hrest

theorem outcome_addUnit (p : Progress) (u : CompilationUnit) :
    p.Outcome config u.sources (p.addUnit config u) := by
  -- The remark before and the collisions behind leave sources, records and registry alone.
  have hlines := outcome_addDirectives config u.name
    (p.remark .debug s!"compiling {u.directives.length} directive(s) of {u.name}") u.directives
  simp only [addUnit]
  cases hstep : (p.remark .debug
      s!"compiling {u.directives.length} directive(s) of {u.name}").addDirectives config u.name
        u.directives with
  | error e =>
    rw [hstep] at hlines
    exact ⟨hlines.refused⟩
  | ok q =>
    rw [hstep] at hlines
    exact ⟨hlines.seen, hlines.run⟩

theorem outcome_addUnits (p : Progress) (units : List CompilationUnit) :
    p.Outcome config (sourcesOf units) (p.addUnits config units) := by
  induction units generalizing p with
  | nil => exact ⟨by simp [sourcesOf], [], by simp, .nil⟩
  | cons u units ih =>
    have hunit := outcome_addUnit config p u
    have hall : sourcesOf (u :: units) = u.sources ++ sourcesOf units := rfl
    simp only [addUnits, hall]
    cases hstep : p.addUnit config u with
    | error e =>
      rw [hstep] at hunit
      exact Stops.append hunit _
    | ok q =>
      rw [hstep] at hunit
      have hrest := ih q
      simp only
      cases htail : q.addUnits config units with
      | error e =>
        rw [htail] at hrest
        exact Passes.stops hunit hrest
      | ok t =>
        rw [htail] at hrest
        exact Passes.trans hunit hrest

end Progress

variable {config : Config} {units : List CompilationUnit} {p : Progress}

theorem compile_outcome (config : Config) (units : List CompilationUnit) :
    Progress.Outcome config {} (sourcesOf units) (compile config units) := by
  have hunits := Progress.outcome_addUnits config {} units
  unfold compile
  cases hstep : Progress.addUnits config {} units with
  | error e =>
    rw [hstep] at hunits
    exact hunits
  | ok q =>
    rw [hstep] at hunits
    simp only
    split
    · exact ⟨hunits.seen, hunits.run⟩
    · exact hunits

/-- In a successful compilation every directive is accepted. -/
theorem runs_of_compile (h : compile config units = .ok p) :
    p.sources = sourcesOf units ∧
      Runs config 0 {} (sourcesOf units) p.compilation.records p.compilation.registry := by
  have houtcome := compile_outcome config units
  rw [h] at houtcome
  obtain ⟨decls, hrecords, hrun⟩ := houtcome.run
  rw [hrecords]
  exact ⟨by simpa using houtcome.seen, by simpa using hrun⟩

/-- A compilation that fails stops at the first directive that is refused. -/
theorem refuses_of_compile {failure : CompilationFailure}
    (h : compile config units = .error (p, failure)) :
    ∃ before failing after decls r, sourcesOf units = before ++ failing :: after ∧
      p.sources = before ++ [failing] ∧ Runs config 0 {} before decls r ∧
      Refuses config before.length r failing failure := by
  have houtcome := compile_outcome config units
  rw [h] at houtcome
  obtain ⟨before, failing, after, decls, r, hunits, hsources, hrun, hrefuses⟩ := houtcome.refused
  exact ⟨before, failing, after, decls, r, hunits, by simpa using hsources, hrun,
    by simpa using hrefuses⟩

/-- A compilation succeeds when every directive is accepted. -/
theorem compile_of_runs {decls : List RecordDecl} {r : Registry}
    (h : Runs config 0 {} (sourcesOf units) decls r) :
    ∃ p, compile config units = .ok p ∧ p.compilation.records = decls ∧
      p.compilation.registry = r := by
  cases hcompile : compile config units with
  | error e =>
    obtain ⟨p, failure⟩ := e
    obtain ⟨before, failing, after, decls', r', hunits, _, hrun, hrefuses⟩ :=
      refuses_of_compile hcompile
    rw [hunits] at h
    exact absurd (by simpa using hrefuses) (h.not_refuses hrun)
  | ok p =>
    obtain ⟨hrecords, hregistry⟩ := (runs_of_compile hcompile).2.unique h
    exact ⟨p, rfl, hrecords, hregistry⟩

end WireRecords
