import WireRecords.Proofs.Directive.Boundary
import WireRecords.Proofs.RecordWidth
import WireRecords.Proofs.Rejection
import WireRecords.Proofs.Run

/-!
# Diagnostics and the sources they are about

A compilation that fails has looked at the directives up to the one that is refused. The labels of
its diagnostic lie in these, the primary ones in the last of them. A diagnostic has a primary label
unless it is about a number that is no word or about a width given to a record that has none.
-/
namespace WireRecords

open Analysis Text

/-! ### Labels in sources -/

/-- The label marks characters of one of the sources. -/
def Label.LiesIn (l : Label) (sources : List Source) : Prop :=
  ∃ source, sources[l.file]? = some source ∧ l.start ≤ l.stop ∧
    l.stop ≤ source.text.utf8ByteSize ∧ String.Pos.Raw.IsValid source.text ⟨l.start⟩ ∧
    String.Pos.Raw.IsValid source.text ⟨l.stop⟩

/-- The span is a stretch of one of the sources. -/
def Span.LiesIn (s : Span) (sources : List Source) : Prop :=
  ∃ source, sources[s.file]? = some source ∧
    Stretch source.text.toList s.start.offset s.stop.offset

/-- The label lies in one of the sources, and in the last one if it is primary. -/
structure Label.About (l : Label) (before : List Source) (failing : Source) : Prop where
  liesIn : l.LiesIn (before ++ [failing])
  primary : l.isPrimary = true → l.file = before.length

section

variable {before sources : List Source} {failing : Source} {s : Span}

theorem Label.liesIn_of_stretch {l : Label} {source : Source}
    (hfile : sources[l.file]? = some source) (h : Stretch source.text.toList l.start l.stop) :
    l.LiesIn sources :=
  ⟨source, hfile, h.le, byteSize_toList source.text ▸ h.stop.le, h.start.isValid, h.stop.isValid⟩

theorem Span.LiesIn.append (h : s.LiesIn sources) (more : List Source) :
    s.LiesIn (sources ++ more) := by
  obtain ⟨source, hfile, hstretch⟩ := h
  have hlt : s.file < sources.length := (List.getElem?_eq_some_iff.mp hfile).1
  exact ⟨source, by rw [List.getElem?_append_left hlt, hfile], hstretch⟩

theorem Span.In.liesIn (h : s.In before.length failing.text.toList) :
    s.LiesIn (before ++ [failing]) :=
  ⟨failing, by simp [h.file], h.stretch⟩

theorem about_of_stretch {start stop : Nat} (h : Stretch failing.text.toList start stop)
    (message : String) :
    (⟨true, before.length, start, stop, message⟩ : Label).About before failing :=
  ⟨Label.liesIn_of_stretch (by simp) h, fun _ => rfl⟩

theorem Span.In.about (h : s.In before.length failing.text.toList) (message : String) :
    (s.primary message).About before failing := by
  obtain ⟨source, hfile, hstretch⟩ := h.liesIn
  exact ⟨Label.liesIn_of_stretch hfile hstretch, fun _ => h.file⟩

theorem Span.LiesIn.about (h : s.LiesIn (before ++ [failing])) (message : String) :
    (s.secondary message).About before failing := by
  obtain ⟨source, hfile, hstretch⟩ := h
  exact ⟨Label.liesIn_of_stretch hfile hstretch, by simp [secondary]⟩

end

/-! ### Syntax errors -/

theorem Directive.SyntaxError.Points.about {before : List Source} {failing : Source}
    {e : Directive.SyntaxError} (h : e.Points before.length failing.text.toList) (name : String)
    {l : Label} (hl : l ∈ (e.diagnostic name before.length).labels) : l.About before failing := by
  cases h with
  | expected h =>
    obtain rfl := List.mem_singleton.mp hl
    exact about_of_stretch ⟨le_refl _, h, h⟩ _
  | trailing h =>
    obtain rfl := List.mem_singleton.mp hl
    exact about_of_stretch h _
  | oversized _ _ => simp [diagnostic] at hl
  | invalidEndian h =>
    obtain rfl := List.mem_singleton.mp hl
    exact h.about _
  | emptyField h =>
    obtain rfl := List.mem_singleton.mp hl
    exact h.about _

/-! ### Faults of directives -/

/-- Every record of the registry was declared by one of the sources. -/
def Registry.Placed (r : Registry) (sources : List Source) : Prop :=
  ∀ id e, r.find? id = some e → e.span.LiesIn sources

theorem Accepts.placed {config : Config} {before : List Source} {r next : Registry}
    {source : Source} {decls : List RecordDecl}
    (h : Accepts config before.length r source decls next) (hr : r.Placed before) :
    next.Placed (before ++ [source]) := by
  intro id e he
  cases h with
  | leftOut _ _ => exact (hr id e he).append _
  | declares parsed _ accepted =>
    obtain ⟨_, fields, width, _, _, rfl, _⟩ := analyze_eq_ok accepted
    rw [Registry.find?_insert] at he
    split at he
    · obtain rfl := Option.some.inj he
      exact (Directive.spans_of_parse parsed).1.liesIn
    · exact (hr id e he).append _

/-- Every record of a run was declared by one of the sources that have been looked at. -/
theorem Runs.placed {config : Config} {file : Nat} {before sources : List Source}
    {r next : Registry} {decls : List RecordDecl} (h : Runs config file r sources decls next)
    (hfile : file = before.length) (hr : r.Placed before) : next.Placed (before ++ sources) := by
  induction h generalizing before with
  | nil => simpa using hr
  | @cons file r mid last source sources decls more head tail ih =>
    subst hfile
    have hnumber : before.length + 1 = (before ++ [source]).length := by simp
    simpa using ih hnumber (head.placed hr)

section

variable {config : Config} {before : List Source} {failing : Source} {d : Directive}
  {r s : Registry} {l : Label}

/-- The fields that are recorded stand where the directive has them. -/
theorem span_of_resolves {fields : List RecordedField} {fs : List FieldSyntax}
    {g : RecordedField} (h : Resolves d r [] fs fields) (hg : g ∈ fields) :
    ∃ f ∈ fs, g.decl.span = f.span := by
  obtain ⟨pre, post, hsplit⟩ := List.append_of_mem hg
  obtain ⟨f, hf, res, rfl, _⟩ := h.split hsplit
  exact ⟨f, hf, rfl⟩

theorem about_of_refused {fields : List RecordedField} {f : FieldSyntax} {fault : Fault}
    (hf : f.span.In before.length failing.text.toList)
    (hfields : ∀ g ∈ fields, g.decl.span.In before.length failing.text.toList)
    (h : Refused d r fields f fault) (hl : l ∈ fault.diagnostic.labels) :
    l.About before failing := by
  cases h with
  | unresolved failed =>
    cases Context.resolve_eq_error failed with
    | notInteger hprevious =>
      obtain ⟨g, hg, rfl⟩ := List.mem_map.mp hprevious
      simp only [Fault.diagnostic, FieldFault.diagnostic, List.mem_cons, List.not_mem_nil,
        or_false] at hl
      rcases hl with rfl | rfl
      · exact hf.about _
      · exact (hfields g hg).liesIn.about _
    | noFixedWidth _ => simp [Fault.diagnostic, FieldFault.diagnostic] at hl
    | other hlabels =>
      rw [Fault.diagnostic, hlabels] at hl
      obtain rfl := List.mem_singleton.mp hl
      exact hf.about _
  | repeated _ first =>
    have hg := hfields _ (List.mem_of_find?_eq_some first)
    simp only [Fault.diagnostic, RegistryError.diagnostic, List.mem_cons, List.not_mem_nil,
      or_false] at hl
    rcases hl with rfl | rfl
    · exact hf.about _
    · exact hg.liesIn.about _

theorem about_of_fault {fault : Fault} (hplaced : r.Placed before)
    (hparse : Directive.parse before.length failing.text = .ok d)
    (h : analyze d r = .ok (s, .error fault)) (hl : l ∈ fault.diagnostic.labels) :
    l.About before failing := by
  obtain ⟨hspan, hspans⟩ := Directive.spans_of_parse hparse
  obtain ⟨_, e, he, rfl⟩ | ⟨_, fields, earlier, f, later, hfields, hearlier, hrefused⟩ :=
    analyze_eq_refused h
  · simp only [Fault.diagnostic, RegistryError.diagnostic, List.mem_cons, List.not_mem_nil,
      or_false] at hl
    rcases hl with rfl | rfl
    · exact hspan.about _
    · exact ((hplaced d.id e he).append _).about _
  · rw [hfields] at hspans
    refine about_of_refused (hspans f (by simp)) (fun g hg => ?_) hrefused hl
    obtain ⟨f', hf', heq⟩ := span_of_resolves hearlier hg
    exact heq ▸ hspans f' (by simp [hf'])

theorem about_of_refuses {diagnostic : Diagnostic} (hplaced : r.Placed before)
    (h : Refuses config before.length r failing (.rejected diagnostic))
    (hl : l ∈ diagnostic.labels) : l.About before failing := by
  cases h with
  | malformed failed => exact (Directive.points_of_parse failed).about failing.name hl
  | faulty parsed _ refused => exact about_of_fault hplaced parsed refused hl

end

/-- A compilation that fails has looked at the directives up to the first that is refused. Its one
diagnostic has labels on characters of these only, and primary labels only on the last. Where the
widths of that directive add up to no word, the compilation breaks off instead. -/
theorem failure_points_into_sources {config : Config} {units : List CompilationUnit} {p : Progress}
    {failure : CompilationFailure} (h : compile config units = .error (p, failure)) :
    ∃ before failing after decls r, sourcesOf units = before ++ failing :: after ∧
      p.sources = before ++ [failing] ∧ Runs config 0 {} before decls r ∧
      Refuses config before.length r failing failure ∧
      ((∃ diagnostic, failure = .rejected diagnostic ∧ ∀ l ∈ diagnostic.labels,
          l.LiesIn p.sources ∧ (l.isPrimary = true → l.file = p.sources.length - 1)) ∨
        failure = .overflow .addition ∧ ∃ d e,
          Directive.parse before.length failing.text = .ok d ∧ Seals d r e ∧
          (opened d r).Overflows e.fields) := by
  obtain ⟨before, failing, after, decls, r, hunits, hsources, hrun, hrefuses⟩ :=
    refuses_of_compile h
  refine ⟨before, failing, after, decls, r, hunits, hsources, hrun, hrefuses, ?_⟩
  cases failure with
  | rejected diagnostic =>
    have hempty : Registry.Placed {} [] := fun id e he => by simp [Registry.find?] at he
    have hplaced : r.Placed before := hrun.placed rfl hempty
    refine Or.inl ⟨diagnostic, rfl, fun l hl => ?_⟩
    have habout := about_of_refuses hplaced hrefuses hl
    rw [hsources]
    exact ⟨habout.liesIn, fun hprimary => by simp [habout.primary hprimary]⟩
  | overflow fault =>
    cases hrefuses with
    | overflows parsed _ brokeOff =>
      obtain ⟨rfl, e, hseals, hoverflows⟩ := analyze_eq_error_iff.mp brokeOff
      exact Or.inr ⟨rfl, _, e, parsed, hseals, hoverflows⟩

/-- What a compilation that is rejected ends with. -/
def rejection? : Except (Progress × CompilationFailure) Progress → Option (Progress × Diagnostic)
  | .error (p, .rejected diagnostic) => some (p, diagnostic)
  | _ => none

theorem eq_of_rejection? {result : Except (Progress × CompilationFailure) Progress}
    {q : Progress × Diagnostic} (h : rejection? result = some q) :
    result = .error (q.1, .rejected q.2) := by
  unfold rejection? at h
  split at h
  · obtain rfl := Option.some.inj h
    rfl
  · simp at h

/-- A record that is declared twice, once in each unit. -/
def declaredTwice : List CompilationUnit :=
  [.inline "first" ["A n[1] d[n]", "B a[,A]"], .inline "second" ["A x[1]", "C"]]

theorem declaredTwice_run : ∃ q ∈ rejection? (compile {} declaredTwice),
    q.2.labels.map (·.file) = [2, 0] := by
  decide +kernel

theorem failure_points_into_sources_declaredTwice :
    ∃ p diagnostic, compile {} declaredTwice = .error (p, .rejected diagnostic) ∧
      diagnostic.labels.map (·.file) = [2, 0] ∧ ∀ l ∈ diagnostic.labels, l.LiesIn p.sources := by
  obtain ⟨⟨p, diagnostic⟩, hq, hfiles⟩ := declaredTwice_run
  have hcompile := eq_of_rejection? hq
  obtain ⟨_, _, _, _, _, _, _, _, _, ⟨_, heq, hlabels⟩ | ⟨heq, _⟩⟩ :=
    failure_points_into_sources hcompile
  · obtain rfl := CompilationFailure.rejected.inj heq
    exact ⟨p, diagnostic, hcompile, hfiles, fun l hl => (hlabels l hl).1⟩
  · cases heq

/-! ### Rejections without a position -/

/-- A number of the directive is no word. -/
def Oversized (file : Nat) (source : Source) : Prop :=
  ∃ digits, digits <:+: source.text.toList ∧ wordCount ≤ Directive.numberValue digits ∧
    Directive.parse file source.text = .error (.oversized digits)

/-- The first field that is refused gives a width to a record that is known to have none. -/
def GivesWidth (d : Directive) (r : Registry) : Prop :=
  (d.id = anonymous ∨ r.find? d.id = none) ∧ ∃ earlier f later fields ids value,
    d.fields = earlier ++ f :: later ∧ Resolves d (opened d r) [] earlier fields ∧
    Unmeasured ⟨d, fields.map (·.decl), opened d r⟩ f ids value

section

variable {config : Config} {before : List Source} {failing : Source} {d : Directive}
  {r s : Registry} {fault : Fault}

theorem GivesWidth.labels (hg : GivesWidth d r) (h : analyze d r = .ok (s, .error fault)) :
    fault.diagnostic.labels = [] := by
  obtain ⟨hnew, earlier, f, later, fields, ids, value, hfields, hearlier, hunmeasured⟩ := hg
  have hrecords : Records d r fields
      (some (.field f (.noFixedWidth value ("::".intercalate ids)))) :=
    ⟨earlier, f, later, hfields, hearlier, .unresolved hunmeasured.resolve⟩
  rw [analyze_of_records hnew hrecords] at h
  cases htotal : Registry.totalWidth 0 (fields.map (opened d r).fieldWidth?) with
  | error e => simp [htotal, Except.map] at h
  | ok width =>
    simp only [htotal, Except.map, verdict, Except.ok.injEq, Prod.mk.injEq,
      Except.error.injEq] at h
    rw [← h.2]
    rfl

/-- A directive that is refused is blamed at a place, or gives a width where there is none. -/
theorem labelled_or_givesWidth (h : analyze d r = .ok (s, .error fault)) :
    (∃ l ∈ fault.diagnostic.labels, l.isPrimary = true) ∨ GivesWidth d r := by
  obtain ⟨_, e, _, rfl⟩ | ⟨hnew, fields, earlier, f, later, hfields, hearlier, hrefused⟩ :=
    analyze_eq_refused h
  · exact Or.inl ⟨d.span.primary, by simp [Fault.diagnostic, RegistryError.diagnostic], rfl⟩
  · have hlabel : ∀ {labels : List Label}, f.span.primary ∈ labels →
        ∃ l ∈ labels, l.isPrimary = true := fun hl => ⟨_, hl, rfl⟩
    cases hrefused with
    | unresolved failed =>
      cases Context.resolve_eq_error failed with
      | notInteger _ => exact Or.inl (hlabel (by simp [Fault.diagnostic, FieldFault.diagnostic]))
      | noFixedWidth hunmeasured =>
        exact Or.inr ⟨hnew, earlier, f, later, fields, _, _, hfields, hearlier, hunmeasured⟩
      | other hlabels => exact Or.inl (hlabel (by simp [Fault.diagnostic, hlabels]))
    | repeated _ _ => exact Or.inl (hlabel (by simp [Fault.diagnostic, RegistryError.diagnostic]))

/-- A text that is no directive is blamed at a place, or for a number that is no word. -/
theorem labelled_iff_of_malformed {e : Directive.SyntaxError}
    (h : Directive.parse before.length failing.text = .error e) :
    (∃ l ∈ (e.diagnostic failing.name before.length).labels, l.isPrimary = true) ↔
      ¬ Oversized before.length failing := by
  have hother : ∀ l ∈ (e.diagnostic failing.name before.length).labels, l.isPrimary = true →
      (∀ digits, e ≠ .oversized digits) →
      ((∃ l ∈ (e.diagnostic failing.name before.length).labels, l.isPrimary = true) ↔
        ¬ Oversized before.length failing) := by
    intro l hl hprimary hne
    refine iff_of_true ⟨l, hl, hprimary⟩ ?_
    rintro ⟨digits, _, _, hparse⟩
    rw [h] at hparse
    exact hne digits (Except.error.inj hparse)
  cases Directive.points_of_parse h with
  | expected _ => exact hother _ (List.mem_singleton.mpr rfl) rfl (by simp)
  | trailing _ => exact hother _ (List.mem_singleton.mpr rfl) rfl (by simp)
  | invalidEndian _ => exact hother _ (List.mem_singleton.mpr rfl) rfl (by simp)
  | emptyField _ => exact hother _ (List.mem_singleton.mpr rfl) rfl (by simp)
  | @oversized digits written large =>
    refine iff_of_false (by simp [Directive.SyntaxError.diagnostic]) ?_
    exact not_not_intro ⟨digits, written, large, h⟩

end

/-- A rejection has a primary label exactly if it is not about a number that is no word and not
about a width that is given to a record without a fixed one. -/
theorem rejection_labelled_iff {config : Config} {units : List CompilationUnit} {p : Progress}
    {diagnostic : Diagnostic} (h : compile config units = .error (p, .rejected diagnostic)) :
    ∃ before failing after decls r, sourcesOf units = before ++ failing :: after ∧
      p.sources = before ++ [failing] ∧ Runs config 0 {} before decls r ∧
      ((∃ l ∈ diagnostic.labels, l.isPrimary = true) ↔
        ¬ Oversized before.length failing ∧
        ∀ d, Directive.parse before.length failing.text = .ok d → ¬ GivesWidth d r) := by
  obtain ⟨before, failing, after, decls, r, hunits, hsources, hrun, hrefuses⟩ :=
    refuses_of_compile h
  refine ⟨before, failing, after, decls, r, hunits, hsources, hrun, ?_⟩
  cases hrefuses with
  | malformed failed => simp [labelled_iff_of_malformed failed, failed]
  | @faulty d _ _ parsed _ refused =>
    have hfits : ¬ Oversized before.length failing := by
      rintro ⟨digits, _, _, hparse⟩
      simp [parsed] at hparse
    simp only [hfits, not_false_eq_true, true_and, parsed, Except.ok.injEq, forall_eq']
    constructor
    · rintro ⟨l, hl, _⟩ hgives
      simp [hgives.labels refused] at hl
    · intro hgives
      exact (labelled_or_givesWidth refused).resolve_right hgives

/-- A width of three bytes for a record that has no fixed one. -/
def widthForUnmeasured : List CompilationUnit := [.inline "test" ["A n[1] d[n]", "B a[3,A]"]]

/-- A width of 2 to the 64 bytes. -/
def widthBeyondWords : List CompilationUnit := [.inline "test" ["A a[18446744073709551616]"]]

theorem unlabelled_run :
    (∃ q ∈ rejection? (compile {} widthForUnmeasured), q.2.labels = []) ∧
      ∃ q ∈ rejection? (compile {} widthBeyondWords), q.2.labels = [] := by
  decide +kernel

/-- Both are rejected without any label. -/
theorem rejections_without_label :
    (∃ p diagnostic, compile {} widthForUnmeasured = .error (p, .rejected diagnostic) ∧
      diagnostic.labels = []) ∧
    ∃ p diagnostic, compile {} widthBeyondWords = .error (p, .rejected diagnostic) ∧
      diagnostic.labels = [] := by
  obtain ⟨⟨q, hq, hlabels⟩, ⟨q', hq', hlabels'⟩⟩ := unlabelled_run
  exact ⟨⟨q.1, q.2, eq_of_rejection? hq, hlabels⟩, ⟨q'.1, q'.2, eq_of_rejection? hq', hlabels'⟩⟩

theorem rejection_labelled_iff_examples :
    (∃ p diagnostic before failing, compile {} declaredTwice = .error (p, .rejected diagnostic) ∧
      p.sources = before ++ [failing] ∧ ¬ Oversized before.length failing) ∧
    ∃ p diagnostic before failing r,
      compile {} widthForUnmeasured = .error (p, .rejected diagnostic) ∧
      p.sources = before ++ [failing] ∧ (Oversized before.length failing ∨
        ∃ d, Directive.parse before.length failing.text = .ok d ∧ GivesWidth d r) := by
  constructor
  · have hrun : ∃ q ∈ rejection? (compile {} declaredTwice),
        ∃ l ∈ q.2.labels, l.isPrimary = true := by decide +kernel
    obtain ⟨q, hq, hlabelled⟩ := hrun
    have hcompile := eq_of_rejection? hq
    obtain ⟨before, failing, _, _, _, _, hsources, _, hiff⟩ := rejection_labelled_iff hcompile
    exact ⟨q.1, q.2, before, failing, hcompile, hsources, (hiff.mp hlabelled).1⟩
  · obtain ⟨⟨q, hq, hlabels⟩, _⟩ := unlabelled_run
    have hcompile := eq_of_rejection? hq
    obtain ⟨before, failing, _, _, r, _, hsources, _, hiff⟩ := rejection_labelled_iff hcompile
    refine ⟨q.1, q.2, before, failing, r, hcompile, hsources, ?_⟩
    by_contra hneither
    rw [not_or, not_exists] at hneither
    obtain ⟨l, hl, _⟩ := hiff.mpr ⟨hneither.1, fun d hd hg => hneither.2 d ⟨hd, hg⟩⟩
    simp [hlabels] at hl

end WireRecords
