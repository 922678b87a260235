import WireRecords.Proofs.Compilation

/-!
# Widths of records

A record gets its width when it is sealed: the sum of the widths of its fields, as far as they are
known. Products are checked, but the sum is not: it faults as soon as the fields before the first
unknown width exceed the words. Apart from that the width is exact.
-/
namespace WireRecords

namespace Registry

/-- The width of a field as a number of any size. -/
def exactWidth? (r : Registry) (f : RecordedField) : Option Nat :=
  match f.info.kind, f.info.width.bind Width.fold with
  | .literal, some count =>
    match f.decl.type with
    | .slice element => (r.elementWidth? element).map (· * count)
    | _ => some count
  | _, _ => none

/-- All widths are known, and `n` is their sum. -/
def Totals (widths : List (Option Nat)) (n : Nat) : Prop :=
  ∃ ns : List Nat, widths = ns.map some ∧ n = ns.sum

/-- The first fields have known widths whose sum is no word any more. -/
def Overflows (r : Registry) (fields : List RecordedField) : Prop :=
  ∃ (known : List Nat) (rest : List (Option Nat)),
    fields.map r.fieldWidth? = known.map some ++ rest ∧ wordCount ≤ known.sum

/-- Only the product of a slice has to be a word. -/
theorem fieldWidth?_eq_some_iff {r : Registry} {f : RecordedField} {n : Nat} :
    r.fieldWidth? f = some n ↔
      r.exactWidth? f = some n ∧ ((∃ element, f.decl.type = .slice element) → n < wordCount) := by
  obtain ⟨⟨span, id, type⟩, ⟨width, endian, kind⟩⟩ := f
  cases kind with
  | dynamic => simp [fieldWidth?, exactWidth?]
  | unresolved => simp [fieldWidth?, exactWidth?]
  | literal =>
    cases width with
    | none => simp [fieldWidth?, exactWidth?]
    | some w =>
      cases hw : w.fold with
      | none => simp [fieldWidth?, exactWidth?, hw]
      | some count =>
        cases type with
        | slice element =>
          cases he : r.elementWidth? element with
          | none => simp [fieldWidth?, exactWidth?, hw, he]
          | some size =>
            by_cases hlt : size * count < wordCount
            · simp only [fieldWidth?, exactWidth?, hw, he, Operator.apply, hlt, if_true,
                Option.bind_some, Option.map_some, Option.some.injEq, Except.toOption]
              refine ⟨fun h => ⟨h, fun _ => h ▸ hlt⟩, fun h => h.1⟩
            · simp only [fieldWidth?, exactWidth?, hw, he, Operator.apply, hlt, if_false,
                Option.bind_some, Option.map_some, Option.some.injEq, Except.toOption]
              refine ⟨fun h => by simp at h, fun h => ?_⟩
              have hn : n < wordCount := h.2 ⟨element, rfl⟩
              omega
        | _ => simp [fieldWidth?, exactWidth?, hw]

theorem totalWidth_eq_some_iff {total n : Nat} {widths : List (Option Nat)}
    (htotal : total < wordCount) :
    totalWidth total widths = .ok (some n) ↔
      ∃ ns : List Nat, widths = ns.map some ∧ n = total + ns.sum ∧ n < wordCount := by
  induction widths generalizing total with
  | nil =>
    simp only [totalWidth, Except.ok.injEq, Option.some.injEq]
    constructor
    · rintro rfl
      exact ⟨[], rfl, by simp, htotal⟩
    · rintro ⟨ns, hns, hn, _⟩
      obtain rfl : ns = [] := by simpa using hns.symm
      simpa using hn.symm
  | cons width widths ih =>
    cases width with
    | none =>
      simp only [totalWidth, Except.ok.injEq, reduceCtorEq, false_iff]
      rintro ⟨ns, hns, _⟩
      cases ns <;> simp at hns
    | some w =>
      by_cases hw : total + w < wordCount
      · simp only [totalWidth, Operator.apply, hw, if_true]
        rw [ih hw]
        constructor
        · rintro ⟨ns, rfl, hn, hlt⟩
          exact ⟨w :: ns, rfl, by simp only [List.sum_cons]; omega, hlt⟩
        · rintro ⟨ns, hns, hn, hlt⟩
          obtain ⟨m, ms, rfl, hm, rfl⟩ := List.map_eq_cons_iff.mp hns.symm
          obtain rfl := Option.some.inj hm
          simp only [List.sum_cons] at hn
          exact ⟨ms, rfl, by omega, hlt⟩
      · simp only [totalWidth, Operator.apply, hw, if_false, reduceCtorEq, false_iff]
        rintro ⟨ns, hns, hn, hlt⟩
        obtain ⟨m, ms, rfl, hm, rfl⟩ := List.map_eq_cons_iff.mp hns.symm
        obtain rfl := Option.some.inj hm
        simp only [List.sum_cons] at hn
        omega

theorem totalWidth_eq_error_iff {total : Nat} {widths : List (Option Nat)} {fault : ArithmeticFault}
    (htotal : total < wordCount) :
    totalWidth total widths = .error fault ↔ fault = .addition ∧
      ∃ (known : List Nat) (rest : List (Option Nat)),
        widths = known.map some ++ rest ∧ wordCount ≤ total + known.sum := by
  induction widths generalizing total with
  | nil =>
    simp only [totalWidth, reduceCtorEq, false_iff]
    rintro ⟨_, known, rest, hnil, hle⟩
    obtain ⟨hknown, _⟩ := List.append_eq_nil_iff.mp hnil.symm
    obtain rfl : known = [] := by simpa using hknown
    simp only [List.sum_nil] at hle
    omega
  | cons width widths ih =>
    cases width with
    | none =>
      simp only [totalWidth, reduceCtorEq, false_iff]
      rintro ⟨_, known, rest, hcons, hle⟩
      cases known with
      | nil =>
        simp only [List.sum_nil] at hle
        omega
      | cons n known => simp at hcons
    | some w =>
      by_cases hw : total + w < wordCount
      · simp only [totalWidth, Operator.apply, hw, if_true]
        rw [ih hw]
        refine and_congr_right fun _ => ?_
        constructor
        · rintro ⟨known, rest, rfl, hle⟩
          exact ⟨w :: known, rest, rfl, by simp only [List.sum_cons]; omega⟩
        · rintro ⟨known, rest, hcons, hle⟩
          cases known with
          | nil =>
            simp only [List.sum_nil] at hle
            omega
          | cons n known =>
            simp only [List.map_cons, List.cons_append, List.cons.injEq, Option.some.injEq] at hcons
            obtain ⟨rfl, rfl⟩ := hcons
            simp only [List.sum_cons] at hle
            exact ⟨known, rest, rfl, by omega⟩
      · simp only [totalWidth, Operator.apply, hw, if_false, Except.error.injEq]
        constructor
        · rintro rfl
          exact ⟨rfl, [w], widths, rfl, by simp only [List.sum_singleton]; omega⟩
        · rintro ⟨rfl, _⟩
          rfl

theorem overflows_iff {r : Registry} {fields : List RecordedField} {fault : ArithmeticFault} :
    totalWidth 0 (fields.map r.fieldWidth?) = .error fault ↔
      fault = .addition ∧ r.Overflows fields := by
  have hzero : 0 < wordCount := by decide
  simp only [totalWidth_eq_error_iff hzero, Overflows, Nat.zero_add]

/-- Where every width is known and the sum is a word, no product fails either. -/
theorem totals_iff {r : Registry} {fields : List RecordedField} {n : Nat} :
    totalWidth 0 (fields.map r.fieldWidth?) = .ok (some n) ↔
      Totals (fields.map r.exactWidth?) n ∧ n < wordCount := by
  have hzero : 0 < wordCount := by decide
  rw [totalWidth_eq_some_iff hzero]
  simp only [Totals, Nat.zero_add]
  constructor
  · rintro ⟨ns, hns, hn, hlt⟩
    refine ⟨⟨ns, ?_, hn⟩, hlt⟩
    rw [← hns]
    apply List.map_congr_left
    intro f hf
    have hmem : r.fieldWidth? f ∈ ns.map some := hns ▸ List.mem_map_of_mem hf
    obtain ⟨m, _, hm⟩ := List.mem_map.mp hmem
    rw [← hm]
    exact (fieldWidth?_eq_some_iff.mp hm.symm).1
  · rintro ⟨⟨ns, hns, hn⟩, hlt⟩
    refine ⟨ns, ?_, hn, hlt⟩
    rw [← hns]
    apply List.map_congr_left
    intro f hf
    have hmem : r.exactWidth? f ∈ ns.map some := hns ▸ List.mem_map_of_mem hf
    obtain ⟨m, hm, heq⟩ := List.mem_map.mp hmem
    have hle : m ≤ ns.sum := List.le_sum_of_mem hm
    rw [← heq]
    exact fieldWidth?_eq_some_iff.mpr ⟨heq.symm, fun _ => by omega⟩

end Registry

/-! ### Sealing one record -/

open Analysis

/-- The entry that analysing `d` seals: its fields up to the first that is refused. -/
def Seals (d : Directive) (r : Registry) (e : RecordEntry) : Prop :=
  ∃ registry, r.openRecord d.id d.span = .ok registry ∧
    (recordFields d [] registry d.fields).1.find? d.id = some e

/-- Recording fields changes the fields of one entry only. -/
theorem recordFields_insert (d : Directive) (r : Registry) (resolved : List FieldDecl)
    (fs : List FieldSyntax) {e : RecordEntry} (he : e.id = d.id) :
    ∃ added, (recordFields d resolved (r.insert e) fs).1 =
      r.insert { e with fields := e.fields ++ added } := by
  induction fs generalizing e resolved with
  | nil => exact ⟨[], by simp [recordFields]⟩
  | cons f fs ih =>
    simp only [recordFields]
    cases hres : Context.resolve ⟨d, resolved, r.insert e⟩ f with
    | error fault => exact ⟨[], by simp⟩
    | ok res =>
      cases hput : (r.insert e).put d.id ⟨f.span, f.id, res.type⟩
          ⟨res.width, f.endian, res.kind⟩ with
      | error error => exact ⟨[], by simp [hput]⟩
      | ok registry =>
        obtain ⟨e', hfind, _, rfl⟩ := Registry.put_eq_ok hput
        have hself : (r.insert e).find? d.id = some e := he ▸ r.find?_insert_self e
        obtain rfl : e = e' := Option.some.inj (hself.symm.trans hfind)
        have hinsert := r.insert_insert (a := e)
          (b := { e with fields := e.fields ++ [recorded f res] }) rfl
        obtain ⟨added, hadded⟩ := ih (resolved ++ [⟨f.span, f.id, res.type⟩])
          (e := { e with fields := e.fields ++ [recorded f res] }) he
        refine ⟨recorded f res :: added, ?_⟩
        simp only [hput]
        rw [← hinsert] at hadded
        simpa [recorded] using hadded

/-- What is sealed is a fresh entry with some of the fields. -/
theorem Seals.eq_insert {d : Directive} {r : Registry} {e : RecordEntry} (h : Seals d r e) :
    r.openRecord d.id d.span = .ok (opened d r) ∧
      (recordFields d [] (opened d r) d.fields).1 = r.insert e ∧
      e.id = d.id ∧ e.width = none := by
  obtain ⟨registry, hopen, hfind⟩ := h
  obtain ⟨rfl, _⟩ := Registry.openRecord_eq_ok hopen
  obtain ⟨added, hadded⟩ := recordFields_insert d r [] d.fields
    (e := { id := d.id, span := d.span }) rfl
  have hself := r.find?_insert_self ⟨d.id, d.span, [] ++ added, false, none⟩
  rw [hadded] at hfind
  obtain rfl := Option.some.inj (hself.symm.trans hfind)
  exact ⟨hopen, hadded, rfl, rfl⟩

theorem seals_of_openRecord {d : Directive} {r registry : Registry}
    (h : r.openRecord d.id d.span = .ok registry) : ∃ e, Seals d r e := by
  obtain ⟨rfl, _⟩ := Registry.openRecord_eq_ok h
  obtain ⟨added, hadded⟩ := recordFields_insert d r [] d.fields
    (e := { id := d.id, span := d.span }) rfl
  refine ⟨⟨d.id, d.span, [] ++ added, false, none⟩, _, h, ?_⟩
  rw [hadded]
  exact r.find?_insert_self _

/-- The widths of other records are as they were before the directive. -/
theorem Seals.fieldWidth? {d : Directive} {r : Registry} {e : RecordEntry} (h : Seals d r e)
    (f : RecordedField) : (r.insert e).fieldWidth? f = (opened d r).fieldWidth? f := by
  obtain ⟨_, _, hid, hwidth⟩ := h.eq_insert
  apply Registry.fieldWidth?_congr
  intro id
  simp [opened, Registry.width?_insert, hid, hwidth]

theorem Seals.analyze_error {d : Directive} {r : Registry} {e : RecordEntry}
    {fault : ArithmeticFault} (h : Seals d r e)
    (ht : Registry.totalWidth 0 (e.fields.map (opened d r).fieldWidth?) = .error fault) :
    analyze d r = .error fault := by
  obtain ⟨hopen, hfields, hid, _⟩ := h.eq_insert
  have hself : (r.insert e).find? d.id = some e := hid ▸ r.find?_insert_self e
  rw [← List.map_congr_left fun f _ => h.fieldWidth? f] at ht
  simp only [analyze, hopen, hfields, Registry.sealRecord, hself, ht]

theorem Seals.analyze_ok {d : Directive} {r : Registry} {e : RecordEntry} {width : Option Nat}
    (h : Seals d r e)
    (ht : Registry.totalWidth 0 (e.fields.map (opened d r).fieldWidth?) = .ok width) :
    ∃ outcome, analyze d r = .ok (r.insert { e with isSealed := true, width }, outcome) := by
  obtain ⟨hopen, hfields, hid, _⟩ := h.eq_insert
  have hself : (r.insert e).find? d.id = some e := hid ▸ r.find?_insert_self e
  rw [← List.map_congr_left fun f _ => h.fieldWidth? f] at ht
  have hinsert := r.insert_insert (a := e) (b := { e with isSealed := true, width }) rfl
  cases hfault : (recordFields d [] (opened d r) d.fields).2 with
  | some fault =>
    exact ⟨.error fault, by
      simp only [analyze, hopen, hfields, Registry.sealRecord, hself, ht, hfault, hinsert]⟩
  | none =>
    exact ⟨.ok ⟨e.span, d.id, e.fields.map (·.decl)⟩, by
      simp only [analyze, hopen, hfields, Registry.sealRecord, hself, ht, hfault, hinsert]⟩

/-- A directive is not analysed to its end exactly if the sum of its widths overflows. -/
theorem analyze_eq_error_iff {d : Directive} {r : Registry} {fault : ArithmeticFault} :
    analyze d r = .error fault ↔
      fault = .addition ∧ ∃ e, Seals d r e ∧ (opened d r).Overflows e.fields := by
  cases hopen : r.openRecord d.id d.span with
  | error e =>
    have hnone : ∀ e, ¬ Seals d r e := by
      rintro e ⟨registry, hok, _⟩
      rw [hopen] at hok
      cases hok
    simp [analyze, hopen, hnone]
  | ok registry =>
    obtain ⟨e, hseals⟩ := seals_of_openRecord hopen
    have hunique : ∀ e', Seals d r e' → e' = e := by
      intro e' h'
      have heq : r.insert e' = r.insert e := h'.eq_insert.2.1.symm.trans hseals.eq_insert.2.1
      have hid : e'.id = e.id := h'.eq_insert.2.2.1.trans hseals.eq_insert.2.2.1.symm
      have hfind := r.find?_insert_self e'
      rw [heq, hid, r.find?_insert_self e] at hfind
      exact (Option.some.inj hfind).symm
    have hiff : (∃ e', Seals d r e' ∧ (opened d r).Overflows e'.fields) ↔
        (opened d r).Overflows e.fields :=
      ⟨fun ⟨e', h', ho⟩ => hunique e' h' ▸ ho, fun ho => ⟨e, hseals, ho⟩⟩
    rw [hiff, ← Registry.overflows_iff]
    cases ht : Registry.totalWidth 0 (e.fields.map (opened d r).fieldWidth?) with
    | error fault' => simp [hseals.analyze_error ht]
    | ok width =>
      obtain ⟨outcome, hok⟩ := hseals.analyze_ok ht
      simp [hok]

/-! ### Sealing along a run -/

/-- A run over lines numbered from `file` on comes to the directive `d` with the registry `s`. -/
inductive Reaches (config : Config) :
    Nat → Registry → List DirectiveLine → Directive → Registry → Prop
  | here {file : Nat} {r : Registry} {line : DirectiveLine} {lines : List DirectiveLine}
      {d : Directive} (parsed : Directive.parse file line.text = .ok d)
      (kept : d.id ∉ config.excluded) : Reaches config file r (line :: lines) d r
  | leftOut {file : Nat} {r s : Registry} {line : DirectiveLine} {lines : List DirectiveLine}
      {d e : Directive} (parsed : Directive.parse file line.text = .ok e)
      (dropped : e.id ∈ config.excluded) (rest : Reaches config (file + 1) r lines d s) :
      Reaches config file r (line :: lines) d s
  | behind {file : Nat} {r next s : Registry} {line : DirectiveLine} {lines : List DirectiveLine}
      {d e : Directive} {decl : RecordDecl} (parsed : Directive.parse file line.text = .ok e)
      (kept : e.id ∉ config.excluded) (accepted : analyze e r = .ok (next, .ok decl))
      (rest : Reaches config (file + 1) next lines d s) :
      Reaches config file r (line :: lines) d s

namespace Progress

/-- The run that is left after the progress `p` comes to the directive `d`. -/
def Reaches (config : Config) (p : Progress) (lines : List DirectiveLine) (d : Directive)
    (s : Registry) : Prop :=
  WireRecords.Reaches config p.sources.length p.compilation.registry lines d s

theorem not_reaches_nil {config : Config} {p : Progress} {d : Directive} {s : Registry} :
    ¬ p.Reaches config [] d s := by
  intro h
  cases h

/-- The line `line` is analysed as the directive `d`. -/
def Meets (config : Config) (p : Progress) (line : DirectiveLine) (d : Directive) : Prop :=
  Directive.parse p.sources.length line.text = .ok d ∧ d.id ∉ config.excluded

/-- An accepted line is left out or analysed. -/
theorem addDirective_eq_ok {config : Config} {unit : String} {p q : Progress}
    {line : DirectiveLine} (h : p.addDirective config unit line = .ok q) :
    q.sources.length = p.sources.length + 1 ∧
      ∃ d, Directive.parse p.sources.length line.text = .ok d ∧
        ((d.id ∈ config.excluded ∧ q.compilation.registry = p.compilation.registry) ∨
          d.id ∉ config.excluded ∧
            ∃ decl, analyze d p.compilation.registry = .ok (q.compilation.registry, .ok decl)) := by
  simp only [addDirective] at h
  cases hparse : Directive.parse p.sources.length line.text with
  | error e => simp [hparse] at h
  | ok d =>
    simp only [hparse] at h
    by_cases hx : d.id ∈ config.excluded
    · simp only [hx, if_true, Except.ok.injEq] at h
      subst h
      exact ⟨by simp [remark], d, rfl, Or.inl ⟨hx, rfl⟩⟩
    · simp only [hx, if_false] at h
      cases hanalyze : analyze d p.compilation.registry with
      | error fault => simp [hanalyze] at h
      | ok result =>
        obtain ⟨registry, outcome⟩ := result
        cases outcome with
        | error fault => simp [hanalyze] at h
        | ok decl =>
          simp only [hanalyze, Except.ok.injEq] at h
          subst h
          exact ⟨by simp, d, rfl, Or.inr ⟨hx, decl, hanalyze⟩⟩

/-- What stands behind an accepted line is reached through it. -/
theorem reaches_cons_of_ok {config : Config} {unit : String} {p q : Progress}
    {line : DirectiveLine} {lines : List DirectiveLine} {d : Directive} {s : Registry}
    (h : p.addDirective config unit line = .ok q) :
    p.Reaches config (line :: lines) d s ↔
      (p.Meets config line d ∧ s = p.compilation.registry) ∨ q.Reaches config lines d s := by
  obtain ⟨hlength, e, hparse, hstep⟩ := addDirective_eq_ok h
  simp only [Reaches, hlength]
  constructor
  · intro hr
    cases hr with
    | here parsed kept => exact Or.inl ⟨⟨parsed, kept⟩, rfl⟩
    | leftOut parsed dropped rest =>
      obtain rfl := Except.ok.inj (hparse.symm.trans parsed)
      rcases hstep with ⟨_, hregistry⟩ | ⟨hkept, _⟩
      · exact Or.inr (hregistry ▸ rest)
      · exact absurd dropped hkept
    | behind parsed kept accepted rest =>
      obtain rfl := Except.ok.inj (hparse.symm.trans parsed)
      rcases hstep with ⟨hdropped, _⟩ | ⟨_, decl, hanalyze⟩
      · exact absurd hdropped kept
      · obtain ⟨hnext, _⟩ := Prod.mk.inj (Except.ok.inj (hanalyze.symm.trans accepted))
        exact Or.inr (hnext ▸ rest)
  · rintro (⟨⟨parsed, kept⟩, rfl⟩ | hr)
    · exact .here parsed kept
    · rcases hstep with ⟨hdropped, hregistry⟩ | ⟨hkept, decl, hanalyze⟩
      · exact .leftOut hparse hdropped (hregistry ▸ hr)
      · exact .behind hparse hkept hanalyze hr

/-- A line that is refused is the last one reached. -/
theorem reaches_cons_of_error {config : Config} {unit : String} {p : Progress}
    {line : DirectiveLine} {lines : List DirectiveLine} {d : Directive} {s : Registry}
    {e : Progress × CompilationFailure} (h : p.addDirective config unit line = .error e) :
    p.Reaches config (line :: lines) d s ↔
      p.Meets config line d ∧ s = p.compilation.registry := by
  constructor
  · intro hr
    cases hr with
    | here parsed kept => exact ⟨⟨parsed, kept⟩, rfl⟩
    | leftOut parsed dropped => simp [addDirective, parsed, dropped] at h
    | behind parsed kept accepted => simp [addDirective, parsed, kept, accepted] at h
  · rintro ⟨⟨parsed, kept⟩, rfl⟩
    exact .here parsed kept

/-- Lines behind others are reached if all others are accepted. -/
theorem reaches_append {config : Config} {p : Progress} (unit : String)
    {ls ms : List DirectiveLine} {d : Directive} {s : Registry} :
    p.Reaches config (ls ++ ms) d s ↔ p.Reaches config ls d s ∨
      ∃ q, p.addDirectives config unit ls = .ok q ∧ q.Reaches config ms d s := by
  induction ls generalizing p with
  | nil => simp [addDirectives, not_reaches_nil]
  | cons line ls ih =>
    rw [List.cons_append]
    cases hline : p.addDirective config unit line with
    | error e =>
      rw [reaches_cons_of_error hline, reaches_cons_of_error hline]
      simp [addDirectives, hline]
    | ok next =>
      rw [reaches_cons_of_ok hline, reaches_cons_of_ok hline, ih, or_assoc]
      simp only [addDirectives, hline]

theorem addDirective_overflow (config : Config) (unit : String) (p : Progress)
    (line : DirectiveLine) (fault : ArithmeticFault) :
    (∃ q, p.addDirective config unit line = .error (q, .overflow fault)) ↔
      ∃ d, p.Meets config line d ∧ analyze d p.compilation.registry = .error fault := by
  constructor
  · rintro ⟨q, h⟩
    simp only [addDirective] at h
    cases hparse : Directive.parse p.sources.length line.text with
    | error e => simp [hparse] at h
    | ok d =>
      simp only [hparse] at h
      by_cases hx : d.id ∈ config.excluded
      · simp [hx] at h
      · simp only [hx, if_false] at h
        cases hanalyze : analyze d p.compilation.registry with
        | error fault' =>
          simp only [hanalyze, Except.error.injEq, Prod.mk.injEq,
            CompilationFailure.overflow.injEq] at h
          exact ⟨d, ⟨hparse, hx⟩, h.2 ▸ hanalyze⟩
        | ok result =>
          obtain ⟨registry, outcome⟩ := result
          cases outcome <;> simp [hanalyze] at h
  · rintro ⟨d, ⟨parsed, kept⟩, hanalyze⟩
    exact ⟨{ p with sources := p.sources ++ [⟨s!"{unit}:{line.line}", line.text⟩] },
      by simp [addDirective, parsed, kept, hanalyze]⟩

theorem addDirectives_overflow (config : Config) (unit : String) (p : Progress)
    (lines : List DirectiveLine) (fault : ArithmeticFault) :
    (∃ q, p.addDirectives config unit lines = .error (q, .overflow fault)) ↔
      ∃ d s, p.Reaches config lines d s ∧ analyze d s = .error fault := by
  induction lines generalizing p with
  | nil => simp [addDirectives, not_reaches_nil]
  | cons line lines ih =>
    have hstep := addDirective_overflow config unit p line fault
    cases hline : p.addDirective config unit line with
    | error e =>
      rw [hline] at hstep
      simp only [addDirectives, hline, reaches_cons_of_error hline, hstep]
      constructor
      · rintro ⟨d, hmeets, hanalyze⟩
        exact ⟨d, _, ⟨hmeets, rfl⟩, hanalyze⟩
      · rintro ⟨d, s, ⟨hmeets, rfl⟩, hanalyze⟩
        exact ⟨d, hmeets, hanalyze⟩
    | ok next =>
      rw [hline] at hstep
      simp only [addDirectives, hline, ih, reaches_cons_of_ok hline]
      constructor
      · rintro ⟨d, s, hr, hanalyze⟩
        exact ⟨d, s, Or.inr hr, hanalyze⟩
      · rintro ⟨d, s, ⟨hmeets, rfl⟩ | hr, hanalyze⟩
        · obtain ⟨q, hq⟩ := hstep.mpr ⟨d, hmeets, hanalyze⟩
          cases hq
        · exact ⟨d, s, hr, hanalyze⟩

theorem addUnits_overflow (config : Config) (p : Progress) (units : List CompilationUnit)
    (fault : ArithmeticFault) :
    (∃ q, p.addUnits config units = .error (q, .overflow fault)) ↔
      ∃ d s, p.Reaches config (units.flatMap (·.directives)) d s ∧ analyze d s = .error fault := by
  induction units generalizing p with
  | nil => simp [addUnits, not_reaches_nil]
  | cons u units ih =>
    -- The remark before a unit changes neither the sources nor the registry.
    generalize hremark : p.remark .debug
      s!"compiling {u.directives.length} directive(s) of {u.name}" = start
    have hreaches : ∀ lines d s, p.Reaches config lines d s ↔ start.Reaches config lines d s := by
      intro lines d s
      rw [← hremark]
      rfl
    have hlines := addDirectives_overflow config u.name start u.directives fault
    simp only [addUnits, addUnit, hremark, List.flatMap_cons, hreaches,
      reaches_append (p := start) u.name]
    cases hdirectives : start.addDirectives config u.name u.directives with
    | error e =>
      rw [hdirectives] at hlines
      simp only [reduceCtorEq, false_and, exists_false, or_false, hlines]
    | ok next =>
      rw [hdirectives] at hlines
      simp only [ih]
      constructor
      · rintro ⟨d, s, hr, hanalyze⟩
        exact ⟨d, s, Or.inr ⟨next, rfl, hr⟩, hanalyze⟩
      · rintro ⟨d, s, hr | ⟨q, hq, hr⟩, hanalyze⟩
        · obtain ⟨q, hq⟩ := hlines.mpr ⟨d, s, hr, hanalyze⟩
          cases hq
        · obtain rfl := Except.ok.inj hq
          exact ⟨d, s, hr, hanalyze⟩

end Progress

theorem compile_overflow_iff {config : Config} {units : List CompilationUnit}
    {fault : ArithmeticFault} :
    (∃ q, compile config units = .error (q, .overflow fault)) ↔
      ∃ d s, Reaches config 0 {} (units.flatMap (·.directives)) d s ∧
        analyze d s = .error fault := by
  refine Iff.trans ?_ (Progress.addUnits_overflow config {} units fault)
  unfold compile
  cases Progress.addUnits config {} units <;> simp

/-- A directive that an accepted run comes to is accepted, and so are those behind it. -/
theorem Reaches.analyses {config : Config} {file : Nat} {r s last : Registry}
    {lines : List DirectiveLine} {d : Directive} {decls : List RecordDecl}
    (h : Reaches config file r lines d s)
    (hrun : Analyses r (declaredFrom config file lines) decls last) :
    ∃ next decl ds decls, analyze d s = .ok (next, .ok decl) ∧ Analyses next ds decls last := by
  induction h generalizing decls with
  | here parsed kept =>
    simp only [declaredFrom, parsed, kept, if_false] at hrun
    cases hrun with
    | cons head tail => exact ⟨_, _, _, _, head, tail⟩
  | leftOut parsed dropped _ ih =>
    simp only [declaredFrom, parsed, dropped, if_true] at hrun
    exact ih hrun
  | behind parsed kept accepted _ ih =>
    simp only [declaredFrom, parsed, kept, if_false] at hrun
    cases hrun with
    | cons head tail =>
      obtain ⟨rfl, _⟩ := Prod.mk.inj (Except.ok.inj (accepted.symm.trans head))
      exact ih tail

/-- A compilation faults exactly if it comes to a directive whose first fields have known widths that
add up to more than a word. Every other record it seals has as its width the exact sum of the widths
of its fields where all of them are known and the sum is a word, and no width otherwise. -/
theorem record_widths_exact_or_overflow (config : Config) (units : List CompilationUnit) :
    (∀ fault, (∃ q, compile config units = .error (q, .overflow fault)) ↔
      fault = .addition ∧ ∃ d r e, Reaches config 0 {} (units.flatMap (·.directives)) d r ∧
        Seals d r e ∧ (opened d r).Overflows e.fields) ∧
    ∀ d r e, Reaches config 0 {} (units.flatMap (·.directives)) d r → Seals d r e →
      ¬ (opened d r).Overflows e.fields →
      ∃ width outcome,
        analyze d r = .ok (r.insert { e with isSealed := true, width }, outcome) ∧
        (∀ n, width = some n ↔
          Registry.Totals (e.fields.map (opened d r).exactWidth?) n ∧ n < wordCount) ∧
        ∀ p, compile config units = .ok p → d.id ≠ anonymous →
          p.compilation.registry.width? d.id = width := by
  refine ⟨fun fault => ?_, fun d r e hreaches hseals hfits => ?_⟩
  · simp only [compile_overflow_iff, analyze_eq_error_iff]
    constructor
    · rintro ⟨d, r, hreaches, hfault, e, hseals, hover⟩
      exact ⟨hfault, d, r, e, hreaches, hseals, hover⟩
    · rintro ⟨hfault, d, r, e, hreaches, hseals, hover⟩
      exact ⟨d, r, hreaches, hfault, e, hseals, hover⟩
  · cases htotal : Registry.totalWidth 0 (e.fields.map (opened d r).fieldWidth?) with
    | error fault => exact absurd (Registry.overflows_iff.mp htotal).2 hfits
    | ok width =>
      obtain ⟨outcome, hanalyze⟩ := hseals.analyze_ok htotal
      refine ⟨width, outcome, hanalyze, fun n => ?_, fun p hp hnamed => ?_⟩
      · rw [← Registry.totals_iff, htotal, Except.ok.injEq]
      · obtain ⟨next, decl, ds, decls, haccepted, hrest⟩ :=
          hreaches.analyses (compile_analyses hp)
        obtain ⟨rfl, _⟩ := Prod.mk.inj (Except.ok.inj (hanalyze.symm.trans haccepted))
        have hid : e.id = d.id := hseals.eq_insert.2.2.1
        have hfind := r.find?_insert_self { e with isSealed := true, width }
        have hlast := hrest.find?_of_find? (hid ▸ hnamed) hfind
        simp [Registry.width?, ← hid, hlast]

/-- The widths of the two fields exceed the words by one. -/
def overflowing : List CompilationUnit := [.inline "test" ["A x[18446744073709551615] y[1]"]]

theorem overflowing_run : (match compile {} overflowing with
    | .error (_, failure) => failure == .overflow .addition
    | .ok _ => false) = true := by
  decide +kernel

theorem record_width_overflows :
    ∃ q, compile {} overflowing = .error (q, .overflow .addition) := by
  have hrun := overflowing_run
  split at hrun
  · rename_i q failure hcompile
    exact ⟨q, by simpa [hcompile] using hrun⟩
  · cases hrun

/-- The widths of the fields behind `data` exceed the words, but that of `data` is not known. -/
def measured : List CompilationUnit :=
  [.inline "measured" ["Entry kind[1] sums[3, []u32] key[16]",
    "Late n[1] data[n] x[18446744073709551615] y[1]"]]

theorem measured_run : ∃ p ∈ (compile {} measured).toOption,
    p.compilation.registry.width? "Late" = none ∧
    ∃ d ∈ (Directive.parse 0 "Entry kind[1] sums[3, []u32] key[16]").toOption,
      ∃ e ∈ (recordFields d [] (opened d {}) d.fields).1.find? d.id, d.id = "Entry" ∧
        e.fields.map (opened d {}).fieldWidth? = [some 1, some 12, some 16] ∧
        e.fields.map (opened d {}).exactWidth? = [some 1, some 12, some 16] := by
  decide +kernel

theorem record_widths_exact_or_overflow_examples :
    (∃ d r e, Reaches {} 0 {} (overflowing.flatMap (·.directives)) d r ∧ Seals d r e ∧
      (opened d r).Overflows e.fields) ∧
    ∃ p, compile {} measured = .ok p ∧ p.compilation.registry.width? "Late" = none ∧
      p.compilation.registry.width? "Entry" = some 29 := by
  constructor
  · have hrun := overflowing_run
    split at hrun
    · rename_i q failure hcompile
      have hfault : failure = .overflow .addition := by simpa using hrun
      exact (((record_widths_exact_or_overflow {} overflowing).1 .addition).mp
        ⟨q, hfault ▸ hcompile⟩).2
    · cases hrun
  · obtain ⟨p, hp, hlate, d, hd, e, he, hid, hwidths, hexact⟩ := measured_run
    have hparse : Directive.parse 0 "Entry kind[1] sums[3, []u32] key[16]" = .ok d := by
      cases h : Directive.parse 0 "Entry kind[1] sums[3, []u32] key[16]" with
      | error e => simp [h, Except.toOption] at hd
      | ok d' => simpa [h, Except.toOption] using hd
    have hreaches : Reaches {} 0 {} (measured.flatMap (·.directives)) d {} :=
      .here hparse (by simp)
    have hnamed : d.id ≠ anonymous := by rw [hid]; decide
    have hseals : Seals d {} e := by
      refine ⟨opened d {}, ?_, he⟩
      simp [Registry.openRecord, Registry.find?, opened, hnamed]
    have hfits : ¬ (opened d {}).Overflows e.fields := by
      intro hover
      have htotal := Registry.overflows_iff.mpr ⟨rfl, hover⟩
      rw [hwidths] at htotal
      cases htotal
    obtain ⟨width, outcome, _, hwidth, hlast⟩ :=
      (record_widths_exact_or_overflow {} measured).2 d {} e hreaches hseals hfits
    have hsome : width = some 29 :=
      (hwidth 29).mpr ⟨⟨[1, 12, 16], hexact, rfl⟩, by decide⟩
    have hcompile := compile_of_toOption hp
    exact ⟨p, hcompile, hlate, hsome ▸ hid ▸ hlast p hcompile hnamed⟩

end WireRecords
