import WireRecords.Proofs.Codec.StaticWidth
import WireRecords.Proofs.Directive.Readers
import WireRecords.Proofs.WellFormed

/-!
# Containment

One record contains another when a field holds the other as a whole, boxed or not. Analysis looks at
one record at a time: it refuses a record that contains itself, and no longer cycle. A cycle has to
refer forward somewhere, and no record on it has a known width unless a directive gave one that
nothing confirms.
-/
namespace WireRecords

/-! ### Names -/

/-- Letters, digits and underscores, at least one. -/
def IsName (id : String) : Prop :=
  id.toList ≠ [] ∧ ∀ c ∈ id.toList, Directive.isAlphanumeric c = true

/-- Only the path of one segment reads like a name. -/
theorem IsName.eq_singleton {path : List String} (h : IsName ("::".intercalate path)) :
    path = ["::".intercalate path] := by
  match path with
  | [] => exact absurd (by simp) h.1
  | [id] => rw [String.intercalate_singleton]
  | a :: b :: rest =>
    have hcolon := h.2 ':' (by simp [String.intercalate_cons_cons])
    exact absurd hcolon (by decide)

namespace Directive

theorem isName_of_recordName {cs rest : List Char} {id : String}
    (h : recordName cs = some (id, rest)) : IsName id := by
  unfold recordName at h
  split at h
  · rename_i id' rest' hid
    obtain rfl : id' = id := by
      split at h
      · simp at h
      · simpa using congrArg (Option.map Prod.fst) h
    cases cs with
    | nil => simp [identifier] at hid
    | cons c cs =>
      simp only [identifier] at hid
      split at hid
      · rename_i hc
        simp only [Option.some.injEq, Prod.mk.injEq] at hid
        obtain ⟨rfl, -⟩ := hid
        refine ⟨by simp, fun x hx => ?_⟩
        rw [String.toList_ofList] at hx
        rcases List.mem_cons.mp hx with rfl | hx
        · simp [isAlphanumeric, hc]
        · exact mem_takeWhile x hx
      · simp at hid
  · simp at h

theorem isName_of_parse {file : Nat} {text : String} {d : Directive}
    (h : Directive.parse file text = .ok d) : IsName d.id := by
  simp only [Directive.parse] at h
  split at h
  · obtain ⟨_, hid, _⟩ := Head.resolve_eq_ok.mp h
    rw [hid]
    simp only [Head.read, attempt]
    have hanonymous : IsName anonymous := by
      have hlist : anonymous.toList = ['_'] := rfl
      simp [IsName, hlist, isAlphanumeric, isAlpha]
    cases hname : recordName (skip text.toList) with
    | none => exact hanonymous
    | some q =>
      obtain ⟨id, rest⟩ := q
      exact isName_of_recordName hname
  · simp at h

end Directive

theorem isName_of_mem_declaredFrom {config : Config} {file : Nat} {lines : List DirectiveLine}
    {d : Directive} (h : d ∈ declaredFrom config file lines) : IsName d.id := by
  obtain ⟨number, line, _, hparse⟩ := parse_of_mem_declaredFrom h
  exact Directive.isName_of_parse hparse

namespace Analysis

/-- What is contained as a whole is not written as the record being declared. -/
theorem Context.other_of_resolve {c : Context} {f : FieldSyntax} {res : Resolved}
    {path : List String} (h : c.resolve f = .ok res) (hb : builtin? path = none)
    (ht : f.type = some (.named path) ∨ f.type = some (.pointer (.named path))) :
    path ≠ [c.directive.id] := by
  obtain ⟨given, _, h⟩ := bind_eq_ok h
  rcases ht with ht | ht
  · simp only [ht] at h
    obtain ⟨s, hs, _⟩ | hwhole := c.resolveNamed_eq_ok h
    · simp [hb] at hs
    · exact hwhole.other
  · simp only [ht] at h
    obtain ⟨path', hpath, hwhole⟩ := c.resolvePointer_eq_ok h
    obtain rfl := TypeExpr.named.inj hpath
    exact hwhole.other

theorem whole?_eq_some {type : Option TypeExpr} {p : String}
    (h : type.bind TypeExpr.whole? = some p) :
    ∃ path, (type = some (.named path) ∨ type = some (.pointer (.named path))) ∧
      builtin? path = none ∧ p = "::".intercalate path := by
  have houter : ∀ path, TypeExpr.outer? path = some p →
      builtin? path = none ∧ p = "::".intercalate path := by
    intro path hpath
    unfold TypeExpr.outer? at hpath
    split at hpath
    · rename_i hb
      exact ⟨by simpa using hb, (Option.some.inj hpath).symm⟩
    · simp at hpath
  obtain ⟨type, rfl, ht⟩ := Option.bind_eq_some_iff.mp h
  unfold TypeExpr.whole? at ht
  split at ht
  · exact ⟨_, Or.inl rfl, houter _ ht⟩
  · exact ⟨_, Or.inr rfl, houter _ ht⟩
  · simp at ht

/-- What a resolved field contains as a whole is what the directive names, and not the record that
it declares. -/
theorem Context.target_of_resolve {c : Context} {f : FieldSyntax} {res : Resolved} {p : String}
    (hname : IsName c.directive.id) (h : c.resolve f = .ok res)
    (ht : res.type.target? = some p) :
    p ≠ c.directive.id ∧ f.type.bind TypeExpr.whole? = some p := by
  have hwhole : f.type.bind TypeExpr.whole? = some p := by
    cases c.resolve_eq_ok h with
    | selfDelimited hw => exact hw.whole?.trans (hw.target?.symm.trans ht)
    | fixed hw _ => exact hw.whole?.trans (hw.target?.symm.trans ht)
    | _ => simp [FieldType.target?, Resolved.literal] at ht
  refine ⟨?_, hwhole⟩
  obtain ⟨path, htype, hb, rfl⟩ := whole?_eq_some hwhole
  intro hself
  have hsingle : path = ["::".intercalate path] := IsName.eq_singleton (hself ▸ hname)
  rw [hself] at hsingle
  exact c.other_of_resolve h hb htype hsingle

end Analysis

open Analysis Registry

theorem target_of_analyze {d : Directive} {r r' : Registry} {decl : RecordDecl}
    (hname : IsName d.id) (h : analyze d r = .ok (r', .ok decl)) {f : FieldDecl} {p : String}
    (hf : f ∈ decl.fields) (ht : f.type.target? = some p) :
    p ≠ decl.id ∧ ∃ g ∈ d.fields, g.type.bind TypeExpr.whole? = some p := by
  obtain ⟨_, fields, width, hfields, _, rfl, rfl⟩ := analyze_eq_ok h
  obtain ⟨g, hg, rfl⟩ := List.mem_map.mp hf
  obtain ⟨before, after, hs⟩ := List.append_of_mem hg
  obtain ⟨written, hmem, res, rfl, hres⟩ := hfields.split hs
  obtain ⟨hne, hwhole⟩ := Context.target_of_resolve hname hres ht
  exact ⟨hne, written, hmem, hwhole⟩

theorem Analyses.target {r r' : Registry} {ds : List Directive} {decls : List RecordDecl}
    (h : Analyses r ds decls r') (hname : ∀ d ∈ ds, IsName d.id) {decl : RecordDecl}
    (hdecl : decl ∈ decls) {f : FieldDecl} (hf : f ∈ decl.fields) {p : String}
    (ht : f.type.target? = some p) :
    p ≠ decl.id ∧ ∃ d ∈ ds, ∃ g ∈ d.fields, g.type.bind TypeExpr.whole? = some p := by
  induction h with
  | nil => simp at hdecl
  | @cons _ _ _ d _ _ _ head _ ih =>
    rcases List.mem_cons.mp hdecl with rfl | hdecl
    · obtain ⟨hne, hwritten⟩ := target_of_analyze (hname _ (by simp)) head hf ht
      exact ⟨hne, d, by simp, hwritten⟩
    · obtain ⟨hne, d, hd, hwritten⟩ := ih (fun d hd => hname d (by simp [hd])) hdecl
      exact ⟨hne, d, by simp [hd], hwritten⟩

/-! ### Cycles -/

/-- A record contains another one of the run. -/
def Contains (records : List RecordDecl) (outer inner : String) : Prop :=
  (∃ decl ∈ records, decl.id = outer ∧ ∃ f ∈ decl.fields, f.type.target? = some inner) ∧
    inner ∈ records.map (·.id)

instance (records : List RecordDecl) (outer inner : String) :
    Decidable (Contains records outer inner) :=
  inferInstanceAs (Decidable (_ ∧ _))

/-- When a record is first declared. -/
def position (records : List RecordDecl) (id : String) : Nat := (records.map (·.id)).idxOf id

theorem compile_target {config : Config} {units : List CompilationUnit} {p : Progress}
    (h : compile config units = .ok p) {outer inner : String}
    (hc : Contains p.compilation.records outer inner) :
    inner ≠ outer ∧ ∃ d ∈ declared config units, ∃ g ∈ d.fields,
      g.type.bind TypeExpr.whole? = some inner := by
  obtain ⟨⟨decl, hdecl, rfl, f, hf, ht⟩, _⟩ := hc
  exact (compile_analyses h).target (fun d => isName_of_mem_declaredFrom) hdecl hf ht

/-- Without a record that contains itself, a cycle goes forward at some step. -/
theorem forward_of_cycle {records : List RecordDecl} (hself : ∀ id, ¬ Contains records id id)
    {id : String} (h : Relation.TransGen (Contains records) id id) :
    ∃ outer inner, Relation.ReflTransGen (Contains records) id outer ∧
      Contains records outer inner ∧ Relation.ReflTransGen (Contains records) inner id ∧
      position records outer < position records inner := by
  by_contra hback
  push Not at hback
  have hstep : ∀ {outer inner}, Relation.ReflTransGen (Contains records) id outer →
      Contains records outer inner → Relation.ReflTransGen (Contains records) inner id →
      position records inner < position records outer := by
    intro outer inner hto hc hfrom
    refine lt_of_le_of_ne (hback outer inner hto hc hfrom) fun heq => ?_
    obtain rfl := (List.idxOf_inj hc.2).mp heq
    exact hself _ hc
  -- Along the cycle positions only go down, so it cannot close.
  have hdown : ∀ {other}, Relation.TransGen (Contains records) id other →
      Relation.ReflTransGen (Contains records) other id →
      position records other < position records id := by
    intro other hpath
    induction hpath with
    | single hc => exact hstep .refl hc
    | tail hpath hc ih =>
      intro hfrom
      exact (hstep hpath.to_reflTransGen hc hfrom).trans (ih (.head hc hfrom))
  exact absurd (hdown h .refl) (lt_irrefl _)

/-! ### Known widths -/

/-- A nested field of known width contains a record of known width. -/
theorem Registry.SoundField.width?_target {allowed : String → Prop} {r : Registry}
    {before : List RecordedField} {f : RecordedField} {inner : String} {n : Nat}
    (h : SoundField allowed r before f.info f.decl.type) (ht : f.decl.type.target? = some inner)
    (hw : r.fieldWidth? f = some n) : allowed inner ∧ r.width? inner = some n := by
  obtain ⟨hkind, hfold⟩ := fieldWidth?_of_not_slice (n := n) (r := r) (f := f) (by
    rcases FieldType.target?_eq_some ht with htype | htype <;> simp [htype]) hw
  generalize f.decl.type = type at h ht
  cases h with
  | plain hp known =>
    have hwidth := known n hkind hfold
    cases hp with
    | nested ha =>
      obtain rfl := Option.some.inj ht
      exact ⟨ha, hwidth⟩
    | boxed ha =>
      obtain rfl := Option.some.inj ht
      exact ⟨ha, hwidth⟩
    | _ => simp [FieldType.target?] at ht
  | _ => simp [FieldType.target?] at ht

/-- Records of known width contain only such records, and those were there before. The rank of a
record is when it was declared. -/
structure Layered (r : Registry) (rank : String → Nat) (now : Nat) : Prop where
  declared : ∀ {id}, r.contains id = true → rank id < now
  descends : ∀ {id e f inner}, r.find? id = some e → e.width.isSome → f ∈ e.fields →
    f.decl.type.target? = some inner →
      inner ≠ anonymous ∧ (r.width? inner).isSome ∧ rank inner < rank id

theorem contains_of_width? {r : Registry} {id : String} (h : (r.width? id).isSome) :
    r.contains id = true := by
  unfold width? at h
  cases hf : r.find? id with
  | none => simp [hf] at h
  | some e => simp [Registry.contains, hf]

/-- What a new record of known width contains was there before it, with a known width. -/
theorem contained_of_width? {external all seen : List String} {d : Directive} {r : Registry}
    {fields : List RecordedField} {w : Nat} (hexternal : anonymous ∉ external)
    (hseen : ∀ id ∈ seen, r.contains id = true) (hd : ∀ f ∈ d.fields, f.Nests external all seen)
    (hfields : Resolves d (opened d r) [] d.fields fields)
    (htotal : totalWidth 0 (fields.map (opened d r).fieldWidth?) = .ok (some w))
    {f : RecordedField} {inner : String} (hf : f ∈ fields) (ht : f.decl.type.target? = some inner) :
    inner ≠ anonymous ∧ inner ≠ d.id ∧ (r.width? inner).isSome := by
  have hseen' : ∀ id ∈ seen, (opened d r).contains id = true := by
    intro id hid
    simp [opened, contains_insert, hseen id hid]
  obtain ⟨ns, hns, _⟩ := totalWidth_eq_some htotal
  obtain ⟨n, _, hn⟩ := List.mem_map.mp (hns ▸ List.mem_map_of_mem hf)
  obtain ⟨before, after, hs⟩ := List.append_of_mem hf
  obtain ⟨g, hg, res, rfl, hres⟩ := hfields.split hs
  have hsound := (Context.resolve_eq_ok hres).sound hexternal hseen' (hd g hg)
  obtain ⟨hallowed, hknown⟩ :=
    SoundField.width?_target (f := recorded g res) hsound ht hn.symm
  rw [opened, width?_insert] at hknown
  split at hknown
  · simp at hknown
  · rename_i hne
    exact ⟨hallowed.1, hne, by simp [hknown]⟩

theorem Layered.analyze {external all seen : List String} {d : Directive} {r r' : Registry}
    {decl : RecordDecl} {rank : String → Nat} {now : Nat} (hr : Layered r rank now)
    (hexternal : anonymous ∉ external) (hseen : ∀ id ∈ seen, r.contains id = true)
    (hd : ∀ f ∈ d.fields, f.Nests external all seen) (h : analyze d r = .ok (r', .ok decl)) :
    Layered r' (Function.update rank d.id now) (now + 1) := by
  obtain ⟨hnew, fields, width, hfields, htotal, rfl, _⟩ := analyze_eq_ok h
  refine ⟨fun {id} hid => ?_, fun {id e f inner} he hsome hf ht => ?_⟩
  · rw [contains_insert] at hid
    by_cases heq : id = d.id
    · simp [heq]
    · rw [Function.update_of_ne heq]
      have hlt : rank id < now := hr.declared (by simpa [heq] using hid)
      omega
  · rw [find?_insert] at he
    split at he
    · rename_i hid
      obtain rfl := Option.some.inj he
      obtain ⟨w, rfl⟩ := Option.isSome_iff_exists.mp hsome
      obtain ⟨hnamed, hne, hwidth⟩ :=
        contained_of_width? hexternal hseen hd hfields htotal hf ht
      rw [width?_insert, if_neg hne, hid, Function.update_self, Function.update_of_ne hne]
      exact ⟨hnamed, hwidth, hr.declared (contains_of_width? hwidth)⟩
    · rename_i hid
      obtain ⟨hnamed, hwidth, hlt⟩ := hr.descends he hsome hf ht
      have hne : inner ≠ d.id := by
        rintro rfl
        rcases hnew with ha | hnone
        · exact hnamed ha
        · simp [width?, hnone] at hwidth
      rw [width?_insert, if_neg hne, Function.update_of_ne hid, Function.update_of_ne hne]
      exact ⟨hnamed, hwidth, hlt⟩

theorem Analyses.layered {external all seen : List String} {r r' : Registry} {ds : List Directive}
    {decls : List RecordDecl} {rank : String → Nat} {now : Nat} (h : Analyses r ds decls r')
    (hexternal : anonymous ∉ external) (hseen : ∀ id ∈ seen, r.contains id = true)
    (hd : NestsFrom external all seen ds) (hr : Layered r rank now) :
    ∃ rank now, Layered r' rank now := by
  induction h generalizing seen rank now with
  | nil => exact ⟨rank, now, hr⟩
  | cons head _ ih =>
    exact ih (contains_seen head hseen) hd.2 (hr.analyze hexternal hseen hd.1 head)

theorem NestsFrom.ne_anonymous {external all seen : List String} {ds : List Directive}
    (hexternal : anonymous ∉ external) (h : NestsFrom external all seen ds) {d : Directive}
    (hd : d ∈ ds) {f : FieldSyntax} (hf : f ∈ d.fields) {p : String}
    (hp : f.type.bind TypeExpr.whole? = some p) : p ≠ anonymous := by
  induction ds generalizing seen with
  | nil => simp at hd
  | cons _ ds ih =>
    rcases List.mem_cons.mp hd with rfl | hd
    · rcases (h.1 f hf).1 p hp with ⟨_, hne, _⟩ | ⟨hmem, _⟩
      · exact hne
      · exact fun ha => hexternal (ha ▸ hmem)
    · exact ih h.2 hd

section SelfContained

variable {external : List String} {config : Config} {units : List CompilationUnit} {p : Progress}
  (hexternal : anonymous ∉ external) (h : compile config units = .ok p)

include h

theorem Layered.contains {rank : String → Nat} {now : Nat}
    (hlayers : Layered p.compilation.registry rank now) {outer inner : String}
    (hne : outer ≠ anonymous) (hc : Contains p.compilation.records outer inner)
    (hw : (p.compilation.registry.width? outer).isSome) :
    (p.compilation.registry.width? inner).isSome ∧ rank inner < rank outer := by
  obtain ⟨⟨decl, hdecl, rfl, f, hf, ht⟩, _⟩ := hc
  obtain ⟨e, he, hfields⟩ := (compile_analyses h).find?_of_mem hdecl hne
  obtain ⟨g, hg, rfl⟩ := List.mem_map.mp (hfields ▸ hf)
  exact (hlayers.descends he (by simpa [width?, he] using hw) hg ht).2

include hexternal

variable (hs : SelfContained external (declared config units))

include hs

theorem compile_layered : ∃ rank now, Layered p.compilation.registry rank now := by
  have hempty : Layered {} (fun _ => 0) 0 :=
    ⟨by simp [Registry.contains, Registry.find?], by simp [Registry.find?]⟩
  exact (compile_analyses h).layered hexternal (by simp) hs.nests hempty

theorem ne_anonymous_of_contained {outer inner : String}
    (hc : Relation.TransGen (Contains p.compilation.records) outer inner) : inner ≠ anonymous := by
  obtain ⟨_, _, hlast⟩ := Relation.TransGen.tail'_iff.mp hc
  obtain ⟨_, d, hd, g, hg, hwhole⟩ := compile_target h hlast
  exact hs.nests.ne_anonymous hexternal hd hg hwhole

/-- A record of known width is on no cycle where widths are given for known records only. -/
theorem not_cycle_of_width? {id : String} {w : Nat}
    (hw : p.compilation.registry.width? id = some w) :
    ¬ Relation.TransGen (Contains p.compilation.records) id id := by
  intro hcycle
  obtain ⟨rank, now, hlayers⟩ := compile_layered hexternal h hs
  have hnamed := @ne_anonymous_of_contained external config units p hexternal h hs
  have hdown : ∀ {other}, Relation.TransGen (Contains p.compilation.records) id other →
      (p.compilation.registry.width? other).isSome ∧ rank other < rank id := by
    intro other hpath
    induction hpath with
    | single hc => exact hlayers.contains h (hnamed hcycle) hc (by simp [hw])
    | tail hpath hc ih =>
      obtain ⟨hwidth, hlt⟩ := hlayers.contains h (hnamed hpath) hc ih.1
      exact ⟨hwidth, hlt.trans ih.2⟩
  exact absurd (hdown hcycle).2 (lt_irrefl _)

end SelfContained

/-- No record contains itself, and every longer cycle of containment goes forward: some record on it
contains one that is declared later. Where widths are given for known records only, no record on a
cycle has a known width. -/
theorem containment_cycles_go_forward {config : Config} {units : List CompilationUnit}
    {p : Progress} (h : compile config units = .ok p) :
    (∀ id, ¬ Contains p.compilation.records id id) ∧
    (∀ id, Relation.TransGen (Contains p.compilation.records) id id →
      ∃ outer inner, Relation.ReflTransGen (Contains p.compilation.records) id outer ∧
        Contains p.compilation.records outer inner ∧
        Relation.ReflTransGen (Contains p.compilation.records) inner id ∧
        position p.compilation.records outer < position p.compilation.records inner) ∧
    ∀ external, anonymous ∉ external → SelfContained external (declared config units) →
      ∀ id w, p.compilation.registry.width? id = some w →
        ¬ Relation.TransGen (Contains p.compilation.records) id id := by
  have hself : ∀ id, ¬ Contains p.compilation.records id id :=
    fun id hc => (compile_target h hc).1 rfl
  exact ⟨hself, fun id => forward_of_cycle hself,
    fun external hexternal hs id w => not_cycle_of_width? hexternal h hs⟩

/-- Two records that contain each other. -/
def mutualRecords : List CompilationUnit := [.inline "mutual" ["A b[,B]", "B a[,A]"]]

theorem mutualRecords_run : ∃ p ∈ (compile {} mutualRecords).toOption,
    Contains p.compilation.records "A" "B" ∧ Contains p.compilation.records "B" "A" := by
  decide +kernel

/-- Records that contain each other are accepted. -/
theorem mutual_containment_accepted :
    ∃ p, compile {} mutualRecords = .ok p ∧
      Relation.TransGen (Contains p.compilation.records) "A" "A" := by
  obtain ⟨p, hp, hab, hba⟩ := mutualRecords_run
  exact ⟨p, compile_of_toOption hp, .tail (.single hab) hba⟩

/-- Records that contain each other in the order in which they are declared. -/
def nestedRecords : List CompilationUnit :=
  [.inline "nested" ["Inner a[2]", "Middle b[, Inner] n[1]", "Outer c[, *Middle] d[, Inner]"]]

theorem nestedRecords_selfContained : SelfContained [] (declared {} nestedRecords) := by
  decide +kernel

theorem nestedRecords_run : ∃ p ∈ (compile {} nestedRecords).toOption,
    Contains p.compilation.records "Outer" "Middle" ∧
      Contains p.compilation.records "Middle" "Inner" ∧
      p.compilation.registry.width? "Outer" = some 5 := by
  decide +kernel

theorem containment_cycles_go_forward_examples :
    (∃ p, compile {} mutualRecords = .ok p ∧ ∃ outer inner,
      Contains p.compilation.records outer inner ∧
        position p.compilation.records outer < position p.compilation.records inner) ∧
    ∃ p, compile {} nestedRecords = .ok p ∧ SelfContained [] (declared {} nestedRecords) ∧
      p.compilation.registry.width? "Outer" = some 5 ∧
      Contains p.compilation.records "Outer" "Middle" ∧
      ¬ Relation.TransGen (Contains p.compilation.records) "Outer" "Outer" := by
  constructor
  · obtain ⟨p, hp, hab, hba⟩ := mutualRecords_run
    have hcompile := compile_of_toOption hp
    obtain ⟨outer, inner, _, hc, _, hlt⟩ :=
      (containment_cycles_go_forward hcompile).2.1 "A" (.tail (.single hab) hba)
    exact ⟨p, hcompile, outer, inner, hc, hlt⟩
  · obtain ⟨p, hp, hc, _, hwidth⟩ := nestedRecords_run
    have hcompile := compile_of_toOption hp
    exact ⟨p, hcompile, nestedRecords_selfContained, hwidth, hc,
      (containment_cycles_go_forward hcompile).2.2 [] (by simp) nestedRecords_selfContained _ _
        hwidth⟩

end WireRecords
