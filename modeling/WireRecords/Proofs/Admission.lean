import WireRecords.Proofs.RecordWidth
import WireRecords.Proofs.Rules

/-!
# Which directives are accepted

Analysis goes through the fields of a directive and stops at the first that is refused. A field can
only refer to those before it, so the fields that are recorded up to any point are those that follow
the rules up to it. Everything about the fields of a directive is shown for one more field at its end.
-/
namespace WireRecords
open Analysis

namespace Directive

/-- Fields that `d` can start with. -/
structure AdmitsFields (d : Directive) (r : Registry) (fs : List FieldSyntax) : Prop where
  distinct : (fs.map (·.id)).Nodup
  field : ∀ before f after, fs = before ++ f :: after → d.AdmitsField r before f

/-- A directive that can follow the records of `r`. -/
structure Admissible (d : Directive) (r : Registry) : Prop where
  unused : d.id = anonymous ∨ r.contains d.id = false
  fields : d.AdmitsFields r d.fields

/-- The widths of the fields of `d` do not overflow in total, as far as they are known. -/
def Fits (d : Directive) (r : Registry) : Prop :=
  ∀ e, Seals d r e → ¬ (opened d r).Overflows e.fields

theorem admitsFields_nil (d : Directive) (r : Registry) : d.AdmitsFields r [] :=
  ⟨List.nodup_nil, fun before f after h => by simp at h⟩

/-- The last field brings its own rule and nothing for the fields before it. -/
theorem admitsFields_concat {d : Directive} {r : Registry} {fs : List FieldSyntax}
    {f : FieldSyntax} :
    d.AdmitsFields r (fs ++ [f]) ↔
      d.AdmitsFields r fs ∧ d.AdmitsField r fs f ∧ ∀ g ∈ fs, g.id ≠ f.id := by
  have hnodup : ((fs ++ [f]).map (·.id)).Nodup ↔
      (∀ g ∈ fs, g.id ≠ f.id) ∧ (fs.map (·.id)).Nodup := by
    rw [List.map_append, List.map_singleton, ← List.concat_eq_append, List.nodup_concat]
    simp
  constructor
  · intro h
    obtain ⟨hfresh, hdistinct⟩ := hnodup.mp h.distinct
    refine ⟨⟨hdistinct, fun before g after hs => ?_⟩, h.field fs f [] rfl, hfresh⟩
    exact h.field before g (after ++ [f]) (by simp [hs])
  · rintro ⟨h, hf, hfresh⟩
    refine ⟨hnodup.mpr ⟨hfresh, h.distinct⟩, fun before g after hs => ?_⟩
    obtain ⟨as, rfl, hlast⟩ | ⟨bs, rfl, hrest⟩ := List.append_eq_append_iff.mp hs
    · obtain ⟨rfl, hg⟩ | ⟨_, hg⟩ := List.singleton_eq_append_iff.mp hlast
      · obtain ⟨rfl, _⟩ := List.cons.inj hg
        simpa using hf
      · simp at hg
    · obtain ⟨rfl, hg⟩ | ⟨bs, rfl, _⟩ := List.cons_eq_append_iff.mp hrest
      · obtain ⟨rfl, _⟩ := List.cons.inj hg
        simpa using hf
      · exact h.field before g bs rfl

end Directive

namespace Analysis

/-! ### From field to field -/

variable {d : Directive} {r : Registry} {before added : List RecordedField}
  {fs : List FieldSyntax} {f : FieldSyntax}

theorem Resolves.exists_scalar_iff (h : Resolves d r before fs added) (id : String) :
    (∃ g ∈ added.map (·.decl), g.id = id ∧ ∃ s, g.type = .scalar s) ↔
      ∃ g ∈ fs, g.id = id ∧ g.IsScalar := by
  induction h with
  | nil => simp
  | @cons before added f fs res resolved fresh rest ih =>
    have hscalar := isScalar_iff resolved
    rw [List.map_cons, List.exists_mem_cons_iff, List.exists_mem_cons_iff, ih]
    simp only [recorded, hscalar]

/-- The last field is resolved behind all others. -/
theorem resolves_concat_iff :
    (∃ all, Resolves d r before (fs ++ [f]) all) ↔
      ∃ added res, Resolves d r before fs added ∧
        Context.resolve ⟨d, (before ++ added).map (·.decl), r⟩ f = .ok res ∧
        ∀ g ∈ before ++ added, g.decl.id ≠ f.id := by
  induction fs generalizing before with
  | nil =>
    constructor
    · rintro ⟨all, h⟩
      cases h with
      | cons resolved fresh _ => exact ⟨[], _, .nil, by simpa using resolved, by simpa using fresh⟩
    · rintro ⟨added, res, h, hres, hfresh⟩
      cases h with
      | nil => exact ⟨_, .cons (by simpa using hres) (by simpa using hfresh) .nil⟩
  | cons g fs ih =>
    constructor
    · rintro ⟨all, h⟩
      cases h with
      | cons resolved fresh rest =>
        obtain ⟨added, res, hrest, hres, hfresh⟩ := ih.mp ⟨_, rest⟩
        exact ⟨_, res, .cons resolved fresh hrest, by simpa using hres, by simpa using hfresh⟩
    · rintro ⟨added, res, h, hres, hfresh⟩
      cases h with
      | cons resolved fresh rest =>
        obtain ⟨all, hall⟩ := ih.mpr ⟨_, res, rest, by simpa using hres, by simpa using hfresh⟩
        exact ⟨_, .cons resolved fresh hall⟩

theorem Resolves.map_id (h : Resolves d r before fs added) :
    added.map (·.decl.id) = fs.map (·.id) := by
  have hids := congrArg (List.map Prod.fst) h.map_decl
  simpa [Function.comp_def] using hids

/-- Behind fields that are resolved, the next one is resolved by the rules. -/
theorem Resolves.admitsField_iff (h : Resolves d (opened d r) [] fs added) (f : FieldSyntax) :
    (∃ res, Context.resolve ⟨d, added.map (·.decl), opened d r⟩ f = .ok res) ↔
      d.AdmitsField r fs f := by
  have hnodup : ((added.map (·.decl)).map (·.id)).Nodup := by
    simpa [Function.comp_def] using h.nodup (by simp)
  have hrefs : ∀ w : Width, RefersTo (added.map (·.decl)) w ↔
      ∀ id ∈ w.refs, ∃ g ∈ fs, g.id = id ∧ g.IsScalar := fun w =>
    forall₂_congr fun id _ => h.exists_scalar_iff id
  rw [resolve_isOk_iff hnodup]
  constructor
  · rintro ⟨hwidth, htype⟩
    exact ⟨fun w hw => ⟨(hrefs w).mp (hwidth w hw).1, (hwidth w hw).2⟩, htype⟩
  · rintro ⟨hwidth, htype⟩
    exact ⟨fun w hw => ⟨(hrefs w).mpr (hwidth w hw).refs, (hwidth w hw).folds⟩, htype⟩

theorem Resolves.fresh_iff (h : Resolves d r before fs added) (id : String) :
    (∀ g ∈ added, g.decl.id ≠ id) ↔ ∀ g ∈ fs, g.id ≠ id := by
  have hmem : id ∈ added.map (·.decl.id) ↔ id ∈ fs.map (·.id) := by rw [h.map_id]
  simpa using not_congr hmem

/-- Fields are resolved one after the other exactly if each of them follows the rules. -/
theorem resolves_iff_admitsFields (d : Directive) (r : Registry) (fs : List FieldSyntax) :
    (∃ fields, Resolves d (opened d r) [] fs fields) ↔ d.AdmitsFields r fs := by
  induction fs using List.reverseRecOn with
  | nil => exact iff_of_true ⟨[], .nil⟩ (d.admitsFields_nil r)
  | append_singleton fs f ih =>
    rw [Directive.admitsFields_concat, ← ih, resolves_concat_iff]
    simp only [List.nil_append]
    constructor
    · rintro ⟨added, res, h, hres, hfresh⟩
      exact ⟨⟨added, h⟩, (h.admitsField_iff f).mp ⟨res, hres⟩, (h.fresh_iff f.id).mp hfresh⟩
    · rintro ⟨⟨added, h⟩, hadmits, hfresh⟩
      obtain ⟨res, hres⟩ := (h.admitsField_iff f).mpr hadmits
      exact ⟨added, res, h, hres, (h.fresh_iff f.id).mpr hfresh⟩

/-- A refused field breaks a rule. -/
theorem Refused.not_admitsFields {fault : Fault} (h : Resolves d (opened d r) [] fs added)
    (hrefused : Refused d (opened d r) added f fault) : ¬ d.AdmitsFields r (fs ++ [f]) := by
  rw [Directive.admitsFields_concat]
  rintro ⟨_, hadmits, hfresh⟩
  obtain ⟨res, hres⟩ := (h.admitsField_iff f).mpr hadmits
  cases hrefused with
  | unresolved failed => simp [failed] at hres
  | @repeated _ g _ first =>
    have hid : g.decl.id = f.id := by simpa using List.find?_some first
    exact (h.fresh_iff f.id).mpr hfresh g (List.mem_of_find?_eq_some first) hid

end Analysis

/-! ### Directives -/

variable {d : Directive} {r : Registry}

theorem Directive.fits_of_analyze {out : Registry × Except Fault RecordDecl}
    (h : analyze d r = .ok out) : d.Fits r := by
  intro e hseals hover
  have herror := analyze_eq_error_iff.mpr ⟨rfl, e, hseals, hover⟩
  rw [h] at herror
  cases herror

/-- The fields of a directive that fits are sealed. -/
theorem Directive.Fits.analyze {fields : List RecordedField} {fault : Option Fault}
    (hfits : d.Fits r) (hnew : d.id = anonymous ∨ r.find? d.id = none)
    (h : Records d r fields fault) :
    ∃ width, analyze d r =
      .ok (r.insert ⟨d.id, d.span, fields, true, width⟩, verdict d fields fault) := by
  have hseals : Seals d r ⟨d.id, d.span, fields, false, none⟩ := by
    refine ⟨opened d r, openRecord_opened hnew, ?_⟩
    rw [h.recordFields]
    exact r.find?_insert_self ⟨d.id, d.span, fields, false, none⟩
  rw [analyze_of_records hnew h]
  cases htotal : Registry.totalWidth 0 (fields.map (opened d r).fieldWidth?) with
  | error e => exact absurd (Registry.overflows_iff.mp htotal).2 (hfits _ hseals)
  | ok width => exact ⟨width, rfl⟩

/-- Analysis accepts exactly the directives that the rules admit. Where the name is taken nothing
changes. Where a field breaks a rule the record is sealed with the fields before the first such
field, and the other records stay as they are. -/
theorem analysis_accepts_admissible (hfits : d.Fits r) :
    ((∃ s decl, analyze d r = .ok (s, .ok decl)) ↔ d.Admissible r) ∧
      (¬ (d.id = anonymous ∨ r.contains d.id = false) →
        ∃ fault, analyze d r = .ok (r, .error fault)) ∧
      (d.id = anonymous ∨ r.contains d.id = false → ¬ d.AdmitsFields r d.fields →
        ∃ earlier f later, d.fields = earlier ++ f :: later ∧ d.AdmitsFields r earlier ∧
          ¬ d.AdmitsFields r (earlier ++ [f]) ∧
          ∃ fields width fault, Resolves d (opened d r) [] earlier fields ∧
            analyze d r = .ok (r.insert ⟨d.id, d.span, fields, true, width⟩, .error fault)) := by
  have hunused : (d.id = anonymous ∨ r.contains d.id = false) ↔
      d.id = anonymous ∨ r.find? d.id = none := by
    simp [Registry.contains]
  have htaken : ¬ (d.id = anonymous ∨ r.contains d.id = false) →
      ∃ fault, analyze d r = .ok (r, .error fault) := by
    rw [hunused, not_or]
    rintro ⟨hne, hsome⟩
    obtain ⟨e, he⟩ := Option.ne_none_iff_exists'.mp hsome
    exact ⟨_, analyze_of_taken hne he⟩
  refine ⟨⟨?_, ?_⟩, htaken, ?_⟩
  · rintro ⟨s, decl, h⟩
    obtain ⟨hnew, fields, width, hfields, _⟩ := analyze_eq_ok h
    exact ⟨hunused.mpr hnew, (resolves_iff_admitsFields d r d.fields).mp ⟨fields, hfields⟩⟩
  · rintro ⟨hnew, hfields⟩
    obtain ⟨fields, hresolves⟩ := (resolves_iff_admitsFields d r d.fields).mpr hfields
    have hrecords : Records d r fields none := hresolves
    obtain ⟨width, h⟩ := hfits.analyze (hunused.mp hnew) hrecords
    exact ⟨_, _, h⟩
  · intro hnew hbroken
    obtain ⟨fields, fault, hrecords⟩ := exists_records d r
    obtain ⟨width, h⟩ := hfits.analyze (hunused.mp hnew) hrecords
    cases fault with
    | none => exact absurd ((resolves_iff_admitsFields d r d.fields).mp ⟨fields, hrecords⟩) hbroken
    | some fault =>
      obtain ⟨earlier, f, later, hsplit, hearlier, hrefused⟩ := hrecords
      exact ⟨earlier, f, later, hsplit,
        (resolves_iff_admitsFields d r earlier).mp ⟨fields, hearlier⟩,
        hrefused.not_admitsFields hearlier, fields, width, fault, hearlier, h⟩

/-- A directive whose second field refers to the third. -/
def draft : String := "Draft kind[1] body[mark, []u16] mark[1]"

theorem draft_refused :
    ∃ d ∈ (Directive.parse 0 draft).toOption, ∃ t ∈ (analyze d {}).toOption,
      t.2.toOption = none := by
  decide +kernel

theorem analysis_accepts_admissible_letters :
    (∃ (d : Directive) (r : Registry), d.Fits r ∧ d.Admissible r ∧
        ∃ s decl, analyze d r = .ok (s, .ok decl) ∧ decl.fields.length = 9) ∧
      ∃ (d : Directive) (r : Registry), d.Fits r ∧ ¬ d.Admissible r ∧
        ∃ earlier f later, d.fields = earlier ++ f :: later ∧
          d.AdmitsFields r earlier ∧ ¬ d.AdmitsFields r (earlier ++ [f]) := by
  constructor
  · obtain ⟨_, _, s, _, d, _, ⟨r', outcome⟩, ht, decl, hdecl, htypes⟩ := letters_accepted
    have hok : outcome = .ok decl := ok_of_toOption hdecl
    have hrun : analyze d s.1 = .ok (r', .ok decl) := hok ▸ ok_of_toOption ht
    have hfits := Directive.fits_of_analyze hrun
    have hlength := congrArg List.length htypes
    exact ⟨d, s.1, hfits, (analysis_accepts_admissible hfits).1.mp ⟨r', decl, hrun⟩, r', decl, hrun,
      by simpa using hlength⟩
  · obtain ⟨d, _, ⟨s, outcome⟩, ht, hrefused⟩ := draft_refused
    have hrun : analyze d {} = .ok (s, outcome) := ok_of_toOption ht
    have hfits := Directive.fits_of_analyze hrun
    have hnew : d.id = anonymous ∨ Registry.contains {} d.id = false := Or.inr rfl
    obtain ⟨haccepted, _, hfirst⟩ := analysis_accepts_admissible hfits
    have hbroken : ¬ d.Admissible {} := by
      rw [← haccepted]
      rintro ⟨s', decl, hok⟩
      obtain ⟨_, rfl⟩ := Prod.mk.inj (Except.ok.inj (hrun.symm.trans hok))
      simp [Except.toOption] at hrefused
    obtain ⟨earlier, f, later, hsplit, hearlier, hnext, _⟩ :=
      hfirst hnew fun hfields => hbroken ⟨hnew, hfields⟩
    exact ⟨d, {}, hfits, hbroken, earlier, f, later, hsplit, hearlier, hnext⟩

end WireRecords
