import WireRecords.Proofs.Containment
import WireRecords.Proofs.Names
import WireRecords.Proofs.Verdict

/-!
# What the analysis of a directive depends on

The number of a directive shows in its spans only, and the analysis asks the registry only for the
name of the directive and the names that its types mention. `analyze_atFile` carries an accepted
directive over to another number and to any registry that agrees on these names.
-/
namespace WireRecords

/-! ### The number of a directive -/

/-- The same stretch of the directive numbered `file`. -/
def Span.atFile (file : Nat) (s : Span) : Span := { s with file }

def FieldSyntax.atFile (file : Nat) (f : FieldSyntax) : FieldSyntax :=
  { f with span := f.span.atFile file }

def Directive.atFile (file : Nat) (d : Directive) : Directive :=
  { d with span := d.span.atFile file, fields := d.fields.map (·.atFile file) }

def FieldDecl.atFile (file : Nat) (f : FieldDecl) : FieldDecl :=
  { f with span := f.span.atFile file }

def RecordDecl.atFile (file : Nat) (r : RecordDecl) : RecordDecl :=
  { r with span := r.span.atFile file, fields := r.fields.map (·.atFile file) }

def RecordedField.atFile (file : Nat) (f : RecordedField) : RecordedField :=
  { f with decl := f.decl.atFile file }

def RecordEntry.atFile (file : Nat) (e : RecordEntry) : RecordEntry :=
  { e with span := e.span.atFile file, fields := e.fields.map (·.atFile file) }

@[simp] theorem RecordDecl.atFile_atFile (m n : Nat) (r : RecordDecl) :
    (r.atFile n).atFile m = r.atFile m := by
  simp [atFile, FieldDecl.atFile, Span.atFile, Function.comp_def]

@[simp] theorem RecordEntry.atFile_atFile (m n : Nat) (e : RecordEntry) :
    (e.atFile n).atFile m = e.atFile m := by
  simp [atFile, RecordedField.atFile, FieldDecl.atFile, Span.atFile, Function.comp_def]

theorem map_decl_atFile (file : Nat) (fields : List RecordedField) :
    (fields.map (·.atFile file)).map (·.decl) = (fields.map (·.decl)).map (·.atFile file) := by
  simp [RecordedField.atFile]

namespace Directive

theorem resolveEndian_atFile {m : Nat} {cs : List Char} {mark : Option (List Char × List Char)}
    {e : Endian} (h : resolveEndian ⟨m, cs⟩ mark = .ok e) (n : Nat) :
    resolveEndian ⟨n, cs⟩ mark = .ok e := by
  unfold resolveEndian at h ⊢
  split at h
  · exact h
  · split at h <;> simp_all

theorem FieldTree.resolve_atFile {m : Nat} {cs : List Char} {tree : FieldTree} {f : FieldSyntax}
    (h : tree.resolve ⟨m, cs⟩ = .ok f) (n : Nat) :
    tree.resolve ⟨n, cs⟩ = .ok (f.atFile n) := by
  obtain ⟨hspan, hid, hwidth, htype, hendian, hgiven⟩ := resolve_field_eq_ok.mp h
  refine resolve_field_eq_ok.mpr ⟨?_, hid, hwidth, htype, resolveEndian_atFile hendian n, hgiven⟩
  simp only [FieldSyntax.atFile, hspan]
  rfl

theorem fields_atFile {m : Nat} {cs : List Char} {trees : List FieldTree} {fs : List FieldSyntax}
    (h : trees.mapM (FieldTree.resolve ⟨m, cs⟩) = .ok fs) (n : Nat) :
    trees.mapM (FieldTree.resolve ⟨n, cs⟩) = .ok (fs.map (·.atFile n)) := by
  induction trees generalizing fs with
  | nil =>
    simp only [List.mapM_nil, pure, Except.pure, Except.ok.injEq] at h
    simp [← h, pure, Except.pure]
  | cons tree trees ih =>
    obtain ⟨f, fs, hf, hfs, rfl⟩ := mapM_cons_eq_ok.mp h
    exact mapM_cons_eq_ok.mpr ⟨_, _, tree.resolve_atFile hf n, ih hfs, rfl⟩

/-- The number of a directive shows in its spans only. -/
theorem parse_atFile {m : Nat} {text : String} {d : Directive}
    (h : Directive.parse m text = .ok d) (n : Nat) :
    Directive.parse n text = .ok (d.atFile n) := by
  simp only [Directive.parse] at h ⊢
  split at h
  · rename_i hcomplete
    rw [if_pos hcomplete]
    obtain ⟨hspan, hid, hfields⟩ := Head.resolve_eq_ok.mp h
    refine Head.resolve_eq_ok.mpr ⟨?_, hid, fields_atFile hfields n⟩
    simp only [atFile, hspan]
    rfl
  · simp at h

end Directive

/-! ### The names a directive depends on -/

/-- Both registries have a record of this name and width, or neither has one of the name. -/
structure Registry.AgreeOn (r s : Registry) (id : String) : Prop where
  contains : s.contains id = r.contains id
  width? : s.width? id = r.width? id

theorem Registry.fieldWidth?_of_agreeOn {r s : Registry} {f : RecordedField}
    (h : ∀ path, f.decl.type.path? = some path → r.AgreeOn s path) :
    s.fieldWidth? f = r.fieldWidth? f := by
  have helement : ∀ element, f.decl.type = .slice element →
      s.elementWidth? element = r.elementWidth? element := by
    intro element ht
    cases element with
    | nested path => exact (h path (by rw [ht]; rfl)).width?
    | _ => rfl
  unfold fieldWidth?
  split
  · split
    · rename_i ht
      rw [helement _ ht]
    · rfl
  · rfl

/-- A type of the directive mentions the path. -/
def Directive.Mentions (d : Directive) (path : String) : Prop :=
  ∃ f ∈ d.fields, ∃ ids, f.type.bind TypeExpr.path? = some ids ∧ path = "::".intercalate ids

namespace Analysis

theorem path?_of_whole? {type : Option TypeExpr} {path : String}
    (h : type.bind TypeExpr.whole? = some path) :
    ∃ ids, type.bind TypeExpr.path? = some ids ∧ path = "::".intercalate ids := by
  obtain ⟨ids, rfl | rfl, _, hpath⟩ := whole?_eq_some h
  · exact ⟨ids, rfl, hpath⟩
  · exact ⟨ids, rfl, hpath⟩

/-- A representation mentions a path that the type does. -/
theorem path?_of_represents {type : FieldType} {written : Option TypeExpr} {path : String}
    (h : type.Represents written) (hpath : type.path? = some path) :
    ∃ ids, written.bind TypeExpr.path? = some ids ∧ path = "::".intercalate ids := by
  rw [h.path] at hpath
  obtain ⟨ids, hids, houter⟩ := Option.bind_eq_some_iff.mp hpath
  unfold TypeExpr.outer? at houter
  split at houter
  · exact ⟨ids, hids, (Option.some.inj houter).symm⟩
  · simp at houter

section Resolving

variable {c k : Context} {n : Nat} {f : FieldSyntax} {res : Resolved}

theorem Context.checkRef_atFile (hresolved : k.resolved = c.resolved.map (·.atFile n))
    {ref : String} (h : c.checkRef ref = .ok ()) : k.checkRef ref = .ok () := by
  have hfind : k.resolved.find? (·.id == ref) =
      (c.resolved.find? (·.id == ref)).map (·.atFile n) := by
    rw [hresolved, List.find?_map]
    rfl
  unfold checkRef at h ⊢
  rw [hfind]
  cases hc : c.resolved.find? (·.id == ref) with
  | none =>
    simp only [hc] at h
    split at h <;> simp at h
  | some g =>
    have htype : (g.atFile n).type = g.type := rfl
    simp only [hc] at h
    simp only [Option.map_some, htype]
    cases ht : g.type <;> simp_all

theorem Context.checkRefs_atFile (hresolved : k.resolved = c.resolved.map (·.atFile n))
    {refs : List String} (h : c.checkRefs refs = .ok ()) : k.checkRefs refs = .ok () := by
  induction refs with
  | nil => rfl
  | cons ref refs ih =>
    simp only [checkRefs] at h ⊢
    cases href : c.checkRef ref with
    | error e => simp [href] at h
    | ok u =>
      simp only [href] at h
      simp only [checkRef_atFile hresolved href, ih h]

theorem Context.givenWidth_atFile (hresolved : k.resolved = c.resolved.map (·.atFile n))
    {width : Option Width} {given : GivenWidth} (h : c.givenWidth width = .ok given) :
    k.givenWidth width = .ok given := by
  cases width with
  | none => exact h
  | some w =>
    simp only [givenWidth] at h ⊢
    cases hrefs : c.checkRefs w.refs with
    | error e => simp [hrefs] at h
    | ok u =>
      simp only [hrefs] at h
      simp only [checkRefs_atFile hresolved hrefs]
      exact h

theorem Context.resolveNested_agreeOn {path : String} (h : c.registry.AgreeOn k.registry path)
    (type : FieldType) (given : Option Nat) :
    k.resolveNested type path given = c.resolveNested type path given := by
  simp only [resolveNested, h.contains, h.width?]

theorem Context.recordPath_agreeOn (hid : k.directive.id = c.directive.id) (path : List String) :
    k.recordPath path = c.recordPath path := by
  simp only [recordPath, hid]

theorem Context.resolveNamed_agreeOn (hid : k.directive.id = c.directive.id)
    {path : List String} (h : ∀ p, TypeExpr.outer? path = some p → c.registry.AgreeOn k.registry p)
    (given : GivenWidth) : k.resolveNamed given path = c.resolveNamed given path := by
  unfold resolveNamed
  cases hb : builtin? path with
  | some s => rfl
  | none =>
    simp only [recordPath_agreeOn hid]
    cases hpath : c.recordPath path with
    | error e => rfl
    | ok p =>
      have hagree := h p (by rw [outer?_eq_some hb, c.recordPath_eq_ok hpath])
      simp only [bind, Except.bind, resolveNested_agreeOn hagree]

theorem Context.resolvePointer_agreeOn (hid : k.directive.id = c.directive.id)
    {target : TypeExpr}
    (h : ∀ p, (TypeExpr.pointer target).whole? = some p → c.registry.AgreeOn k.registry p)
    (given : GivenWidth) : k.resolvePointer given target = c.resolvePointer given target := by
  unfold resolvePointer
  cases target with
  | named path =>
    cases hb : builtin? path with
    | some s => simp only [hb]
    | none =>
      simp only [hb, recordPath_agreeOn hid]
      cases hpath : c.recordPath path with
      | error e => rfl
      | ok p =>
        have hagree := h p (by rw [TypeExpr.whole?, outer?_eq_some hb, c.recordPath_eq_ok hpath])
        simp only [bind, Except.bind, resolveNested_agreeOn hagree]
  | _ => rfl

/-- What a field is resolved to does not depend on the numbers of directives, nor on any record but
the one that it contains. -/
theorem Context.resolve_atFile (hid : k.directive.id = c.directive.id)
    (hresolved : k.resolved = c.resolved.map (·.atFile n))
    (hagree : ∀ path, f.type.bind TypeExpr.whole? = some path →
      c.registry.AgreeOn k.registry path)
    (h : c.resolve f = .ok res) : k.resolve (f.atFile n) = .ok res := by
  simp only [resolve, bind, Except.bind] at h ⊢
  cases hg : c.givenWidth f.width with
  | error e => simp [hg] at h
  | ok given =>
    have hk : k.givenWidth (f.atFile n).width = .ok given := givenWidth_atFile hresolved hg
    have htype : (f.atFile n).type = f.type := rfl
    simp only [hg] at h
    simp only [hk, htype]
    cases ht : f.type with
    | none => simpa only [ht] using h
    | some type =>
      rw [ht] at hagree
      cases type with
      | named path =>
        simp only [ht] at h
        exact (resolveNamed_agreeOn hid hagree given).trans h
      | pointer target =>
        simp only [ht] at h
        exact (resolvePointer_agreeOn hid hagree given).trans h
      | slice element => simpa only [ht] using h
      | array length element => simpa only [ht] using h
      | constant value => simpa only [ht] using h

end Resolving

section Recording

variable {d : Directive} {r s : Registry}

theorem Resolves.atFile {k : Directive} {before added : List RecordedField}
    {fs : List FieldSyntax} (hid : k.id = d.id) (n : Nat)
    (hagree : ∀ f ∈ fs, ∀ path, f.type.bind TypeExpr.whole? = some path → r.AgreeOn s path)
    (h : Resolves d r before fs added) :
    Resolves k s (before.map (·.atFile n)) (fs.map (·.atFile n)) (added.map (·.atFile n)) := by
  induction h with
  | nil => exact .nil
  | @cons before added f fs res resolved fresh rest ih =>
    have hres : Context.resolve ⟨k, (before.map (·.atFile n)).map (·.decl), s⟩ (f.atFile n) =
        .ok res :=
      Context.resolve_atFile (c := ⟨d, before.map (·.decl), r⟩) hid (map_decl_atFile n before)
        (hagree f (by simp)) resolved
    have hfresh : ∀ g ∈ before.map (·.atFile n), g.decl.id ≠ (f.atFile n).id := by
      simpa [RecordedField.atFile, FieldDecl.atFile, FieldSyntax.atFile] using fresh
    have hrest := ih fun g hg => hagree g (by simp [hg])
    rw [List.map_append] at hrest
    exact .cons hres hfresh hrest

/-- While a directive is analysed its own record is known, without a width. -/
theorem agreeOn_opened {k : Directive} (hid : k.id = d.id) {path : String}
    (h : path ≠ d.id → r.AgreeOn s path) : (opened d r).AgreeOn (opened k s) path := by
  by_cases hp : path = d.id
  · constructor
    · simp [opened, Registry.contains_insert, hid, hp]
    · simp [opened, Registry.width?_insert, hid, hp]
  · constructor
    · simp [opened, Registry.contains_insert, hid, (h hp).contains]
    · simp [opened, Registry.width?_insert, hid, hp, (h hp).width?]

end Recording

end Analysis

open Analysis

/-- An accepted directive is accepted under any number and by any registry that agrees on its name
and on the names that it mentions; the entry is the same but for the number. -/
theorem analyze_atFile {d : Directive} {r next : Registry} {decl : RecordDecl}
    (h : analyze d r = .ok (next, .ok decl)) :
    ∃ e, e.id = d.id ∧ next = r.insert e ∧
      ∀ n s, (∀ id, id = d.id ∨ d.Mentions id → r.AgreeOn s id) →
        analyze (d.atFile n) s = .ok (s.insert (e.atFile n), .ok (decl.atFile n)) := by
  obtain ⟨hnew, fields, width, hfields, htotal, rfl, rfl⟩ := analyze_eq_ok h
  refine ⟨⟨d.id, d.span, fields, true, width⟩, rfl, rfl, fun n s hagree => ?_⟩
  have hid : (d.atFile n).id = d.id := rfl
  have hopened : ∀ path, d.Mentions path → (opened d r).AgreeOn (opened (d.atFile n) s) path :=
    fun path hpath => agreeOn_opened hid fun _ => hagree path (Or.inr hpath)
  have hnew' : (d.atFile n).id = anonymous ∨ s.find? (d.atFile n).id = none := by
    refine hnew.imp id fun hfind => ?_
    have hcontains := (hagree d.id (Or.inl rfl)).contains
    simpa [Registry.contains, hid, hfind] using hcontains
  have hrecords : Records (d.atFile n) s (fields.map (·.atFile n)) none := by
    refine hfields.atFile hid n fun f hf path hpath => ?_
    obtain ⟨ids, hids, hjoin⟩ := path?_of_whole? hpath
    exact hopened path ⟨f, hf, ids, hids, hjoin⟩
  have hwidths : (fields.map (·.atFile n)).map (opened (d.atFile n) s).fieldWidth? =
      fields.map (opened d r).fieldWidth? := by
    rw [List.map_map]
    refine List.map_congr_left fun g hg => ?_
    obtain ⟨f, hf, hrep⟩ := exists_of_forall₂ hfields.represents (List.mem_map_of_mem hg)
    refine Registry.fieldWidth?_of_agreeOn (f := g) fun path hpath => ?_
    obtain ⟨ids, hids, hjoin⟩ := path?_of_represents hrep.type hpath
    exact hopened path ⟨f, hf, ids, hids, hjoin⟩
  rw [analyze_of_records hnew' hrecords, hwidths, htotal]
  simp only [Except.map, verdict, map_decl_atFile]
  rfl

end WireRecords
