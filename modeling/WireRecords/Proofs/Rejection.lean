import WireRecords.Proofs.Containment
import WireRecords.Proofs.Verdict

/-!
# Why a field is refused

The resolver refuses a field for many reasons, and nearly all are reported with one label, on the
field. `Context.resolve_eq_error` sets the two others apart: a width that refers to a field of the
wrong type is reported with a second label on that field, and a width given for a record that has
no fixed one is reported without any.
-/
namespace WireRecords.Analysis

/-- The field gives a width of its own to a record that is known to have no fixed one. -/
structure Unmeasured (c : Context) (f : FieldSyntax) (ids : List String) (value : Nat) : Prop where
  type : f.type = some (.named ids) ∨ f.type = some (.pointer (.named ids))
  outer : builtin? ids = none
  other : ids ≠ [c.directive.id]
  width : ∃ w, f.width = some w ∧ w.refs = [] ∧ w.fold = some value
  known : c.registry.contains ("::".intercalate ids) = true
  unfixed : c.registry.width? ("::".intercalate ids) = none

/-- Why a field is not resolved, as far as the labels of the diagnostic tell it. -/
inductive Unresolved (c : Context) (f : FieldSyntax) : FieldFault → Prop
  | notInteger {ref : String} {previous : FieldDecl} (h : previous ∈ c.resolved) :
      Unresolved c f (.notInteger ref previous)
  | noFixedWidth {ids : List String} {value : Nat} (h : Unmeasured c f ids value) :
      Unresolved c f (.noFixedWidth value ("::".intercalate ids))
  | other {fault : FieldFault} (h : (fault.diagnostic f).labels = [f.span.primary]) :
      Unresolved c f fault

variable {c : Context} {f : FieldSyntax} {given : GivenWidth} {fault : FieldFault}

/-! ### Widths -/

theorem Context.checkRef_eq_error {ref : String} (h : c.checkRef ref = .error fault) :
    Unresolved c f fault := by
  unfold checkRef at h
  cases hfind : c.resolved.find? (·.id == ref) with
  | none =>
    simp only [hfind] at h
    split at h <;> obtain rfl := Except.error.inj h <;> exact .other rfl
  | some previous =>
    simp only [hfind] at h
    split at h
    · simp at h
    · obtain rfl := Except.error.inj h
      exact .notInteger (List.mem_of_find?_eq_some hfind)

theorem Context.checkRefs_eq_error {refs : List String} (h : c.checkRefs refs = .error fault) :
    Unresolved c f fault := by
  induction refs with
  | nil => simp [checkRefs] at h
  | cons ref refs ih =>
    simp only [checkRefs] at h
    cases href : c.checkRef ref with
    | error e =>
      obtain rfl : e = fault := by simpa [href] using h
      exact c.checkRef_eq_error href
    | ok u =>
      simp only [href] at h
      exact ih h

theorem Context.givenWidth_eq_error {width : Option Width} (h : c.givenWidth width = .error fault) :
    Unresolved c f fault := by
  cases width with
  | none => simp [givenWidth] at h
  | some w =>
    simp only [givenWidth] at h
    cases hrefs : c.checkRefs w.refs with
    | error e =>
      obtain rfl : e = fault := by simpa [hrefs] using h
      exact c.checkRefs_eq_error hrefs
    | ok u =>
      simp only [hrefs] at h
      split at h
      · split at h
        · simp at h
        · obtain rfl := Except.error.inj h
          exact .other rfl
      · simp at h

/-- A fixed width is one without references that has a value. -/
theorem Context.givenWidth_eq_fixed {width : Option Width} {w : Width} {value : Nat} :
    c.givenWidth width = .ok (.fixed w value) ↔
      width = some w ∧ w.refs = [] ∧ w.fold = some value := by
  cases width with
  | none => simp [givenWidth]
  | some v =>
    simp only [givenWidth, Option.some.injEq]
    by_cases hrefs : v.refs = []
    · simp only [hrefs, checkRefs, List.isEmpty_nil, if_true]
      cases hfold : v.fold with
      | none =>
        simp only [reduceCtorEq, false_iff]
        rintro ⟨rfl, _, hv⟩
        simp [hfold] at hv
      | some n =>
        simp only [Except.ok.injEq, GivenWidth.fixed.injEq]
        constructor
        · rintro ⟨rfl, rfl⟩
          exact ⟨rfl, hrefs, hfold⟩
        · rintro ⟨rfl, _, hv⟩
          rw [hfold] at hv
          exact ⟨rfl, Option.some.inj hv⟩
    · have hne : v.refs.isEmpty = false := by simp [hrefs]
      have hright : ¬ (v = w ∧ w.refs = [] ∧ w.fold = some value) := by
        rintro ⟨rfl, hnil, _⟩
        exact hrefs hnil
      simp only [hne, Bool.false_eq_true, if_false, hright, iff_false]
      cases c.checkRefs v.refs <;> simp

theorem GivenWidth.rigid_eq_error {role : Rigid} (h : given.rigid role = .error fault) :
    Unresolved c f fault := by
  cases given with
  | absent => simp [rigid] at h
  | fixed w n => simp [rigid] at h
  | dynamic w =>
    obtain rfl := Except.error.inj h
    exact .other rfl

theorem GivenWidth.rigid_eq_some {role : Rigid} {value : Nat}
    (h : given.rigid role = .ok (some value)) : ∃ w, given = .fixed w value := by
  obtain ⟨_, hnone⟩ | ⟨w, n, rfl, heq⟩ := rigid_eq_ok h
  · simp at hnone
  · obtain rfl := Option.some.inj heq
    exact ⟨w, rfl⟩

/-! ### Types -/

theorem Context.recordPath_eq_error {ids : List String} (h : c.recordPath ids = .error fault) :
    Unresolved c f fault := by
  unfold recordPath at h
  split at h
  · obtain rfl := Except.error.inj h
    exact .other rfl
  · simp at h

/-- The width of a record is compared with the one that is given. -/
theorem Context.resolveNested_eq_error {type : FieldType} {ids : List String} {path : String}
    {role : Rigid} {value : Option Nat}
    (ht : f.type = some (.named ids) ∨ f.type = some (.pointer (.named ids)))
    (hb : builtin? ids = none) (hg : c.givenWidth f.width = .ok given)
    (hpath : c.recordPath ids = .ok path) (hvalue : given.rigid role = .ok value)
    (h : c.resolveNested type path value = .error fault) : Unresolved c f fault := by
  obtain rfl := c.recordPath_eq_ok hpath
  unfold resolveNested at h
  split at h
  · rename_i hcontains
    split at h
    · split at h
      · simp at h
      · obtain rfl := Except.error.inj h
        exact .other rfl
    · rename_i n hwidth
      obtain rfl := Except.error.inj h
      obtain ⟨w, rfl⟩ := GivenWidth.rigid_eq_some hvalue
      refine .noFixedWidth ⟨ht, hb, ?_, ⟨w, c.givenWidth_eq_fixed.mp hg⟩, hcontains, hwidth⟩
      rintro rfl
      simp [recordPath] at hpath
    · simp at h
    · simp at h
  · split at h <;> simp at h

theorem Context.resolveNamed_eq_error {ids : List String} (ht : f.type = some (.named ids))
    (hg : c.givenWidth f.width = .ok given) (h : c.resolveNamed given ids = .error fault) :
    Unresolved c f fault := by
  unfold resolveNamed at h
  cases hb : builtin? ids with
  | some s =>
    simp only [hb] at h
    obtain hr | ⟨value, _, h⟩ := bind_eq_error h
    · exact given.rigid_eq_error hr
    · split at h
      · split at h
        · simp [pure, Except.pure] at h
        · obtain rfl := Except.error.inj h
          exact .other rfl
      · simp [pure, Except.pure] at h
  | none =>
    simp only [hb] at h
    obtain hp | ⟨path, hp, h⟩ := bind_eq_error h
    · exact c.recordPath_eq_error hp
    obtain hr | ⟨value, hr, h⟩ := bind_eq_error h
    · exact given.rigid_eq_error hr
    · exact c.resolveNested_eq_error (Or.inl ht) hb hg hp hr h

theorem Context.resolvePointer_eq_error {target : TypeExpr} (ht : f.type = some (.pointer target))
    (hg : c.givenWidth f.width = .ok given) (h : c.resolvePointer given target = .error fault) :
    Unresolved c f fault := by
  have hinvalid : Except.error (FieldFault.invalidPointer target) =
      (Except.error fault : Except FieldFault Resolved) → Unresolved c f fault := by
    rintro ⟨rfl⟩
    exact .other rfl
  unfold resolvePointer at h
  cases target with
  | named ids =>
    cases hb : builtin? ids with
    | some s =>
      simp only [hb] at h
      exact hinvalid h
    | none =>
      simp only [hb] at h
      obtain hp | ⟨path, hp, h⟩ := bind_eq_error h
      · exact c.recordPath_eq_error hp
      obtain hr | ⟨value, hr, h⟩ := bind_eq_error h
      · exact given.rigid_eq_error hr
      · exact c.resolveNested_eq_error (Or.inr ht) hb hg hp hr h
  | _ => exact hinvalid h

theorem resolveElement_eq_error {type : TypeExpr} (h : resolveElement type = .error fault) :
    Unresolved c f fault := by
  unfold resolveElement at h
  split at h
  · split at h <;> simp at h
  · split at h
    · simp at h
    · obtain rfl := Except.error.inj h
      exact .other rfl
  · obtain rfl := Except.error.inj h
    exact .other rfl

theorem resolveSlice_eq_error {element : TypeExpr} (h : resolveSlice given element = .error fault) :
    Unresolved c f fault := by
  unfold resolveSlice at h
  obtain he | ⟨type, _, h⟩ := bind_eq_error h
  · exact resolveElement_eq_error he
  cases given with
  | absent =>
    obtain rfl := Except.error.inj h
    exact .other rfl
  | fixed w n => simp [pure, Except.pure] at h
  | dynamic w => simp [pure, Except.pure] at h

theorem resolveArray_eq_error {length : Nat} {element : TypeExpr}
    (h : resolveArray given length element = .error fault) : Unresolved c f fault := by
  unfold resolveArray at h
  obtain he | ⟨type, _, h⟩ := bind_eq_error h
  · exact resolveElement_eq_error he
  obtain hr | ⟨value, _, h⟩ := bind_eq_error h
  · exact given.rigid_eq_error hr
  split at h
  · split at h
    · simp [pure, Except.pure] at h
    · obtain rfl := Except.error.inj h
      exact .other rfl
  · simp [pure, Except.pure] at h

theorem resolveUntyped_eq_error (h : resolveUntyped given = .error fault) :
    Unresolved c f fault := by
  cases given with
  | absent =>
    obtain rfl := Except.error.inj h
    exact .other rfl
  | fixed w n => simp [resolveUntyped] at h
  | dynamic w => simp [resolveUntyped] at h

/-- Whatever the resolver refuses is one of the cases of `Unresolved`. -/
theorem Context.resolve_eq_error (h : c.resolve f = .error fault) : Unresolved c f fault := by
  unfold resolve at h
  obtain hg | ⟨given, hg, h⟩ := bind_eq_error h
  · exact c.givenWidth_eq_error hg
  cases ht : f.type with
  | none =>
    simp only [ht] at h
    exact resolveUntyped_eq_error h
  | some type =>
    simp only [ht] at h
    cases type with
    | named ids => exact c.resolveNamed_eq_error ht hg h
    | pointer target => exact c.resolvePointer_eq_error ht hg h
    | slice element => exact resolveSlice_eq_error h
    | array length element => exact resolveArray_eq_error h
    | constant value =>
      obtain hr | ⟨width, _, h⟩ := bind_eq_error h
      · exact given.rigid_eq_error hr
      · simp [pure, Except.pure] at h

/-- A field that gives a width to a record without a fixed one is refused for that. -/
theorem Unmeasured.resolve {ids : List String} {value : Nat} (h : Unmeasured c f ids value) :
    c.resolve f = .error (.noFixedWidth value ("::".intercalate ids)) := by
  obtain ⟨w, hwidth⟩ := h.width
  have hgiven : c.givenWidth f.width = .ok (.fixed w value) := c.givenWidth_eq_fixed.mpr hwidth
  have hpath : c.recordPath ids = .ok ("::".intercalate ids) := by
    simp [Context.recordPath, h.other]
  have hnested : ∀ type, c.resolveNested type ("::".intercalate ids) (some value) =
      .error (.noFixedWidth value ("::".intercalate ids)) := by
    intro type
    simp [Context.resolveNested, h.known, h.unfixed]
  rcases h.type with ht | ht
  · simp [Context.resolve, hgiven, ht, Context.resolveNamed, h.outer, hpath, GivenWidth.rigid,
      hnested, bind, Except.bind]
  · simp [Context.resolve, hgiven, ht, Context.resolvePointer, h.outer, hpath, GivenWidth.rigid,
      hnested, bind, Except.bind]

end WireRecords.Analysis
