import WireRecords.Analysis
import WireRecords.Proofs.Sequencing

/-!
# What the resolver returns

The functions that resolve a field, one by one: what they have been given when they succeed, and
what they return then.
-/
namespace WireRecords.Analysis

variable {c : Context} {given : GivenWidth} {res : Resolved}

/-- A width that has to be fixed is known exactly when one is given. -/
theorem GivenWidth.rigid_eq_ok {role : Rigid} {value : Option Nat}
    (h : given.rigid role = .ok value) :
    (given = .absent ∧ value = none) ∨ ∃ w n, given = .fixed w n ∧ value = some n := by
  cases given with
  | absent => exact Or.inl ⟨rfl, by simpa [rigid] using h.symm⟩
  | fixed w n => exact Or.inr ⟨w, n, rfl, by simpa [rigid] using h.symm⟩
  | dynamic w => simp [rigid] at h

/-! ### Records and types from elsewhere -/

theorem Context.recordPath_eq_ok_iff {path : List String} {p : String} :
    c.recordPath path = .ok p ↔ path ≠ [c.directive.id] ∧ p = "::".intercalate path := by
  unfold recordPath
  split
  · simp [*]
  · simp [*, @eq_comm _ p]

theorem Context.recordPath_eq_ok {path : List String} {p : String} (h : c.recordPath path = .ok p) :
    p = "::".intercalate path :=
  (c.recordPath_eq_ok_iff.mp h).2

/-- The width is that of the record, or it is taken at its word. -/
theorem Context.resolveNested_eq_ok {type : FieldType} {path : String} {value : Option Nat}
    (h : c.resolveNested type path value = .ok res) :
    res = ⟨type, none, .unresolved⟩ ∨
      ∃ n, res = .literal type n ∧ (c.registry.width? path = some n ∨
        c.registry.contains path = false ∧ value = some n) := by
  unfold resolveNested at h
  by_cases hknown : c.registry.contains path = true
  · rw [if_pos hknown] at h
    cases hwidth : c.registry.width? path with
    | none =>
      cases value with
      | none =>
        simp only [hwidth] at h
        exact Or.inl (Except.ok.inj h).symm
      | some v => simp [hwidth] at h
    | some width =>
      refine Or.inr ⟨width, ?_, Or.inl rfl⟩
      cases value with
      | none =>
        simp only [hwidth] at h
        exact (Except.ok.inj h).symm
      | some v =>
        simp only [hwidth] at h
        split at h
        · exact (Except.ok.inj h).symm
        · simp at h
  · rw [if_neg hknown] at h
    cases value with
    | none => exact Or.inl (Except.ok.inj h).symm
    | some v =>
      exact Or.inr ⟨v, (Except.ok.inj h).symm, Or.inr ⟨by simpa using hknown, rfl⟩⟩

theorem Context.resolveNested_type {type : FieldType} {path : String} {value : Option Nat}
    (h : c.resolveNested type path value = .ok res) : res.type = type := by
  obtain rfl | ⟨n, rfl, _⟩ := c.resolveNested_eq_ok h
  · rfl
  · rfl

/-- What is contained as a whole, with or without a pointer. -/
structure Context.ResolvesWhole (c : Context) (given : GivenWidth) (role : Rigid)
    (type : String → FieldType) (path : List String) (res : Resolved) : Prop where
  outer : builtin? path = none
  other : path ≠ [c.directive.id]
  nested : ∃ value, given.rigid role = .ok value ∧
    c.resolveNested (type ("::".intercalate path)) ("::".intercalate path) value = .ok res

theorem Context.ResolvesWhole.type_eq {role : Rigid} {type : String → FieldType}
    {path : List String} (h : c.ResolvesWhole given role type path res) :
    res.type = type ("::".intercalate path) := by
  obtain ⟨value, _, hres⟩ := h.nested
  exact c.resolveNested_type hres

theorem Context.resolveNamed_eq_ok {path : List String} (h : c.resolveNamed given path = .ok res) :
    (∃ s, builtin? path = some s ∧ res = .literal (.scalar s) s.width) ∨
      c.ResolvesWhole given .record .nested path res := by
  unfold resolveNamed at h
  cases hb : builtin? path with
  | some s =>
    simp only [hb] at h
    obtain ⟨value, _, h⟩ := bind_eq_ok h
    refine Or.inl ⟨s, rfl, ?_⟩
    split at h
    · split at h
      · exact (Except.ok.inj h).symm
      · simp at h
    · exact (Except.ok.inj h).symm
  | none =>
    simp only [hb] at h
    obtain ⟨p, hp, h⟩ := bind_eq_ok h
    obtain ⟨value, hvalue, h⟩ := bind_eq_ok h
    obtain ⟨hother, rfl⟩ := c.recordPath_eq_ok_iff.mp hp
    exact Or.inr ⟨hb, hother, value, hvalue, h⟩

theorem Context.resolvePointer_eq_ok {target : TypeExpr}
    (h : c.resolvePointer given target = .ok res) :
    ∃ path, target = .named path ∧
      c.ResolvesWhole given .pointer (fun p => .boxed (.nested p)) path res := by
  unfold resolvePointer at h
  cases target with
  | named path =>
    cases hb : builtin? path with
    | some s => simp [hb] at h
    | none =>
      simp only [hb] at h
      obtain ⟨p, hp, h⟩ := bind_eq_ok h
      obtain ⟨value, hvalue, h⟩ := bind_eq_ok h
      obtain ⟨hother, rfl⟩ := c.recordPath_eq_ok_iff.mp hp
      exact ⟨path, rfl, hb, hother, value, hvalue, h⟩
  | _ => simp at h

/-! ### Sequences -/

/-- The elements of a sequence, with their representations. -/
inductive ResolvesElement : TypeExpr → FieldType → Prop
  | scalar {path : List String} {s : Scalar} (h : builtin? path = some s) :
      ResolvesElement (.named path) (.scalar s)
  | nested {path : List String} (h : builtin? path = none) :
      ResolvesElement (.named path) (.nested ("::".intercalate path))
  | bytes (length : Nat) {path : List String} (h : builtin? path = some .u8) :
      ResolvesElement (.array length (.named path)) (.bytes length)

theorem resolveElement_eq_ok {type : TypeExpr} {element : FieldType}
    (h : resolveElement type = .ok element) : ResolvesElement type element := by
  cases type with
  | named path =>
    simp only [resolveElement] at h
    cases hb : builtin? path with
    | some s =>
      simp only [hb, Except.ok.injEq] at h
      exact h ▸ .scalar hb
    | none =>
      simp only [hb, Except.ok.injEq] at h
      exact h ▸ .nested hb
  | array length inner =>
    simp only [resolveElement] at h
    split at h
    · rename_i hbyte
      obtain rfl := Except.ok.inj h
      cases inner with
      | named path => exact .bytes length (by simpa [isByte] using hbyte)
      | _ => simp [isByte] at hbyte
    · simp at h
  | slice _ => simp [resolveElement] at h
  | pointer _ => simp [resolveElement] at h
  | constant _ => simp [resolveElement] at h

theorem resolveSlice_eq_ok {element : TypeExpr} (h : resolveSlice given element = .ok res) :
    ∃ type, ResolvesElement element type ∧
      ((∃ w n, given = .fixed w n ∧ res = .literal (sequenceType type n) n) ∨
        ∃ w, given = .dynamic w ∧
          res = ⟨if type = .scalar .u8 then .byteRun else .slice type, some w, .dynamic⟩) := by
  obtain ⟨type, htype, h⟩ := bind_eq_ok h
  refine ⟨type, resolveElement_eq_ok htype, ?_⟩
  cases given with
  | absent => simp at h
  | fixed w n => exact Or.inl ⟨w, n, rfl, (Except.ok.inj h).symm⟩
  | dynamic w => exact Or.inr ⟨w, rfl, (Except.ok.inj h).symm⟩

theorem resolveArray_eq_ok {length : Nat} {element : TypeExpr}
    (h : resolveArray given length element = .ok res) :
    ∃ type, ResolvesElement element type ∧ res = .literal (sequenceType type length) length := by
  obtain ⟨type, htype, h⟩ := bind_eq_ok h
  obtain ⟨value, _, h⟩ := bind_eq_ok h
  refine ⟨type, resolveElement_eq_ok htype, ?_⟩
  split at h
  · split at h
    · exact (Except.ok.inj h).symm
    · simp at h
  · exact (Except.ok.inj h).symm

end WireRecords.Analysis
