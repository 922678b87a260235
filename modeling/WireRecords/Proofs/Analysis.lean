import WireRecords.Proofs.Registry
import WireRecords.Proofs.Resolver

/-!
# What analysis accepts

An accepted directive adds one sealed entry to the registry and touches no other. `Resolution` lists
what a field can be resolved to; later modules split cases on it and never open the resolver.
-/
namespace WireRecords.Registry

theorem contains_insert (r : Registry) (e : RecordEntry) (id : String) :
    (r.insert e).contains id = (id == e.id || r.contains id) := by
  by_cases h : id = e.id <;> simp [contains, find?_insert, h]

theorem width?_insert (r : Registry) (e : RecordEntry) (id : String) :
    (r.insert e).width? id = if id = e.id then e.width else r.width? id := by
  by_cases h : id = e.id <;> simp [width?, find?_insert, h]

end WireRecords.Registry

namespace WireRecords.Scalar

theorem width_of_unsigned? {n : Nat} {s : Scalar} (h : unsigned? n = some s) : s.width = n := by
  unfold unsigned? at h
  split at h <;> cases h <;> rfl

end WireRecords.Scalar

namespace WireRecords.TypeExpr
open Analysis

/-- The record or type from elsewhere that a path names. -/
def outer? (path : List String) : Option String :=
  if (builtin? path).isNone then some ("::".intercalate path) else none

/-- What a field of this type contains as a whole. -/
def whole? : TypeExpr → Option String
  | named path | pointer (named path) => outer? path
  | _ => none

/-- What a field of this type contains any number of. -/
def element? : TypeExpr → Option String
  | slice (named path) | array _ (named path) => outer? path
  | _ => none

end WireRecords.TypeExpr

namespace WireRecords.Analysis

/-- Every reference of a width is an integer among the given fields. -/
def RefersTo (fields : List FieldDecl) (w : Width) : Prop :=
  ∀ id ∈ w.refs, ∃ g ∈ fields, g.id = id ∧ ∃ s, g.type = .scalar s

/-- The elements that a slice or array can have. -/
inductive ElementOf (f : FieldSyntax) : FieldType → Prop
  | scalar {s : Scalar} (h : s ≠ .u8) : ElementOf f (.scalar s)
  | bytes (length : Nat) : ElementOf f (.bytes length)
  | nested {path : String} (h : f.type.bind TypeExpr.element? = some path) :
      ElementOf f (.nested path)

/-- The representations of what is contained as a whole. -/
inductive WholeOf (f : FieldSyntax) (path : String) : FieldType → Prop
  | nested (h : f.type.bind TypeExpr.whole? = some path) : WholeOf f path (.nested path)
  | boxed (h : f.type.bind TypeExpr.whole? = some path) : WholeOf f path (.boxed (.nested path))

theorem WholeOf.whole? {f : FieldSyntax} {path : String} {type : FieldType}
    (h : WholeOf f path type) : f.type.bind TypeExpr.whole? = some path := by
  cases h <;> assumption

/-- What an accepted field is resolved to. -/
inductive Resolution (c : Context) (f : FieldSyntax) : Resolved → Prop
  | scalar (s : Scalar) : Resolution c f (.literal (.scalar s) s.width)
  | bytes (length : Nat) : Resolution c f (.literal (.bytes length) length)
  | constant (value : String) (length : Nat) : Resolution c f (.literal (.constant value) length)
  | byteRun {w : Width} (ne : w.refs ≠ []) (refs : RefersTo c.resolved w) :
      Resolution c f ⟨.byteRun, some w, .dynamic⟩
  | fixedSlice {element : FieldType} (h : ElementOf f element) (count : Nat) :
      Resolution c f (.literal (.slice element) count)
  | slice {element : FieldType} {w : Width} (h : ElementOf f element) (ne : w.refs ≠ [])
      (refs : RefersTo c.resolved w) : Resolution c f ⟨.slice element, some w, .dynamic⟩
  | selfDelimited {type : FieldType} {path : String} (h : WholeOf f path type) :
      Resolution c f ⟨type, none, .unresolved⟩
  /-- The width is that of the record, or it is taken at its word. -/
  | fixed {type : FieldType} {path : String} {width : Nat} (h : WholeOf f path type)
      (known : c.registry.width? path = some width ∨
        c.registry.contains path = false ∧ f.width.isSome) :
      Resolution c f (.literal type width)

theorem Context.checkRef_eq_ok {c : Context} {ref : String} (h : c.checkRef ref = .ok ()) :
    ∃ g ∈ c.resolved, g.id = ref ∧ ∃ s, g.type = .scalar s := by
  unfold checkRef at h
  cases hf : c.resolved.find? (·.id == ref) with
  | none =>
    simp only [hf] at h
    split at h <;> simp at h
  | some g =>
    have hid : g.id = ref := by simpa using List.find?_some hf
    simp only [hf] at h
    cases ht : g.type <;> simp only [ht] at h <;> try cases h
    exact ⟨g, List.mem_of_find?_eq_some hf, hid, _, ht⟩

theorem Context.checkRefs_eq_ok {c : Context} {refs : List String} (h : c.checkRefs refs = .ok ()) :
    ∀ id ∈ refs, ∃ g ∈ c.resolved, g.id = id ∧ ∃ s, g.type = .scalar s := by
  induction refs with
  | nil => simp
  | cons ref refs ih =>
    simp only [checkRefs] at h
    cases hr : c.checkRef ref with
    | error e => simp [hr] at h
    | ok u =>
      simp only [hr] at h
      intro id hid
      rcases List.mem_cons.mp hid with rfl | hid
      · exact c.checkRef_eq_ok hr
      · exact ih h id hid

/-- A given width is absent, has a value, or refers to integers before. -/
theorem Context.givenWidth_eq_ok {c : Context} {width : Option Width} {given : GivenWidth}
    (h : c.givenWidth width = .ok given) :
    (width = none ∧ given = .absent) ∨
      (∃ w n, width = some w ∧ given = .fixed w n) ∨
      (∃ w, width = some w ∧ given = .dynamic w ∧ w.refs ≠ [] ∧ RefersTo c.resolved w) := by
  cases width with
  | none =>
    simp only [givenWidth, Except.ok.injEq] at h
    exact Or.inl ⟨rfl, h.symm⟩
  | some w =>
    simp only [givenWidth] at h
    cases hr : c.checkRefs w.refs with
    | error e => simp [hr] at h
    | ok u =>
      simp only [hr] at h
      by_cases he : w.refs = []
      · simp only [he, List.isEmpty_nil, if_true] at h
        cases hw : w.fold with
        | none => simp [hw] at h
        | some n =>
          simp only [hw, Except.ok.injEq] at h
          exact Or.inr (Or.inl ⟨w, n, rfl, h.symm⟩)
      · have hne : w.refs.isEmpty = false := by simp [he]
        simp only [hne, Bool.false_eq_true, if_false, Except.ok.injEq] at h
        exact Or.inr (Or.inr ⟨w, rfl, h.symm, he, c.checkRefs_eq_ok hr⟩)

/-- A fixed width has a value only where the directive gives one. -/
theorem Context.isSome_of_rigid {c : Context} {role : Rigid} {width : Option Width}
    {given : GivenWidth} {value : Option Nat} (hg : c.givenWidth width = .ok given)
    (hr : given.rigid role = .ok value) : value.isSome → width.isSome := by
  obtain ⟨_, rfl⟩ | ⟨w, n, rfl, _⟩ := GivenWidth.rigid_eq_ok hr
  · simp
  · obtain ⟨_, h⟩ | ⟨w, n, rfl, _⟩ | ⟨w, rfl, _⟩ := c.givenWidth_eq_ok hg
    · cases h
    · simp
    · simp

theorem Context.ResolvesWhole.resolution {c : Context} {f : FieldSyntax} {given : GivenWidth}
    {role : Rigid} {type : String → FieldType} {path : List String} {res : Resolved}
    (h : c.ResolvesWhole given role type path res) (hg : c.givenWidth f.width = .ok given)
    (hw : WholeOf f ("::".intercalate path) (type ("::".intercalate path))) :
    Resolution c f res := by
  obtain ⟨value, hvalue, hres⟩ := h.nested
  have hgiven := c.isSome_of_rigid hg hvalue
  obtain rfl | ⟨n, rfl, hknown⟩ := c.resolveNested_eq_ok hres
  · exact .selfDelimited hw
  · exact .fixed hw (hknown.imp_right fun hfree => ⟨hfree.1, hgiven (by simp [hfree.2])⟩)

theorem resolution_untyped {c : Context} {f : FieldSyntax} {given : GivenWidth} {res : Resolved}
    (hg : c.givenWidth f.width = .ok given) (h : resolveUntyped given = .ok res) :
    Resolution c f res := by
  obtain ⟨_, rfl⟩ | ⟨w, n, _, rfl⟩ | ⟨w, _, rfl, hne, hrefs⟩ := c.givenWidth_eq_ok hg
  · simp [resolveUntyped] at h
  · simp only [resolveUntyped, Except.ok.injEq] at h
    subst h
    -- A plain number of 1, 2, 4 or 8 bytes is a scalar of that width.
    unfold FieldType.ofWidth
    split
    · rename_i s hs _
      exact Scalar.width_of_unsigned? hs ▸ .scalar s
    · exact .bytes n
  · simp only [resolveUntyped, Except.ok.injEq] at h
    exact h ▸ .byteRun hne hrefs

theorem outer?_eq_some {path : List String} (h : builtin? path = none) :
    TypeExpr.outer? path = some ("::".intercalate path) := by
  simp [TypeExpr.outer?, h]

/-- The element of a sequence field, of which bytes are set apart. -/
theorem ResolvesElement.elementOf {f : FieldSyntax} {type : TypeExpr} {element : FieldType}
    (h : ResolvesElement type element)
    (ht : f.type = some (.slice type) ∨ ∃ n, f.type = some (.array n type)) :
    element = .scalar .u8 ∨ ElementOf f element := by
  cases h with
  | @scalar path s _ =>
    by_cases hs : s = .u8
    · exact Or.inl (by rw [hs])
    · exact Or.inr (.scalar hs)
  | nested hb =>
    refine Or.inr (.nested ?_)
    rcases ht with ht | ⟨n, ht⟩ <;> simp [ht, TypeExpr.element?, outer?_eq_some hb]
  | bytes length _ => exact Or.inr (.bytes length)

theorem Context.resolution_named {c : Context} {f : FieldSyntax} {given : GivenWidth}
    {path : List String} {res : Resolved} (ht : f.type = some (.named path))
    (hg : c.givenWidth f.width = .ok given) (h : c.resolveNamed given path = .ok res) :
    Resolution c f res := by
  obtain ⟨s, _, rfl⟩ | hwhole := c.resolveNamed_eq_ok h
  · exact .scalar s
  · exact hwhole.resolution hg (.nested (by simp [ht, TypeExpr.whole?, outer?_eq_some hwhole.outer]))

theorem Context.resolution_pointer {c : Context} {f : FieldSyntax} {given : GivenWidth}
    {target : TypeExpr} {res : Resolved} (ht : f.type = some (.pointer target))
    (hg : c.givenWidth f.width = .ok given) (h : c.resolvePointer given target = .ok res) :
    Resolution c f res := by
  obtain ⟨path, rfl, hwhole⟩ := c.resolvePointer_eq_ok h
  exact hwhole.resolution hg (.boxed (by simp [ht, TypeExpr.whole?, outer?_eq_some hwhole.outer]))

theorem sequence_resolution {c : Context} {f : FieldSyntax} {element : FieldType}
    (h : element = .scalar .u8 ∨ ElementOf f element) (n : Nat) :
    Resolution c f (.literal (sequenceType element n) n) := by
  unfold sequenceType
  split
  · exact .bytes n
  · exact .fixedSlice (h.resolve_left ‹_›) n

theorem resolution_slice {c : Context} {f : FieldSyntax} {given : GivenWidth}
    {element : TypeExpr} {res : Resolved} (ht : f.type = some (.slice element))
    (hg : c.givenWidth f.width = .ok given) (h : resolveSlice given element = .ok res) :
    Resolution c f res := by
  obtain ⟨type, htype, ⟨w, n, rfl, rfl⟩ | ⟨w, rfl, rfl⟩⟩ := resolveSlice_eq_ok h
  · exact sequence_resolution (htype.elementOf (Or.inl ht)) n
  · obtain ⟨_, hnone⟩ | ⟨_, _, _, hfixed⟩ | ⟨w', _, hw, hne, hrefs⟩ := c.givenWidth_eq_ok hg
    · simp at hnone
    · simp at hfixed
    · obtain rfl : w = w' := by simpa using hw
      split
      · exact .byteRun hne hrefs
      · exact .slice ((htype.elementOf (Or.inl ht)).resolve_left ‹_›) hne hrefs

/-- Whatever the resolver accepts is one of the cases of `Resolution`. -/
theorem Context.resolve_eq_ok {c : Context} {f : FieldSyntax} {res : Resolved}
    (h : c.resolve f = .ok res) : Resolution c f res := by
  obtain ⟨given, hg, h⟩ := bind_eq_ok h
  cases ht : f.type with
  | none =>
    simp only [ht] at h
    exact resolution_untyped hg h
  | some type =>
    simp only [ht] at h
    cases type with
    | named path => exact c.resolution_named ht hg h
    | pointer target => exact c.resolution_pointer ht hg h
    | slice element => exact resolution_slice ht hg h
    | array length element =>
      obtain ⟨type, htype, rfl⟩ := resolveArray_eq_ok h
      exact sequence_resolution (htype.elementOf (Or.inr ⟨length, ht⟩)) length
    | constant value =>
      obtain ⟨width, _, h⟩ := bind_eq_ok h
      obtain rfl := Except.ok.inj h
      exact .constant value _

/-- Resolving a field asks the registry for the presence and the width of records only. -/
theorem Context.resolve_congr {c : Context} {r : Registry}
    (hc : ∀ id, r.contains id = c.registry.contains id)
    (hw : ∀ id, r.width? id = c.registry.width? id) (f : FieldSyntax) :
    Context.resolve ⟨c.directive, c.resolved, r⟩ f = c.resolve f := by
  have hn : ∀ type path given, Context.resolveNested ⟨c.directive, c.resolved, r⟩ type path given =
      c.resolveNested type path given := by
    intro type path given
    simp only [resolveNested, hc, hw]
  have hr : ∀ ref, Context.checkRef ⟨c.directive, c.resolved, r⟩ ref = c.checkRef ref :=
    fun _ => rfl
  have hrs : ∀ refs, Context.checkRefs ⟨c.directive, c.resolved, r⟩ refs = c.checkRefs refs := by
    intro refs
    induction refs with
    | nil => rfl
    | cons ref refs ih => simp only [checkRefs, hr, ih]
  have hg : ∀ w, Context.givenWidth ⟨c.directive, c.resolved, r⟩ w = c.givenWidth w := by
    intro w
    cases w <;> simp only [givenWidth, hrs]
  have hp : ∀ path, Context.recordPath ⟨c.directive, c.resolved, r⟩ path = c.recordPath path :=
    fun _ => rfl
  simp only [resolve, hg, resolveNamed, resolvePointer, hn, hp]

/-- A field with its metadata. -/
def recorded (f : FieldSyntax) (res : Resolved) : RecordedField :=
  ⟨⟨f.span, f.id, res.type⟩, ⟨res.width, f.endian, res.kind⟩⟩

/-- Fields resolved one after the other behind the fields `before`, whose names they do not
repeat. -/
inductive Resolves (d : Directive) (r : Registry) :
    List RecordedField → List FieldSyntax → List RecordedField → Prop
  | nil {before : List RecordedField} : Resolves d r before [] []
  | cons {before added : List RecordedField} {f : FieldSyntax} {fs : List FieldSyntax}
      {res : Resolved} (resolved : Context.resolve ⟨d, before.map (·.decl), r⟩ f = .ok res)
      (fresh : ∀ g ∈ before, g.decl.id ≠ f.id)
      (rest : Resolves d r (before ++ [recorded f res]) fs added) :
      Resolves d r before (f :: fs) (recorded f res :: added)

/-- The registry while the fields of a directive are resolved. -/
def opened (d : Directive) (r : Registry) : Registry := r.insert { id := d.id, span := d.span }

theorem recordFields_eq {d : Directive} {r last : Registry} {e : RecordEntry}
    {fs : List FieldSyntax} (he : e.id = d.id) (hw : e.width = none)
    (h : recordFields d (e.fields.map (·.decl)) (r.insert e) fs = (last, none)) :
    ∃ added, Resolves d (opened d r) e.fields fs added ∧
      last = r.insert { e with fields := e.fields ++ added } := by
  induction fs generalizing e with
  | nil =>
    simp only [recordFields, Prod.mk.injEq, and_true] at h
    exact ⟨[], .nil, by simp [← h]⟩
  | cons f fs ih =>
    simp only [recordFields] at h
    have hres : Context.resolve ⟨d, e.fields.map (·.decl), r.insert e⟩ f =
        Context.resolve ⟨d, e.fields.map (·.decl), opened d r⟩ f := by
      refine Context.resolve_congr (c := ⟨d, e.fields.map (·.decl), opened d r⟩) ?_ ?_ f
      · simp [opened, Registry.contains_insert, he]
      · simp [opened, Registry.width?_insert, he, hw]
    rw [hres] at h
    cases hr : Context.resolve ⟨d, e.fields.map (·.decl), opened d r⟩ f with
    | error fault => simp [hr] at h
    | ok res =>
      simp only [hr] at h
      cases hp : (r.insert e).put d.id ⟨f.span, f.id, res.type⟩ ⟨res.width, f.endian, res.kind⟩ with
      | error error => simp [hp] at h
      | ok registry =>
        simp only [hp] at h
        obtain ⟨e', hf, hfresh, rfl⟩ := Registry.put_eq_ok hp
        have hself : (r.insert e).find? d.id = some e := by
          rw [← he]
          exact r.find?_insert_self e
        obtain rfl : e = e' := by
          rw [hself] at hf
          exact Option.some.inj hf
        rw [Registry.insert_insert r (by rfl)] at h
        have hstep := ih (e := { e with fields := e.fields ++ [recorded f res] }) he hw
          (by simpa [recorded] using h)
        obtain ⟨added, hadded, rfl⟩ := hstep
        exact ⟨recorded f res :: added, .cons hr hfresh hadded, by simp⟩

end WireRecords.Analysis

namespace WireRecords
open Analysis

/-- An accepted directive is new, and adds its resolved fields and their total width. -/
theorem analyze_eq_ok {d : Directive} {r r' : Registry} {decl : RecordDecl}
    (h : analyze d r = .ok (r', .ok decl)) :
    (d.id = anonymous ∨ r.find? d.id = none) ∧
      ∃ fields width, Resolves d (opened d r) [] d.fields fields ∧
        Registry.totalWidth 0 (fields.map (opened d r).fieldWidth?) = .ok width ∧
        r' = r.insert ⟨d.id, d.span, fields, true, width⟩ ∧
        decl = ⟨d.span, d.id, fields.map (·.decl)⟩ := by
  unfold analyze at h
  cases ho : r.openRecord d.id d.span with
  | error e => simp [ho] at h
  | ok registry =>
    obtain ⟨rfl, hnew⟩ := Registry.openRecord_eq_ok ho
    refine ⟨hnew, ?_⟩
    simp only [ho] at h
    cases hf : recordFields d [] (r.insert { id := d.id, span := d.span }) d.fields with
    | mk last fault =>
      simp only [hf] at h
      cases hs : last.sealRecord d.id with
      | error e => simp [hs] at h
      | ok result =>
        obtain ⟨sealed, sealedDecl⟩ := result
        simp only [hs] at h
        cases fault with
        | some fault => simp at h
        | none =>
          obtain ⟨fields, hfields, rfl⟩ :=
            recordFields_eq (e := { id := d.id, span := d.span }) rfl rfl hf
          have hfind := r.find?_insert_self ⟨d.id, d.span, fields, false, none⟩
          obtain ⟨width, htotal, rfl, rfl⟩ := Registry.sealRecord_eq_ok hfind hs
          simp only [Except.ok.injEq, Prod.mk.injEq] at h
          obtain ⟨rfl, rfl⟩ := h
          refine ⟨fields, width, hfields, ?_, ?_, rfl⟩
          · rw [← htotal]
            congr 1
            apply List.map_congr_left
            intro f _
            apply Registry.fieldWidth?_congr
            intro id
            simp [opened, Registry.width?_insert]
          · simp [Registry.insert_insert]

end WireRecords
