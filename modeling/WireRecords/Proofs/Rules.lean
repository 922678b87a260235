import WireRecords.Proofs.Rejection

/-!
# The rules for fields

What a field has to satisfy to be accepted, said of the directive as it is written and of the records
declared before it. The resolver makes its checks one after the other and stops at the first that
fails; the rules have no order. `resolve_isOk_iff` compares the two, type by type, and `isScalar_iff`
tells from the written field whether widths can refer to it.
-/
namespace WireRecords
open Analysis

/-! ### The rules -/

/-- A field that widths can refer to: its type names a scalar, or it has a plain width of 1, 2, 4 or
8 bytes and no type. -/
def FieldSyntax.IsScalar (f : FieldSyntax) : Prop :=
  match f.type with
  | some (.named path) => (builtin? path).isSome
  | some _ => False
  | none => ∃ n ∈ [1, 2, 4, 8], f.width = some (.literal n)

/-- A width behind the fields `before`. -/
structure Width.Admissible (before : List FieldSyntax) (w : Width) : Prop where
  refs : ∀ id ∈ w.refs, ∃ g ∈ before, g.id = id ∧ g.IsScalar
  folds : w.refs = [] → ∃ n, w.fold = some n

/-- A width that is given has no references. -/
def FixedWidth (width : Option Width) : Prop := ∀ w ∈ width, w.refs = []

/-- A width that is given has the value `n`. -/
def WidthIs (width : Option Width) (n : Nat) : Prop := ∀ w ∈ width, w.fold = some n

/-- The elements of a slice or an array as they are written. -/
inductive TypeExpr.IsElement : TypeExpr → Prop
  | named (path : List String) : IsElement (.named path)
  | bytes (length : Nat) {element : TypeExpr} (h : isByte element = true) :
      IsElement (.array length element)

namespace Directive

/-- The records that a field of `d` can name, with their widths as far as they have one. The record
of `d` is one of them while its fields are resolved, and has no width yet. -/
def recordWidth? (d : Directive) (r : Registry) (path : String) : Option (Option Nat) :=
  if path = d.id then some none else (r.find? path).map (·.width)

/-- A record, or a type from elsewhere, that a field of `d` contains as a whole. A width that is given
for a record is the one that the record has. -/
structure AdmitsWhole (d : Directive) (r : Registry) (width : Option Width) (path : List String) :
    Prop where
  other : path ≠ [d.id]
  fixed : FixedWidth width
  same : ∀ known, d.recordWidth? r ("::".intercalate path) = some known →
    ∀ w ∈ width, ∃ n, known = some n ∧ w.fold = some n

/-- The type of a field of `d` with a given width. -/
inductive AdmitsType (d : Directive) (r : Registry) (width : Option Width) :
    Option TypeExpr → Prop
  | untyped (given : width.isSome) : AdmitsType d r width none
  | constant (value : String) (fixed : FixedWidth width) :
      AdmitsType d r width (some (.constant value))
  | scalar {path : List String} {s : Scalar} (builtin : builtin? path = some s)
      (fixed : FixedWidth width) (same : WidthIs width s.width) :
      AdmitsType d r width (some (.named path))
  | whole {path : List String} (outer : builtin? path = none)
      (whole : d.AdmitsWhole r width path) : AdmitsType d r width (some (.named path))
  | pointer {path : List String} (outer : builtin? path = none)
      (whole : d.AdmitsWhole r width path) : AdmitsType d r width (some (.pointer (.named path)))
  | slice {element : TypeExpr} (given : width.isSome) (h : element.IsElement) :
      AdmitsType d r width (some (.slice element))
  | array {length : Nat} {element : TypeExpr} (fixed : FixedWidth width) (h : element.IsElement)
      (same : WidthIs width length) : AdmitsType d r width (some (.array length element))

/-- A field of `d` behind the fields `before`. -/
structure AdmitsField (d : Directive) (r : Registry) (before : List FieldSyntax)
    (f : FieldSyntax) : Prop where
  width : ∀ w ∈ f.width, w.Admissible before
  type : d.AdmitsType r f.width f.type

end Directive

namespace Analysis

variable {c : Context} {f : FieldSyntax} {width : Option Width} {given : GivenWidth}

/-! ### Widths -/

/-- How a width is taken that is written. -/
inductive GivenWidth.Of : Option Width → GivenWidth → Prop
  | absent : Of none .absent
  | fixed {w : Width} {n : Nat} (refs : w.refs = []) (fold : w.fold = some n) :
      Of (some w) (.fixed w n)
  | dynamic {w : Width} (refs : w.refs ≠ []) : Of (some w) (.dynamic w)

theorem Context.givenWidth_of (h : c.givenWidth width = .ok given) :
    GivenWidth.Of width given := by
  obtain ⟨rfl, rfl⟩ | ⟨w, n, rfl, rfl⟩ | ⟨w, rfl, rfl, hne, _⟩ := c.givenWidth_eq_ok h
  · exact .absent
  · obtain ⟨_, hrefs, hfold⟩ := c.givenWidth_eq_fixed.mp h
    exact .fixed hrefs hfold
  · exact .dynamic hne

theorem Context.checkRef_eq_ok_iff (hn : (c.resolved.map (·.id)).Nodup) {ref : String} :
    c.checkRef ref = .ok () ↔ ∃ g ∈ c.resolved, g.id = ref ∧ ∃ s, g.type = .scalar s := by
  refine ⟨c.checkRef_eq_ok, ?_⟩
  rintro ⟨g, hg, rfl, s, ht⟩
  have hfind : c.resolved.find? (·.id == g.id) = some g := find?_name hn hg
  simp only [checkRef, hfind, ht]

theorem Context.checkRefs_eq_ok_iff (hn : (c.resolved.map (·.id)).Nodup) {refs : List String} :
    c.checkRefs refs = .ok () ↔
      ∀ id ∈ refs, ∃ g ∈ c.resolved, g.id = id ∧ ∃ s, g.type = .scalar s := by
  induction refs with
  | nil => simp [checkRefs]
  | cons ref refs ih =>
    rw [List.forall_mem_cons, ← ih, ← c.checkRef_eq_ok_iff hn]
    cases href : c.checkRef ref <;> simp [checkRefs, href]

/-- A width is taken if it refers to integers and can be evaluated where it refers to nothing. -/
theorem Context.givenWidth_isOk_iff (hn : (c.resolved.map (·.id)).Nodup) :
    (∃ given, c.givenWidth width = .ok given) ↔
      ∀ w ∈ width, RefersTo c.resolved w ∧ (w.refs = [] → ∃ n, w.fold = some n) := by
  cases width with
  | none => simp [givenWidth]
  | some w =>
    have hrefs : c.checkRefs w.refs = .ok () ↔ RefersTo c.resolved w := c.checkRefs_eq_ok_iff hn
    simp only [Option.mem_some_iff, forall_eq', ← hrefs]
    cases hcheck : c.checkRefs w.refs with
    | error e => simp [givenWidth, hcheck]
    | ok u =>
      by_cases hnil : w.refs = []
      · cases hfold : w.fold <;> simp [givenWidth, hnil, checkRefs, hfold]
      · simp [givenWidth, hcheck, hnil]

namespace GivenWidth.Of

/-- Where the width has to be fixed, its value is what it folds to. -/
theorem rigid_eq_ok_iff (h : Of width given) {role : Rigid} {value : Option Nat} :
    given.rigid role = .ok value ↔ FixedWidth width ∧ value = width.bind Width.fold := by
  cases h with
  | absent => simp [rigid, FixedWidth, @eq_comm _ value]
  | fixed refs fold => simp [rigid, FixedWidth, refs, fold, @eq_comm _ value]
  | dynamic refs => simp [rigid, FixedWidth, refs]

theorem widthIs_iff (h : Of width given) (hfixed : FixedWidth width) (n : Nat) :
    WidthIs width n ↔ ∀ value, width.bind Width.fold = some value → value = n := by
  cases h with
  | absent => simp [WidthIs]
  | fixed refs fold => simp [WidthIs, fold]
  | @dynamic w refs => exact absurd (hfixed w rfl) refs

/-- A width that is known has to be met where one is given. -/
theorem same_iff (h : Of width given) (hfixed : FixedWidth width) (known : Option Nat) :
    (∀ w ∈ width, ∃ n, known = some n ∧ w.fold = some n) ↔
      ∀ value, width.bind Width.fold = some value → known = some value := by
  cases h with
  | absent => simp
  | fixed refs fold => simp [fold]
  | @dynamic w refs => exact absurd (hfixed w rfl) refs

end GivenWidth.Of

/-! ### Types -/

/-- Checks behind one that asks for a fixed width. -/
theorem exists_rigid_iff (h : GivenWidth.Of width given) {role : Rigid}
    {next : Option Nat → Except FieldFault Resolved} :
    (∃ res, given.rigid role >>= next = .ok res) ↔
      FixedWidth width ∧ ∃ res, next (width.bind Width.fold) = .ok res := by
  rw [exists_bind_eq_ok]
  constructor
  · rintro ⟨value, hvalue, hnext⟩
    obtain ⟨hfixed, rfl⟩ := h.rigid_eq_ok_iff.mp hvalue
    exact ⟨hfixed, hnext⟩
  · rintro ⟨hfixed, hnext⟩
    exact ⟨_, h.rigid_eq_ok_iff.mpr ⟨hfixed, rfl⟩, hnext⟩

/-- A fixed width that is compared with the one that the type has. -/
theorem exists_rigid_same_iff (h : GivenWidth.Of width given) {role : Rigid} {n : Nat}
    {next : Option Nat → Except FieldFault Resolved} (hnone : ∃ res, next none = .ok res)
    (hsome : ∀ value, (∃ res, next (some value) = .ok res) ↔ value = n) :
    (∃ res, given.rigid role >>= next = .ok res) ↔ FixedWidth width ∧ WidthIs width n := by
  rw [exists_rigid_iff h]
  refine and_congr_right fun hfixed => ?_
  rw [h.widthIs_iff hfixed]
  cases width.bind Width.fold with
  | none => simpa using hnone
  | some value => simpa using hsome value

theorem resolveElement_isOk_iff {type : TypeExpr} :
    (∃ element, resolveElement type = .ok element) ↔ type.IsElement := by
  constructor
  · rintro ⟨element, h⟩
    cases resolveElement_eq_ok h with
    | scalar _ => exact .named _
    | nested _ => exact .named _
    | bytes length hb => exact .bytes length (by simp [isByte, hb])
  · intro h
    cases h with
    | named path => cases hb : builtin? path <;> simp [resolveElement, hb]
    | bytes length hbyte => simp [resolveElement, hbyte]

/-- The width of a record in the registry has to be met, that of any other type is free. -/
theorem Context.resolveNested_isOk_iff {type : FieldType} {path : String} {value : Option Nat} :
    (∃ res, c.resolveNested type path value = .ok res) ↔
      ∀ known, (c.registry.find? path).map (·.width) = some known →
        ∀ v, value = some v → known = some v := by
  cases hfind : c.registry.find? path with
  | none => cases value <;> simp [resolveNested, Registry.contains, hfind]
  | some e =>
    cases hw : e.width with
    | none => cases value <;> simp [resolveNested, Registry.contains, Registry.width?, hfind, hw]
    | some n =>
      cases value with
      | none => simp [resolveNested, Registry.contains, Registry.width?, hfind, hw]
      | some v =>
        by_cases hv : v = n <;>
          simp [resolveNested, Registry.contains, Registry.width?, hfind, hw, hv, @eq_comm _ n]

section Types

variable {d : Directive} {r : Registry} {resolved : List FieldDecl}

theorem find?_opened (d : Directive) (r : Registry) (path : String) :
    ((opened d r).find? path).map (·.width) = d.recordWidth? r path := by
  simp only [opened, Registry.find?_insert, Directive.recordWidth?]
  split <;> rfl

/-- What is contained as a whole, behind a pointer or not. -/
theorem whole_isOk_iff (h : GivenWidth.Of width given) {path : List String} {role : Rigid}
    {type : String → FieldType} :
    (∃ res, (do
        let p ← Context.recordPath ⟨d, resolved, opened d r⟩ path
        let value ← given.rigid role
        Context.resolveNested ⟨d, resolved, opened d r⟩ (type p) p value) = .ok res) ↔
      d.AdmitsWhole r width path := by
  simp only [exists_bind_eq_ok, Context.recordPath_eq_ok_iff, h.rigid_eq_ok_iff,
    Context.resolveNested_isOk_iff, find?_opened]
  constructor
  · rintro ⟨p, ⟨hother, rfl⟩, value, ⟨hfixed, rfl⟩, hsame⟩
    exact ⟨hother, hfixed, fun known hknown => (h.same_iff hfixed known).mpr (hsame known hknown)⟩
  · intro hwhole
    refine ⟨_, ⟨hwhole.other, rfl⟩, _, ⟨hwhole.fixed, rfl⟩, fun known hknown => ?_⟩
    exact (h.same_iff hwhole.fixed known).mp (hwhole.same known hknown)

theorem resolveUntyped_isOk_iff (h : GivenWidth.Of width given) :
    (∃ res, resolveUntyped given = .ok res) ↔ d.AdmitsType r width none := by
  have hrule : d.AdmitsType r width none ↔ width.isSome := by
    constructor
    · intro hadmits
      cases hadmits with
      | untyped given => exact given
    · exact .untyped
  rw [hrule]
  cases h <;> simp [resolveUntyped]

theorem resolveNamed_isOk_iff (h : GivenWidth.Of width given) {path : List String} :
    (∃ res, Context.resolveNamed ⟨d, resolved, opened d r⟩ given path = .ok res) ↔
      d.AdmitsType r width (some (.named path)) := by
  unfold Context.resolveNamed
  cases hb : builtin? path with
  | some s =>
    have hrule : d.AdmitsType r width (some (.named path)) ↔
        FixedWidth width ∧ WidthIs width s.width := by
      constructor
      · intro hadmits
        cases hadmits with
        | scalar builtin fixed same =>
          obtain rfl := Option.some.inj (hb.symm.trans builtin)
          exact ⟨fixed, same⟩
        | whole outer _ => simp [hb] at outer
      · rintro ⟨hfixed, hsame⟩
        exact .scalar hb hfixed hsame
    rw [hrule]
    refine exists_rigid_same_iff h ⟨_, rfl⟩ fun value => ?_
    by_cases hv : value = s.width <;> simp [hv, pure, Except.pure]
  | none =>
    dsimp only
    rw [whole_isOk_iff h]
    constructor
    · exact .whole hb
    · intro hadmits
      cases hadmits with
      | scalar builtin _ _ => simp [hb] at builtin
      | whole _ whole => exact whole

theorem resolvePointer_isOk_iff (h : GivenWidth.Of width given) {target : TypeExpr} :
    (∃ res, Context.resolvePointer ⟨d, resolved, opened d r⟩ given target = .ok res) ↔
      d.AdmitsType r width (some (.pointer target)) := by
  constructor
  · intro hok
    unfold Context.resolvePointer at hok
    cases target with
    | named path =>
      cases hb : builtin? path with
      | some s => simp [hb] at hok
      | none =>
        simp only [hb] at hok
        exact .pointer hb ((whole_isOk_iff h).mp hok)
    | _ => simp at hok
  · intro hadmits
    cases hadmits with
    | pointer outer whole =>
      simp only [Context.resolvePointer, outer]
      exact (whole_isOk_iff h).mpr whole

theorem resolveSlice_isOk_iff (h : GivenWidth.Of width given) {element : TypeExpr} :
    (∃ res, resolveSlice given element = .ok res) ↔
      d.AdmitsType r width (some (.slice element)) := by
  have hrule : d.AdmitsType r width (some (.slice element)) ↔
      element.IsElement ∧ width.isSome := by
    constructor
    · intro hadmits
      cases hadmits with
      | slice given h => exact ⟨h, given⟩
    · rintro ⟨helement, hgiven⟩
      exact .slice hgiven helement
  rw [hrule, ← resolveElement_isOk_iff]
  unfold resolveSlice
  rw [exists_bind_eq_ok]
  cases h <;> simp [pure, Except.pure]

theorem resolveArray_isOk_iff (h : GivenWidth.Of width given) {length : Nat}
    {element : TypeExpr} :
    (∃ res, resolveArray given length element = .ok res) ↔
      d.AdmitsType r width (some (.array length element)) := by
  have hrule : d.AdmitsType r width (some (.array length element)) ↔
      element.IsElement ∧ FixedWidth width ∧ WidthIs width length := by
    constructor
    · intro hadmits
      cases hadmits with
      | array fixed h same => exact ⟨h, fixed, same⟩
    · rintro ⟨helement, hfixed, hsame⟩
      exact .array hfixed helement hsame
  rw [hrule, ← resolveElement_isOk_iff, ← exists_and_right]
  unfold resolveArray
  rw [exists_bind_eq_ok]
  refine exists_congr fun type => and_congr_right fun _ => ?_
  refine exists_rigid_same_iff h ⟨_, rfl⟩ fun value => ?_
  by_cases hv : value = length <;> simp [hv, pure, Except.pure]

/-- A field is resolved exactly if its width and its type follow the rules. -/
theorem resolve_isOk_iff (hn : (resolved.map (·.id)).Nodup) :
    (∃ res, Context.resolve ⟨d, resolved, opened d r⟩ f = .ok res) ↔
      (∀ w ∈ f.width, RefersTo resolved w ∧ (w.refs = [] → ∃ n, w.fold = some n)) ∧
        d.AdmitsType r f.width f.type := by
  rw [← Context.givenWidth_isOk_iff (c := ⟨d, resolved, opened d r⟩) hn, ← exists_and_right]
  unfold Context.resolve
  rw [exists_bind_eq_ok]
  refine exists_congr fun given => and_congr_right fun hgiven => ?_
  have h := Context.givenWidth_of hgiven
  cases f.type with
  | none => exact resolveUntyped_isOk_iff h
  | some type =>
    cases type with
    | named path => exact resolveNamed_isOk_iff h
    | pointer target => exact resolvePointer_isOk_iff h
    | slice element => exact resolveSlice_isOk_iff h
    | array length element => exact resolveArray_isOk_iff h
    | constant value =>
      dsimp only
      rw [exists_rigid_iff h]
      constructor
      · exact fun hok => .constant value hok.1
      · intro hadmits
        cases hadmits with
        | constant _ fixed => exact ⟨fixed, _, rfl⟩

end Types

/-! ### Scalars -/

theorem unsigned?_isSome_iff (n : Nat) : (Scalar.unsigned? n).isSome ↔ n ∈ [1, 2, 4, 8] := by
  unfold Scalar.unsigned?
  split <;> simp_all

theorem ofWidth_scalar_iff {w : Width} {n : Nat} (hfold : w.fold = some n) :
    (∃ s, FieldType.ofWidth w n = .scalar s) ↔ ∃ n ∈ [1, 2, 4, 8], w = .literal n := by
  cases w with
  | literal m =>
    obtain rfl : m = n := by simpa [Width.fold] using hfold
    simp only [Width.literal.injEq, exists_eq_right', ← unsigned?_isSome_iff]
    cases hs : Scalar.unsigned? m <;> simp [FieldType.ofWidth, hs]
  | field id => simp [FieldType.ofWidth]
  | binary op lhs rhs => simp [FieldType.ofWidth]

theorem sequenceType_ne_scalar (element : FieldType) (n : Nat) (s : Scalar) :
    sequenceType element n ≠ .scalar s := by
  unfold sequenceType
  split <;> simp

theorem resolveNamed_type {path : List String} {res : Resolved}
    (h : c.resolveNamed given path = .ok res) :
    (∃ s, res.type = .scalar s) ↔ (builtin? path).isSome := by
  obtain ⟨s, hb, rfl⟩ | hwhole := c.resolveNamed_eq_ok h
  · simp [hb, Resolved.literal]
  · simp [hwhole.type_eq, hwhole.outer]

theorem resolvePointer_type {target : TypeExpr} {res : Resolved}
    (h : c.resolvePointer given target = .ok res) (s : Scalar) : res.type ≠ .scalar s := by
  obtain ⟨path, _, hwhole⟩ := c.resolvePointer_eq_ok h
  simp [hwhole.type_eq]

theorem resolveSlice_type {element : TypeExpr} {res : Resolved}
    (h : resolveSlice given element = .ok res) (s : Scalar) : res.type ≠ .scalar s := by
  obtain ⟨type, _, ⟨w, n, _, rfl⟩ | ⟨w, _, rfl⟩⟩ := resolveSlice_eq_ok h
  · exact sequenceType_ne_scalar type n s
  · dsimp only
    split <;> simp

theorem resolveArray_type {length : Nat} {element : TypeExpr} {res : Resolved}
    (h : resolveArray given length element = .ok res) (s : Scalar) : res.type ≠ .scalar s := by
  obtain ⟨type, _, rfl⟩ := resolveArray_eq_ok h
  exact sequenceType_ne_scalar type length s

theorem resolveUntyped_type {res : Resolved} (hgiven : GivenWidth.Of width given)
    (h : resolveUntyped given = .ok res) :
    (∃ s, res.type = .scalar s) ↔ ∃ n ∈ [1, 2, 4, 8], width = some (.literal n) := by
  cases hgiven with
  | absent => simp [resolveUntyped] at h
  | fixed _ fold =>
    obtain rfl := Except.ok.inj h
    simpa [Resolved.literal] using ofWidth_scalar_iff fold
  | @dynamic w refs =>
    obtain rfl := Except.ok.inj h
    have hne : ∀ n, w ≠ .literal n := fun n hn => refs (hn ▸ rfl)
    simp [hne]

/-- A field is resolved to a scalar exactly if widths can refer to it. -/
theorem isScalar_iff {res : Resolved} (h : c.resolve f = .ok res) :
    (∃ s, res.type = .scalar s) ↔ f.IsScalar := by
  obtain ⟨given, hgiven, h⟩ := bind_eq_ok h
  unfold FieldSyntax.IsScalar
  cases ht : f.type with
  | none =>
    simp only [ht] at h ⊢
    exact resolveUntyped_type (c.givenWidth_of hgiven) h
  | some type =>
    simp only [ht] at h
    cases type with
    | named path => exact resolveNamed_type h
    | pointer target => exact iff_of_false (fun ⟨s, hs⟩ => resolvePointer_type h s hs) id
    | slice element => exact iff_of_false (fun ⟨s, hs⟩ => resolveSlice_type h s hs) id
    | array length element => exact iff_of_false (fun ⟨s, hs⟩ => resolveArray_type h s hs) id
    | constant value =>
      obtain ⟨width, _, h⟩ := bind_eq_ok h
      obtain rfl := Except.ok.inj h
      simp [Resolved.literal]

end Analysis

end WireRecords
