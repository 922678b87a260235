import WireRecords.Proofs.Footprint
import WireRecords.Proofs.Rejection

/-!
# Parts that may be left out

A field can be written in several ways: its type may be left out where the width implies it, and its
width where the type has one of its own. `Respelled` lists these ways. In one context two spellings
of a field are resolved to the same, faults included; between two spellings of a directive the
contexts differ as well, but only in where the fields stand.
-/
namespace WireRecords
open Analysis

/-! ### Spellings -/

/-- The width that a type has by itself: that of a scalar, or of a record declared before, in bytes,
and that of an array in elements. -/
inductive TypeExpr.HasWidth (r : Registry) : TypeExpr → Nat → Prop
  | scalar {path : List String} {s : Scalar} (builtin : builtin? path = some s) :
      HasWidth r (.named path) s.width
  | array (length : Nat) (element : TypeExpr) : HasWidth r (.array length element) length
  | record {path : List String} {n : Nat} (outer : builtin? path = none)
      (known : r.width? ("::".intercalate path) = some n) : HasWidth r (.named path) n
  | pointer {path : List String} {n : Nat} (outer : builtin? path = none)
      (known : r.width? ("::".intercalate path) = some n) : HasWidth r (.pointer (.named path)) n

/-- Two ways to write the width and the type of a field, where `r` holds the records before. -/
inductive Respelled (r : Registry) :
    Option Width → Option TypeExpr → Option Width → Option TypeExpr → Prop
  | same (width : Option Width) (type : Option TypeExpr) : Respelled r width type width type
  | symm {width width' : Option Width} {type type' : Option TypeExpr}
      (h : Respelled r width type width' type') : Respelled r width' type' width type
  | trans {width width' width'' : Option Width} {type type' type'' : Option TypeExpr}
      (h : Respelled r width type width' type') (h' : Respelled r width' type' width'' type'') :
      Respelled r width type width'' type''
  /-- A plain width of 1, 2, 4 or 8 bytes is that of an unsigned integer. -/
  | integer {n : Nat} {s : Scalar} {path : List String} (unsigned : Scalar.unsigned? n = some s)
      (names : builtin? path = some s) :
      Respelled r (some (.literal n)) none (some (.literal n)) (some (.named path))
  /-- All other widths count bytes. -/
  | bytes {w : Width} {element : TypeExpr} (isByte : isByte element = true)
      (other : ∀ n, w = .literal n → Scalar.unsigned? n = none) :
      Respelled r (some w) none (some w) (some (.slice element))
  /-- A number of bytes that is known is the length of an array. -/
  | array {w : Width} {n : Nat} {element element' : TypeExpr} (fold : w.fold = some n)
      (isByte : isByte element = true) (isByte' : Analysis.isByte element' = true) :
      Respelled r (some w) (some (.slice element)) none (some (.array n element'))
  /-- The width that the type has need not be given. -/
  | width {w : Width} {n : Nat} {type : TypeExpr} (fold : w.fold = some n)
      (own : type.HasWidth r n) : Respelled r (some w) (some type) none (some type)

/-- Two ways to write a field. -/
structure FieldSyntax.Respells (r : Registry) (f g : FieldSyntax) : Prop where
  id : g.id = f.id
  endian : g.endian = f.endian
  parts : Respelled r f.width f.type g.width g.type

/-- Two ways to write a directive: any of its fields may be written in another way, and stand
anywhere. -/
structure Directive.Respells (r : Registry) (d k : Directive) : Prop where
  id : k.id = d.id
  fields : List.Forall₂ (FieldSyntax.Respells r) d.fields k.fields

/-! ### Results without their places -/

def FieldDecl.content (f : FieldDecl) : String × FieldType := (f.id, f.type)

def RecordedField.content (f : RecordedField) : (String × FieldType) × FieldMeta :=
  (f.decl.content, f.info)

def RecordEntry.content (e : RecordEntry) :
    String × List ((String × FieldType) × FieldMeta) × Bool × Option Nat :=
  (e.id, e.fields.map (·.content), e.isSealed, e.width)

def RecordDecl.content (r : RecordDecl) : String × List (String × FieldType) :=
  (r.id, r.fields.map (·.content))

/-- Both directives are accepted with the same types, or both are refused for the same kind of
fault. -/
inductive SameVerdict : Except Fault RecordDecl → Except Fault RecordDecl → Prop
  | accepted {decl decl' : RecordDecl} (h : decl'.content = decl.content) :
      SameVerdict (.ok decl) (.ok decl')
  | refused {fault fault' : Fault} (h : fault'.diagnostic.code = fault.diagnostic.code) :
      SameVerdict (.error fault) (.error fault')

/-- Two analyses that come to the same but for where fields stand: both overflow, or both leave the
same types, metadata and widths of all records in the registry. -/
inductive SameOutcome : Except ArithmeticFault (Registry × Except Fault RecordDecl) →
    Except ArithmeticFault (Registry × Except Fault RecordDecl) → Prop
  | overflow (fault : ArithmeticFault) : SameOutcome (.error fault) (.error fault)
  | ended {s t : Registry} {verdict verdict' : Except Fault RecordDecl}
      (entries : ∀ id, (t.find? id).map (·.content) = (s.find? id).map (·.content))
      (verdicts : SameVerdict verdict verdict') :
      SameOutcome (.ok (s, verdict)) (.ok (t, verdict'))

theorem Width.refs_of_fold {w : Width} {n : Nat} (h : w.fold = some n) : w.refs = [] := by
  induction w generalizing n with
  | literal _ => rfl
  | field _ => simp [fold] at h
  | binary op lhs rhs ihl ihr =>
    cases hl : lhs.fold with
    | none => simp [fold, hl] at h
    | some a =>
      cases hr : rhs.fold with
      | none => simp [fold, hl, hr] at h
      | some b => simp [refs, ihl hl, ihr hr]

namespace Analysis

/-! ### Spellings in one context -/

/-- The resolver behind the width of a field. -/
def Context.resolveGiven (c : Context) (given : GivenWidth) :
    Option TypeExpr → Except FieldFault Resolved
  | none => resolveUntyped given
  | some (.constant value) => do
    let width ← given.rigid .constant
    return .literal (.constant value) (width.getD value.utf8ByteSize)
  | some (.named path) => c.resolveNamed given path
  | some (.pointer target) => c.resolvePointer given target
  | some (.slice element) => resolveSlice given element
  | some (.array length element) => resolveArray given length element

/-- The resolver on the width and the type of a field. -/
def Context.resolveParts (c : Context) (width : Option Width) (type : Option TypeExpr) :
    Except FieldFault Resolved :=
  c.givenWidth width >>= fun given => c.resolveGiven given type

theorem Context.resolve_eq (c : Context) (f : FieldSyntax) :
    c.resolve f = c.resolveParts f.width f.type := by
  obtain ⟨_, _, _, type, _⟩ := f
  rcases type with _ | ⟨_ | _ | _ | _ | _⟩ <;> rfl

/-- The records of `r` that have a width can be named in the context, its own record apart. -/
def Context.Knows (c : Context) (r : Registry) : Prop :=
  ∀ path n, path ≠ [c.directive.id] → r.width? ("::".intercalate path) = some n →
    c.registry.contains ("::".intercalate path) = true ∧
      c.registry.width? ("::".intercalate path) = some n

variable {c k : Context} {r : Registry} {f g : FieldSyntax} {d e : Directive}

theorem Context.resolveParts_none (type : Option TypeExpr) :
    c.resolveParts none type = c.resolveGiven .absent type := rfl

theorem Context.resolveParts_of_fold {w : Width} {n : Nat} (h : w.fold = some n)
    (type : Option TypeExpr) :
    c.resolveParts (some w) type = c.resolveGiven (.fixed w n) type := by
  have hgiven : c.givenWidth (some w) = .ok (.fixed w n) :=
    c.givenWidth_eq_fixed.mpr ⟨rfl, Width.refs_of_fold h, h⟩
  rw [resolveParts, hgiven]
  rfl

theorem resolveElement_of_isByte {element : TypeExpr} (h : isByte element = true) :
    resolveElement element = .ok (.scalar .u8) := by
  cases element with
  | named path =>
    have hb : builtin? path = some .u8 := by simpa [isByte] using h
    simp [resolveElement, hb]
  | _ => simp [isByte] at h

theorem ofWidth_of_not_plain {w : Width} (h : ∀ n, w = .literal n → Scalar.unsigned? n = none)
    {n : Nat} (hn : w.fold = some n) : FieldType.ofWidth w n = .bytes n := by
  unfold FieldType.ofWidth
  split
  · rename_i m s hs
    obtain rfl : m = n := by simpa [Width.fold] using hn
    rw [h m rfl] at hs
    cases hs
  · rfl

/-- A width that is no plain number of bytes of an integer counts bytes, given or not. -/
theorem resolveUntyped_eq_resolveSlice {w : Width} {given : GivenWidth} {element : TypeExpr}
    (hgiven : c.givenWidth (some w) = .ok given) (hbyte : isByte element = true)
    (h : ∀ n, w = .literal n → Scalar.unsigned? n = none) :
    resolveSlice given element = resolveUntyped given := by
  obtain ⟨hnone, _⟩ | ⟨v, n, hv, rfl⟩ | ⟨v, hv, rfl, _⟩ := c.givenWidth_eq_ok hgiven
  · cases hnone
  · obtain rfl := Option.some.inj hv
    have hfold := (c.givenWidth_eq_fixed.mp hgiven).2.2
    simp [resolveSlice, resolveElement_of_isByte hbyte, resolveUntyped,
      ofWidth_of_not_plain h hfold, sequenceType, bind, Except.bind, pure, Except.pure]
  · simp [resolveSlice, resolveElement_of_isByte hbyte, resolveUntyped, bind, Except.bind, pure,
      Except.pure]

/-- A record with a width is resolved to the same whether its width is given or not. -/
theorem Context.whole_of_knows (hknows : c.Knows r) {path : List String} {n : Nat}
    (known : r.width? ("::".intercalate path) = some n) (role : Rigid) (type : String → FieldType)
    (w : Width) :
    (c.recordPath path >>= fun p => GivenWidth.absent.rigid role >>= c.resolveNested (type p) p) =
      c.recordPath path >>= fun p =>
        (GivenWidth.fixed w n).rigid role >>= c.resolveNested (type p) p := by
  by_cases hself : path = [c.directive.id]
  · simp [recordPath, hself, bind, Except.bind]
  · obtain ⟨hcontains, hwidth⟩ := hknows path n hself known
    simp [recordPath, hself, GivenWidth.rigid, resolveNested, hcontains, hwidth, bind, Except.bind]

/-- The width that a type has makes no difference. -/
theorem Context.resolveGiven_of_hasWidth {type : TypeExpr} {n : Nat} (h : type.HasWidth r n)
    (hknows : c.Knows r) (w : Width) :
    c.resolveGiven .absent (some type) = c.resolveGiven (.fixed w n) (some type) := by
  cases h with
  | scalar builtin =>
    simp [resolveGiven, resolveNamed, builtin, GivenWidth.rigid, bind, Except.bind]
  | array length element =>
    simp [resolveGiven, resolveArray, GivenWidth.rigid, bind, Except.bind]
  | record outer known =>
    simp only [resolveGiven, resolveNamed, outer]
    exact c.whole_of_knows hknows known .record .nested w
  | pointer outer known =>
    simp only [resolveGiven, resolvePointer, outer]
    exact c.whole_of_knows hknows known .pointer (.boxed <| .nested ·) w

/-- In one context two spellings come to the same, faults included. -/
theorem Context.resolveParts_of_respelled {width width' : Option Width}
    {type type' : Option TypeExpr} (h : Respelled r width type width' type') (hknows : c.Knows r) :
    c.resolveParts width' type' = c.resolveParts width type := by
  induction h with
  | same => rfl
  | symm _ ih => exact ih.symm
  | trans _ _ ih ih' => exact ih'.trans ih
  | @integer n s path unsigned names =>
    have hfold : (Width.literal n).fold = some n := rfl
    have hwidth := Scalar.width_of_unsigned? unsigned
    simp [resolveParts_of_fold hfold, resolveGiven, resolveNamed, names, GivenWidth.rigid, hwidth,
      resolveUntyped, FieldType.ofWidth, unsigned, bind, Except.bind, pure, Except.pure]
  | @bytes w element isByte other =>
    simp only [resolveParts, bind, Except.bind]
    cases hgiven : c.givenWidth (some w) with
    | error e => rfl
    | ok given => exact resolveUntyped_eq_resolveSlice hgiven isByte other
  | @array w n element element' fold isByte isByte' =>
    simp [resolveParts_of_fold fold, resolveParts_none, resolveGiven, resolveSlice, resolveArray,
      resolveElement_of_isByte isByte, resolveElement_of_isByte isByte', GivenWidth.rigid, bind,
      Except.bind]
  | @width w n type fold own =>
    rw [resolveParts_none, resolveParts_of_fold fold]
    exact c.resolveGiven_of_hasWidth own hknows w

/-! ### Contexts that differ in places only -/

/-- The contexts of two spellings of a directive. -/
structure Context.Like (c k : Context) : Prop where
  id : k.directive.id = c.directive.id
  fields : k.directive.fields.map (·.id) = c.directive.fields.map (·.id)
  resolved : k.resolved.map (·.content) = c.resolved.map (·.content)
  registry : ∀ path, c.registry.AgreeOn k.registry path

/-- The same result, or faults of one kind. -/
inductive SameResult {α : Type} : Except FieldFault α → Except FieldFault α → Prop
  | ok (a : α) : SameResult (.ok a) (.ok a)
  | error {e e' : FieldFault} (h : ∀ f g, (e'.diagnostic g).code = (e.diagnostic f).code) :
      SameResult (.error e) (.error e')

theorem FieldFault.code_diagnostic (e : FieldFault) (f g : FieldSyntax) :
    (e.diagnostic g).code = (e.diagnostic f).code := by
  cases e <;> rfl

theorem SameResult.refl {α : Type} (x : Except FieldFault α) : SameResult x x := by
  cases x with
  | ok a => exact .ok a
  | error e => exact .error e.code_diagnostic

theorem SameResult.bind {α β : Type} {x y : Except FieldFault α} {p q : α → Except FieldFault β}
    (h : SameResult x y) (hpq : ∀ a, SameResult (p a) (q a)) : SameResult (x >>= p) (y >>= q) := by
  cases h with
  | ok a => exact hpq a
  | error h => exact .error h

theorem Context.Like.checkRef (h : c.Like k) (ref : String) :
    SameResult (c.checkRef ref) (k.checkRef ref) := by
  have hfind : (k.resolved.find? (·.id == ref)).map (·.content) =
      (c.resolved.find? (·.id == ref)).map (·.content) := by
    have hmap := congrArg (List.find? (·.1 == ref)) h.resolved
    rwa [List.find?_map, List.find?_map] at hmap
  have hany : k.directive.fields.any (·.id == ref) = c.directive.fields.any (·.id == ref) := by
    have hmap := congrArg (List.any · (· == ref)) h.fields
    simpa only [List.any_map, Function.comp_def] using hmap
  unfold Context.checkRef
  cases hc : c.resolved.find? (·.id == ref) with
  | none =>
    rw [hc, Option.map_none, Option.map_eq_none_iff] at hfind
    simp only [hfind, hany]
    exact .refl _
  | some g =>
    rw [hc, Option.map_some, Option.map_eq_some_iff] at hfind
    obtain ⟨g', hk, hcontent⟩ := hfind
    have htype : g'.type = g.type := congrArg Prod.snd hcontent
    simp only [hk, htype]
    cases g.type with
    | scalar s => exact .ok ()
    | _ => exact .error fun _ _ => rfl

theorem Context.Like.checkRefs (h : c.Like k) (refs : List String) :
    SameResult (c.checkRefs refs) (k.checkRefs refs) := by
  induction refs with
  | nil => exact .ok ()
  | cons ref refs ih =>
    have href := h.checkRef ref
    simp only [Context.checkRefs]
    generalize c.checkRef ref = x, k.checkRef ref = y at href ⊢
    cases href with
    | ok _ => exact ih
    | error h => exact .error h

theorem Context.Like.givenWidth (h : c.Like k) (width : Option Width) :
    SameResult (c.givenWidth width) (k.givenWidth width) := by
  cases width with
  | none => exact .ok _
  | some w =>
    have hrefs := h.checkRefs w.refs
    simp only [Context.givenWidth]
    generalize c.checkRefs w.refs = x, k.checkRefs w.refs = y at hrefs ⊢
    cases hrefs with
    | ok _ => exact .refl _
    | error h => exact .error h

theorem Context.Like.resolveGiven (h : c.Like k) (given : GivenWidth) (type : Option TypeExpr) :
    k.resolveGiven given type = c.resolveGiven given type := by
  match type with
  | some (.named path) => exact resolveNamed_agreeOn h.id (fun p _ => h.registry p) given
  | some (.pointer target) => exact resolvePointer_agreeOn h.id (fun p _ => h.registry p) given
  | none | some (.constant _) | some (.slice _) | some (.array _ _) => rfl

/-- Two spellings of a field come to the same in the contexts of their directives. -/
theorem Context.Like.resolve (h : c.Like k) (hknows : c.Knows r) (hf : f.Respells r g) :
    SameResult (c.resolve f) (k.resolve g) := by
  rw [c.resolve_eq, k.resolve_eq, ← c.resolveParts_of_respelled hf.parts hknows]
  refine (h.givenWidth g.width).bind fun given => ?_
  rw [h.resolveGiven given g.type]
  exact .refl _

/-! ### Spellings of a directive -/

/-- While a directive is analysed, the records before it can be named. -/
theorem knows_opened (hnew : d.id = anonymous ∨ r.find? d.id = none) (resolved : List FieldDecl) :
    Context.Knows ⟨d, resolved, opened d r⟩ r := by
  intro path n hother hwidth
  -- A record without a name may replace one, but its name is no path to any other record.
  have hne : "::".intercalate path ≠ d.id := by
    intro hpath
    rcases hnew with hnew | hnew
    · have hname : IsName ("::".intercalate path) := by
        have hlist : anonymous.toList = ['_'] := rfl
        rw [hpath, hnew]
        simp [IsName, hlist, Directive.isAlphanumeric, Directive.isAlpha]
      rw [hname.eq_singleton, hpath] at hother
      exact hother rfl
    · rw [hpath, Registry.width?, hnew] at hwidth
      cases hwidth
  have hcontains : r.contains ("::".intercalate path) = true :=
    contains_of_width? (by simp [hwidth])
  constructor
  · simp [opened, Registry.contains_insert, hcontains]
  · simp [opened, Registry.width?_insert, hne, hwidth]

section Recording

variable {before before' added : List RecordedField} {fs gs : List FieldSyntax}

/-- What depends on the content of fields only is the same for fields of the same content. -/
theorem map_eq_of_content {β : Type} [Nonempty β] {p : RecordedField → β}
    (hp : ∀ a b, a.content = b.content → p a = p b)
    (h : before'.map (·.content) = before.map (·.content)) : before'.map p = before.map p := by
  obtain ⟨q, rfl⟩ := (Function.factorsThrough_iff (f := (·.content)) p).mp fun a b => hp a b
  rw [← List.map_map, h, List.map_map]

theorem map_decl_content (h : before'.map (·.content) = before.map (·.content)) :
    (before'.map (·.decl)).map (·.content) = (before.map (·.decl)).map (·.content) := by
  rw [List.map_map, List.map_map]
  exact map_eq_of_content (fun a b hab => congrArg Prod.fst hab) h

theorem like_opened (h : d.Respells r e)
    (hbefore : before'.map (·.content) = before.map (·.content)) :
    Context.Like ⟨d, before.map (·.decl), opened d r⟩ ⟨e, before'.map (·.decl), opened e r⟩ where
  id := h.id
  fields := by
    have hids := h.fields
    generalize d.fields = fs, e.fields = gs at hids
    induction hids with
    | nil => rfl
    | cons hf _ ih => simp [hf.id, ih]
  resolved := map_decl_content hbefore
  registry path := agreeOn_opened h.id fun _ => ⟨rfl, rfl⟩

theorem content_recorded (hf : f.Respells r g) (res : Resolved) :
    (recorded g res).content = (recorded f res).content := by
  simp [RecordedField.content, FieldDecl.content, recorded, hf.id, hf.endian]

theorem fresh_iff (hf : f.Respells r g)
    (hbefore : before'.map (·.content) = before.map (·.content)) :
    (∀ a ∈ before', a.decl.id ≠ g.id) ↔ ∀ a ∈ before, a.decl.id ≠ f.id := by
  have hids : before'.map (·.decl.id) = before.map (·.decl.id) :=
    map_eq_of_content (fun a b hab => congrArg (·.1.1) hab) hbefore
  have hnot : g.id ∉ before'.map (·.decl.id) ↔ f.id ∉ before.map (·.decl.id) := by
    rw [hids, hf.id]
  simpa [eq_comm] using hnot

/-- Fields that are resolved are resolved to the same in another spelling. -/
theorem Resolves.respelled (h : d.Respells r e) (hnew : d.id = anonymous ∨ r.find? d.id = none)
    (hfs : List.Forall₂ (FieldSyntax.Respells r) fs gs)
    (hbefore : before'.map (·.content) = before.map (·.content))
    (hresolves : Resolves d (opened d r) before fs added) :
    ∃ added', Resolves e (opened e r) before' gs added' ∧
      added'.map (·.content) = added.map (·.content) := by
  induction hresolves generalizing before' gs with
  | nil =>
    cases hfs
    exact ⟨[], .nil, rfl⟩
  | @cons before added f fs res resolved fresh _ ih =>
    cases hfs with
    | @cons _ g _ gs hf hfs =>
      have hsame := (like_opened h hbefore).resolve (knows_opened hnew _) hf
      rw [resolved] at hsame
      generalize hg : Context.resolve ⟨e, before'.map (·.decl), opened e r⟩ g = res' at hsame
      cases hsame
      have hnext : (before' ++ [recorded g res]).map (·.content) =
          (before ++ [recorded f res]).map (·.content) := by simp [hbefore, content_recorded hf]
      obtain ⟨added', hadded, hcontent⟩ := ih hfs hnext
      exact ⟨recorded g res :: added', .cons hg ((fresh_iff hf hbefore).mpr fresh) hadded,
        by simp [hcontent, content_recorded hf]⟩

/-- A field that is refused is refused for the same kind of fault in another spelling. -/
theorem Refused.respelled (h : d.Respells r e) (hnew : d.id = anonymous ∨ r.find? d.id = none)
    (hf : f.Respells r g) (hbefore : before'.map (·.content) = before.map (·.content))
    {fault : Fault} (hrefused : Refused d (opened d r) before f fault) :
    ∃ fault', Refused e (opened e r) before' g fault' ∧
      fault'.diagnostic.code = fault.diagnostic.code := by
  have hsame := (like_opened h hbefore).resolve (knows_opened hnew _) hf
  generalize hg : Context.resolve ⟨e, before'.map (·.decl), opened e r⟩ g = res' at hsame
  cases hrefused with
  | unresolved failed =>
    rw [failed] at hsame
    cases hsame with
    | error hcode => exact ⟨_, .unresolved hg, hcode f g⟩
  | @repeated res a resolved first =>
    rw [resolved] at hsame
    cases hsame
    cases hfind : before'.find? (·.decl.id == g.id) with
    | some b => exact ⟨_, .repeated hg hfind, rfl⟩
    | none =>
      have hfresh := (fresh_iff hf hbefore).mp (by simpa using hfind)
      have hne := hfresh a (List.mem_of_find?_eq_some first)
      exact absurd (by simpa using List.find?_some first) hne

theorem Records.respelled (h : d.Respells r e) (hnew : d.id = anonymous ∨ r.find? d.id = none)
    {fields : List RecordedField} {fault : Option Fault} (hrecords : Records d r fields fault) :
    ∃ fields' fault', Records e r fields' fault' ∧
      fields'.map (·.content) = fields.map (·.content) ∧
      fault'.map (·.diagnostic.code) = fault.map (·.diagnostic.code) := by
  cases fault with
  | none =>
    obtain ⟨fields', hfields, hcontent⟩ := Resolves.respelled h hnew h.fields rfl hrecords
    exact ⟨fields', none, hfields, hcontent, rfl⟩
  | some fault =>
    obtain ⟨earlier, f, later, hsplit, hearlier, hrefused⟩ := hrecords
    -- The fields of the other spelling are split at the same place.
    have hall := (hsplit ▸ h.fields).flip
    have hlater := List.forall₂_drop_append _ _ _ hall
    generalize hdrop : e.fields.drop earlier.length = rest at hlater
    cases hlater with
    | @cons g _ gs _ hf _ =>
      obtain ⟨fields', hfields, hcontent⟩ := Resolves.respelled h hnew
        (List.forall₂_take_append _ _ _ hall).flip rfl hearlier
      obtain ⟨fault', hfault, hcode⟩ := hrefused.respelled h hnew hf hcontent
      refine ⟨fields', some fault', ⟨_, g, gs, ?_, hfields, hfault⟩, hcontent, ?_⟩
      · rw [← hdrop, List.take_append_drop]
      · simp [hcode]

end Recording

theorem fieldWidth?_of_content {a b : RecordedField} (hab : a.content = b.content) :
    r.fieldWidth? a = r.fieldWidth? b := by
  have htype : a.decl.type = b.decl.type := congrArg (·.1.2) hab
  have hinfo : a.info = b.info := congrArg Prod.snd hab
  simp only [Registry.fieldWidth?, htype, hinfo]

end Analysis

open Analysis

variable {d e : Directive} {r : Registry}

theorem SameVerdict.of_content {fields fields' : List RecordedField} {fault fault' : Option Fault}
    (hid : e.id = d.id) (hcontent : fields'.map (·.content) = fields.map (·.content))
    (hfault : fault'.map (·.diagnostic.code) = fault.map (·.diagnostic.code)) :
    SameVerdict (verdict d fields fault) (verdict e fields' fault') := by
  match fault, fault' with
  | none, none =>
    refine .accepted ?_
    simp only [RecordDecl.content, hid, map_decl_content hcontent]
  | some fault, some fault' => exact .refused (by simpa using hfault)
  | none, some _ | some _, none => simp at hfault

/-- Parts that are left out mean the same as writing them out. However the fields of a directive are
spelled, its analysis gives the same types, metadata and widths, or refuses it for the same kind of
fault at a field where it has recorded the same. -/
theorem analysis_respelled (h : d.Respells r e) : SameOutcome (analyze d r) (analyze e r) := by
  by_cases hnew : d.id = anonymous ∨ r.find? d.id = none
  · obtain ⟨fields, fault, hrecords⟩ := exists_records d r
    obtain ⟨fields', fault', hrecords', hcontent, hfault⟩ := hrecords.respelled h hnew
    have hwidths : fields'.map (opened e r).fieldWidth? = fields.map (opened d r).fieldWidth? := by
      rw [map_eq_of_content (fun _ _ => fieldWidth?_of_content) hcontent]
      refine List.map_congr_left fun f _ => Registry.fieldWidth?_of_agreeOn fun path _ => ?_
      exact agreeOn_opened h.id fun _ => ⟨rfl, rfl⟩
    rw [analyze_of_records hnew hrecords, analyze_of_records (h.id.symm ▸ hnew) hrecords', hwidths]
    cases Registry.totalWidth 0 (fields.map (opened d r).fieldWidth?) with
    | error overflow => exact .overflow overflow
    | ok width =>
      refine .ended (fun id => ?_) (.of_content h.id hcontent hfault)
      by_cases hid : id = d.id
      · simp [Registry.find?_insert, h.id, hid, RecordEntry.content, hcontent]
      · simp [Registry.find?_insert, h.id, hid]
  · rw [not_or] at hnew
    obtain ⟨entry, hentry⟩ := Option.ne_none_iff_exists'.mp hnew.2
    rw [analyze_of_taken hnew.1 hentry, analyze_of_taken (h.id.symm ▸ hnew.1) (h.id.symm ▸ hentry)]
    exact .ended (fun _ => rfl) (.refused rfl)

/-- A registry with a record of four bytes. -/
def points : Registry := ⟨[{ id := "Point", span := default, isSealed := true, width := some 4 }]⟩

/-- A directive of little-endian fields, given by their names, widths and types. -/
def framed (parts : List (String × Option Width × Option TypeExpr)) : Directive :=
  ⟨default, "Frame", parts.map fun (id, width, type) => ⟨default, id, width, type, .little⟩⟩

def terseFrame : Directive :=
  framed [("kind", some (.literal 1), none),
    ("body", some (.field "kind"), none),
    ("sum", none, some (.array 3 (.named ["byte"]))),
    ("at", none, some (.pointer (.named ["Point"])))]

def fullFrame : Directive :=
  framed [("kind", some (.literal 1), some (.named ["uint8"])),
    ("body", some (.field "kind"), some (.slice (.named ["u8"]))),
    ("sum", some (.binary .sub (.literal 5) (.literal 2)), some (.slice (.named ["byte"]))),
    ("at", some (.literal 4), some (.pointer (.named ["Point"])))]

theorem terseFrame_respells : terseFrame.Respells points fullFrame where
  id := rfl
  fields := by
    refine .cons ⟨rfl, rfl, .integer (s := .u8) rfl rfl⟩ (.cons ⟨rfl, rfl, .bytes rfl ?_⟩
      (.cons ⟨rfl, rfl, .symm (.array rfl rfl rfl)⟩
        (.cons ⟨rfl, rfl, .symm (.width rfl (.pointer rfl rfl))⟩ .nil)))
    exact fun _ h => by cases h

theorem terseFrame_accepted : ∃ out ∈ (analyze terseFrame points).toOption, ∃ decl ∈ out.2.toOption,
    decl.fields.map (·.type) = [.scalar .u8, .byteRun, .bytes 3, .boxed (.nested "Point")] := by
  decide +kernel

theorem analysis_respelled_frame : terseFrame.Respells points fullFrame ∧
    ∃ s decl, analyze fullFrame points = .ok (s, .ok decl) ∧
      decl.fields.map (·.type) = [.scalar .u8, .byteRun, .bytes 3, .boxed (.nested "Point")] := by
  refine ⟨terseFrame_respells, ?_⟩
  have hsame := analysis_respelled terseFrame_respells
  obtain ⟨⟨s, verdict⟩, hout, decl, hdecl, htypes⟩ := terseFrame_accepted
  obtain rfl := ok_of_toOption hdecl
  rw [ok_of_toOption hout] at hsame
  generalize analyze fullFrame points = out at hsame ⊢
  cases hsame with
  | @ended _ t _ verdict' _ hverdict =>
    cases hverdict with
    | @accepted _ decl' hcontent =>
      refine ⟨t, decl', rfl, ?_⟩
      have hfields : decl'.fields.map (·.content) = decl.fields.map (·.content) :=
        congrArg Prod.snd hcontent
      have hmap := congrArg (List.map Prod.snd) hfields
      simp only [List.map_map] at hmap
      exact hmap.trans htypes

end WireRecords
