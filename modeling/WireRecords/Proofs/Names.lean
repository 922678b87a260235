import WireRecords.Program.Names
import WireRecords.Proofs.Compilation
import WireRecords.Proofs.Directive.Acceptance

/-!
# Names of directives and records

Every name in a directive is an identifier. A record has the names that its directive gives it: the
fields keep theirs, and a representation mentions the path that the type does.
-/
namespace WireRecords

/-- A letter or underscore, and behind it letters, digits and underscores. -/
def IsIdentifier (id : String) : Prop :=
  ∃ c cs, id.toList = c :: cs ∧ Directive.isAlpha c = true ∧
    ∀ d ∈ cs, Directive.isAlphanumeric d = true

theorem IsIdentifier.notMem {id : String} (h : IsIdentifier id) {d : Char}
    (hd : Directive.isAlphanumeric d = false) : d ∉ id.toList := by
  obtain ⟨c, cs, hid, hc, hcs⟩ := h
  rw [hid]
  intro hmem
  rcases List.mem_cons.mp hmem with rfl | hmem
  · simp [Directive.isAlphanumeric, hc] at hd
  · simp [hcs _ hmem] at hd

theorem IsIdentifier.colon_notMem {id : String} (h : IsIdentifier id) : ':' ∉ id.toList :=
  h.notMem (by decide)

theorem IsIdentifier.hash_notMem {id : String} (h : IsIdentifier id) : '#' ∉ id.toList :=
  h.notMem (by decide)

/-- The path in a type. -/
def TypeExpr.path? : TypeExpr → Option (List String)
  | named path => some path
  | slice type | array _ type | pointer type => type.path?
  | constant _ => none

/-- The path in a representation. -/
def FieldType.path? : FieldType → Option String
  | nested path => some path
  | slice type | boxed type => type.path?
  | _ => none

/-! ### Names are identifiers -/

/-- All names of a directive are identifiers. -/
structure Directive.Named (d : Directive) : Prop where
  id : IsIdentifier d.id
  field : ∀ f ∈ d.fields, IsIdentifier f.id
  path : ∀ {f path}, f ∈ d.fields → f.type.bind TypeExpr.path? = some path →
    path ≠ [] ∧ ∀ s ∈ path, IsIdentifier s

namespace Directive

theorem isIdentifier_of_lexes {cs : List Char} {ts : List Token} (h : Lexes cs ts) {id : String}
    (hid : .name id ∈ ts) : IsIdentifier id := by
  induction h with
  | blank spacing => simp at hid
  | token spacing munch tail ih =>
    rcases List.mem_cons.mp hid with rfl | hid
    · obtain ⟨lexeme, _, hspells⟩ := munch.spelled
      cases hspells with
      | name first others => exact ⟨_, _, String.toList_ofList, first, others⟩
    · exact ih hid

theorem PathForm.mem_tokens {ts : List Token} {path : List String} (h : PathForm ts path) :
    path ≠ [] ∧ ∀ s ∈ path, .name s ∈ ts := by
  induction h with
  | single id => simp
  | segment id hseparator rest ih =>
    refine ⟨by simp, fun s hs => ?_⟩
    rcases List.mem_cons.mp hs with rfl | hs
    · exact List.mem_cons_self
    · exact List.mem_cons_of_mem _ (List.mem_cons_of_mem _ (ih.2 s hs))

theorem TypeForm.mem_tokens {ts : List Token} {t : TypeExpr} {path : List String}
    (h : TypeForm ts t) (hpath : t.path? = some path) :
    path ≠ [] ∧ ∀ s ∈ path, .name s ∈ ts := by
  induction h with
  | named h =>
    obtain rfl := Option.some.inj hpath
    exact h.mem_tokens
  | slice element ih =>
    obtain ⟨hne, hmem⟩ := ih hpath
    exact ⟨hne, fun s hs => by simp [hmem s hs]⟩
  | array hn element ih =>
    obtain ⟨hne, hmem⟩ := ih hpath
    exact ⟨hne, fun s hs => by simp [hmem s hs]⟩
  | pointer target ih =>
    obtain ⟨hne, hmem⟩ := ih hpath
    exact ⟨hne, fun s hs => by simp [hmem s hs]⟩
  | constant value => simp [TypeExpr.path?] at hpath

theorem Optional.mem_tokens {ts : List Token} {t : Option TypeExpr} {path : List String}
    (h : Optional TypeForm ts t) (hpath : t.bind TypeExpr.path? = some path) :
    path ≠ [] ∧ ∀ s ∈ path, .name s ∈ ts := by
  cases h with
  | absent => simp at hpath
  | present h => exact h.mem_tokens (by simpa using hpath)

theorem FieldForm.mem_tokens {ts : List Token} {f : FieldSyntax} (h : FieldForm ts f) :
    .name f.id ∈ ts ∧ ∀ {path}, f.type.bind TypeExpr.path? = some path →
      path ≠ [] ∧ ∀ s ∈ path, .name s ∈ ts := by
  cases h with
  | intro width tail given =>
    refine ⟨List.mem_cons_self, fun hpath => ?_⟩
    generalize f.type = type at tail hpath
    generalize f.endian = endian at tail
    cases tail with
    | absent => simp at hpath
    | type h =>
      obtain ⟨hne, hmem⟩ := h.mem_tokens hpath
      exact ⟨hne, fun s hs => by simp [hmem s hs]⟩
    | endian h he =>
      obtain ⟨hne, hmem⟩ := h.mem_tokens hpath
      exact ⟨hne, fun s hs => by simp [hmem s hs]⟩

theorem FieldsForm.mem_tokens {ts : List Token} {fs : List FieldSyntax} (h : FieldsForm ts fs)
    {f : FieldSyntax} (hf : f ∈ fs) : ∃ us, FieldForm us f ∧ us ⊆ ts := by
  induction h with
  | nil => simp at hf
  | cons head tail ih =>
    rcases List.mem_cons.mp hf with rfl | hf
    · exact ⟨_, head, List.subset_append_left _ _⟩
    · obtain ⟨us, hform, hsub⟩ := ih hf
      exact ⟨us, hform, List.subset_append_of_subset_right _ hsub⟩

theorem named_of_parse {file : Nat} {text : String} {d : Directive}
    (h : Directive.parse file text = .ok d) : d.Named := by
  obtain ⟨ts, hlexes, hform⟩ := renders_of_parse h
  have hident : ∀ {id}, .name id ∈ ts → IsIdentifier id := isIdentifier_of_lexes hlexes
  cases hform with
  | @intro ns fs stop _ name fields hstop =>
    have hfield : ∀ f ∈ d.fields, ∃ us, FieldForm us f ∧ ∀ t ∈ us, t ∈ ns ++ (fs ++ stop) := by
      intro f hf
      obtain ⟨us, hus, hsub⟩ := fields.mem_tokens hf
      exact ⟨us, hus, fun t ht => by simp [hsub ht]⟩
    refine ⟨?_, fun f hf => ?_, fun hf hpath => ?_⟩
    · generalize d.id = id at name
      cases name with
      | absent => exact ⟨'_', [], rfl, by decide, by simp⟩
      | given => exact hident (by simp)
    · obtain ⟨us, hus, hsub⟩ := hfield f hf
      exact hident (hsub _ hus.mem_tokens.1)
    · obtain ⟨us, hus, hsub⟩ := hfield _ hf
      obtain ⟨hne, hmem⟩ := hus.mem_tokens.2 hpath
      exact ⟨hne, fun s hs => hident (hsub _ (hmem s hs))⟩

end Directive

theorem named_of_mem_declared {config : Config} {units : List CompilationUnit} {d : Directive}
    (h : d ∈ declared config units) : d.Named := by
  obtain ⟨file, line, _, hparse⟩ := parse_of_mem_declaredFrom h
  exact Directive.named_of_parse hparse

/-! ### Names of records -/

/-- A representation of a type as it is written, if it is. It mentions the path of a type from
elsewhere, and only that of a constant is not stored. -/
structure FieldType.Represents (type : FieldType) (written : Option TypeExpr) : Prop where
  isStored : type.isStored = true ↔ ∀ value, written ≠ some (.constant value)
  path : type.path? = (written.bind TypeExpr.path?).bind TypeExpr.outer?

/-- A field is declared under its name, with a representation of its type. -/
structure FieldDecl.Represents (g : FieldDecl) (f : FieldSyntax) : Prop where
  id : g.id = f.id
  type : g.type.Represents f.type

/-- A record is declared under its name, with all fields of its directive. -/
structure RecordDecl.Represents (r : RecordDecl) (d : Directive) : Prop where
  id : r.id = d.id
  fields : List.Forall₂ FieldDecl.Represents r.fields d.fields

namespace Analysis

theorem outer?_of_builtin? {path : List String} {s : Scalar} (h : builtin? path = some s) :
    TypeExpr.outer? path = none := by
  simp [TypeExpr.outer?, h]

theorem represents_builtin {path : List String} {s : Scalar} (h : builtin? path = some s) :
    (FieldType.scalar s).Represents (some (.named path)) :=
  ⟨by simp [FieldType.isStored],
    by simp [FieldType.path?, TypeExpr.path?, outer?_of_builtin? h]⟩

theorem represents_named {path : List String} (h : builtin? path = none) :
    (FieldType.nested ("::".intercalate path)).Represents (some (.named path)) :=
  ⟨by simp [FieldType.isStored], by simp [FieldType.path?, TypeExpr.path?, outer?_eq_some h]⟩

theorem represents_untyped {given : GivenWidth} {res : Resolved}
    (h : resolveUntyped given = .ok res) : res.type.Represents none := by
  cases given with
  | absent => simp [resolveUntyped] at h
  | fixed w n =>
    obtain rfl := Except.ok.inj h
    simp only [Resolved.literal, FieldType.ofWidth]
    split <;> exact ⟨by simp [FieldType.isStored], rfl⟩
  | dynamic w =>
    obtain rfl := Except.ok.inj h
    exact ⟨by simp [FieldType.isStored], rfl⟩

theorem Context.represents_resolveNamed {c : Context} {given : GivenWidth} {path : List String}
    {res : Resolved} (h : c.resolveNamed given path = .ok res) :
    res.type.Represents (some (.named path)) := by
  obtain ⟨s, hb, rfl⟩ | hwhole := c.resolveNamed_eq_ok h
  · exact represents_builtin hb
  · rw [hwhole.type_eq]
    exact represents_named hwhole.outer

theorem Context.represents_resolvePointer {c : Context} {given : GivenWidth} {target : TypeExpr}
    {res : Resolved} (h : c.resolvePointer given target = .ok res) :
    res.type.Represents (some (.pointer target)) := by
  obtain ⟨path, rfl, hwhole⟩ := c.resolvePointer_eq_ok h
  rw [hwhole.type_eq]
  exact ⟨by simp [FieldType.isStored], (represents_named hwhole.outer).path⟩

theorem ResolvesElement.represents {type : TypeExpr} {element : FieldType}
    (h : ResolvesElement type element) : element.Represents (some type) := by
  cases h with
  | scalar hb => exact represents_builtin hb
  | nested hb => exact represents_named hb
  | bytes length hb => exact ⟨by simp [FieldType.isStored], (represents_builtin hb).path⟩

/-- A slice of elements, or a sequence of bytes in its place, represents what is written for it. -/
theorem represents_sequence {written type : TypeExpr} {element sequence : FieldType}
    (hwritten : (∀ value, written ≠ .constant value) ∧ written.path? = type.path?)
    (helement : element.Represents (some type))
    (h : sequence = .slice element ∨
      element = .scalar .u8 ∧ sequence.isStored = true ∧ sequence.path? = none) :
    sequence.Represents (some written) := by
  have hpath : element.path? = (some written).bind TypeExpr.path? >>= TypeExpr.outer? := by
    rw [helement.path]
    simp [hwritten.2]
  rcases h with rfl | ⟨rfl, hstored, hnone⟩
  · exact ⟨by simpa [FieldType.isStored] using hwritten.1, hpath⟩
  · exact ⟨by simpa [hstored] using hwritten.1, hnone.trans hpath⟩

theorem represents_sequenceType {written type : TypeExpr} {element : FieldType}
    (hwritten : (∀ value, written ≠ .constant value) ∧ written.path? = type.path?)
    (helement : element.Represents (some type)) (n : Nat) :
    (sequenceType element n).Represents (some written) := by
  apply represents_sequence hwritten helement
  unfold sequenceType
  split
  · rename_i hbyte
    exact Or.inr ⟨hbyte, rfl, rfl⟩
  · exact Or.inl rfl

theorem represents_resolveSlice {given : GivenWidth} {element : TypeExpr} {res : Resolved}
    (h : resolveSlice given element = .ok res) : res.type.Represents (some (.slice element)) := by
  have hwritten : (∀ value, TypeExpr.slice element ≠ .constant value) ∧
      (TypeExpr.slice element).path? = element.path? := ⟨by simp, rfl⟩
  obtain ⟨type, htype, ⟨w, n, rfl, rfl⟩ | ⟨w, rfl, rfl⟩⟩ := resolveSlice_eq_ok h
  · exact represents_sequenceType hwritten htype.represents n
  · apply represents_sequence hwritten htype.represents
    dsimp only
    split
    · rename_i hbyte
      exact Or.inr ⟨hbyte, rfl, rfl⟩
    · exact Or.inl rfl

theorem represents_resolveArray {given : GivenWidth} {length : Nat} {element : TypeExpr}
    {res : Resolved} (h : resolveArray given length element = .ok res) :
    res.type.Represents (some (.array length element)) := by
  have hwritten : (∀ value, TypeExpr.array length element ≠ .constant value) ∧
      (TypeExpr.array length element).path? = element.path? := ⟨by simp, rfl⟩
  obtain ⟨type, htype, rfl⟩ := resolveArray_eq_ok h
  exact represents_sequenceType hwritten htype.represents length

theorem Context.represents_resolve {c : Context} {f : FieldSyntax} {res : Resolved}
    (h : c.resolve f = .ok res) : res.type.Represents f.type := by
  obtain ⟨given, _, h⟩ := bind_eq_ok h
  cases ht : f.type with
  | none =>
    simp only [ht] at h
    exact represents_untyped h
  | some type =>
    simp only [ht] at h
    cases type with
    | named path => exact c.represents_resolveNamed h
    | pointer target => exact c.represents_resolvePointer h
    | slice element => exact represents_resolveSlice h
    | array length element => exact represents_resolveArray h
    | constant value =>
      obtain ⟨width, _, h⟩ := bind_eq_ok h
      obtain rfl := Except.ok.inj h
      exact ⟨by simp [FieldType.isStored, Resolved.literal], rfl⟩

theorem Resolves.represents {d : Directive} {r : Registry} {before added : List RecordedField}
    {fs : List FieldSyntax} (h : Resolves d r before fs added) :
    List.Forall₂ FieldDecl.Represents (added.map (·.decl)) fs := by
  induction h with
  | nil => exact .nil
  | cons resolved fresh rest ih => exact .cons ⟨rfl, Context.represents_resolve resolved⟩ ih

end Analysis

/-- The records of a run are those of its directives, one after the other. -/
theorem Analyses.represents {r r' : Registry} {ds : List Directive} {decls : List RecordDecl}
    (h : Analyses r ds decls r') : List.Forall₂ RecordDecl.Represents decls ds := by
  induction h with
  | nil => exact .nil
  | cons head tail ih =>
    obtain ⟨_, fields, width, hfields, _, _, rfl⟩ := analyze_eq_ok head
    exact .cons ⟨rfl, hfields.represents⟩ ih

/-! ### Paths -/

namespace Program

/-- A segment without a colon is cut off at the next one. -/
theorem splitPath_append {s : List Char} (hs : ':' ∉ s) (rest : List Char) :
    splitPath (s ++ ':' :: ':' :: rest) = s :: splitPath rest := by
  induction s with
  | nil => rfl
  | cons c s ih =>
    have hc : c ≠ ':' := fun h => hs (by simp [h])
    have hrest := ih fun h => hs (List.mem_cons_of_mem c h)
    rw [List.cons_append, splitPath, hrest]
    intro cs h
    exact absurd h hc

theorem splitPath_of_notMem {s : List Char} (hs : ':' ∉ s) : splitPath s = [s] := by
  induction s with
  | nil => rfl
  | cons c s ih =>
    have hc : c ≠ ':' := fun h => hs (by simp [h])
    have hrest := ih fun h => hs (List.mem_cons_of_mem c h)
    rw [splitPath, hrest]
    intro cs h
    exact absurd h hc

/-- A path is cut where its segments were joined. -/
theorem splitPath_intercalate {path : List String} (hne : path ≠ [])
    (h : ∀ s ∈ path, ':' ∉ s.toList) :
    splitPath ("::".intercalate path).toList = path.map String.toList := by
  induction path with
  | nil => exact absurd rfl hne
  | cons s path ih =>
    have hs : ':' ∉ s.toList := h s List.mem_cons_self
    cases path with
    | nil => simpa using splitPath_of_notMem hs
    | cons t path =>
      have hrest := ih (by simp) fun u hu => h u (List.mem_cons_of_mem s hu)
      have hjoin : ("::".intercalate (s :: t :: path)).toList =
          s.toList ++ ':' :: ':' :: ("::".intercalate (t :: path)).toList := by
        rw [String.intercalate_cons_cons, String.toList_append, String.toList_append]
        simp
      rw [hjoin, splitPath_append hs, hrest]
      rfl

end Program

/-- The segments of the path in a representation. -/
def FieldType.segments (type : FieldType) : List String :=
  type.path?.toList.flatMap fun path => (Program.splitPath path.toList).map String.ofList

/-- The names of a record: its own, and those of its fields and in their paths. -/
def RecordDecl.names (r : RecordDecl) : List String :=
  r.id :: r.fields.flatMap fun f => f.id :: f.type.segments

/-- The path in a representation is cut into the segments that were written. -/
theorem FieldType.Represents.splitPath_eq {type : FieldType} {written : Option TypeExpr}
    {path : String} (h : type.Represents written) (hpath : type.path? = some path)
    (hids : ∀ {ids}, written.bind TypeExpr.path? = some ids →
      ids ≠ [] ∧ ∀ s ∈ ids, IsIdentifier s) :
    ∃ ids, written.bind TypeExpr.path? = some ids ∧
      Program.splitPath path.toList = ids.map String.toList := by
  rw [h.path] at hpath
  obtain ⟨ids, hwritten, houter⟩ := Option.bind_eq_some_iff.mp hpath
  obtain ⟨hne, hident⟩ := hids hwritten
  have hjoin : path = "::".intercalate ids := by
    unfold TypeExpr.outer? at houter
    split at houter
    · exact (Option.some.inj houter).symm
    · simp at houter
  refine ⟨ids, hwritten, ?_⟩
  rw [hjoin]
  exact Program.splitPath_intercalate hne fun s hs => (hident s hs).colon_notMem

theorem RecordDecl.Represents.identifiers {r : RecordDecl} {d : Directive} (h : r.Represents d)
    (hd : d.Named) {name : String} (hname : name ∈ r.names) : IsIdentifier name := by
  simp only [names, List.mem_cons, List.mem_flatMap] at hname
  obtain rfl | ⟨g, hg, hname⟩ := hname
  · exact h.id ▸ hd.id
  · obtain ⟨f, hf, hrep⟩ := exists_of_forall₂ h.fields hg
    obtain rfl | hsegment := hname
    · exact hrep.id ▸ hd.field f hf
    · obtain ⟨path, hpath, hcut⟩ := List.mem_flatMap.mp hsegment
      obtain ⟨ids, hids, hsplit⟩ := hrep.type.splitPath_eq (Option.mem_toList.mp hpath) (hd.path hf)
      rw [hsplit] at hcut
      have hmem : name ∈ ids := by simpa using hcut
      exact (hd.path hf hids).2 name hmem

/-- Every name of a compiled record is an identifier. -/
theorem compile_identifiers {config : Config} {units : List CompilationUnit} {p : Progress}
    (h : compile config units = .ok p) {r : RecordDecl} (hr : r ∈ p.compilation.records)
    {name : String} (hname : name ∈ r.names) : IsIdentifier name := by
  obtain ⟨d, hd, hrep⟩ := exists_of_forall₂ (compile_analyses h).represents hr
  exact hrep.identifiers (named_of_mem_declared hd) hname

end WireRecords
