import WireRecords.Proofs.Codec.Termination

/-!
# Reading without end

A chain of calls that returns to its record before a byte is taken goes around forever, provided
that the fields it passes do not fail. They take no byte, so they can only fail where a slice asks
for more bytes in advance than there are, and that is excluded by a long input. So for the records
of a run, reading always ends exactly if there is no such chain.
-/
namespace WireRecords

/-- Slices whose elements have a reader of their own. -/
def FieldType.isRecords : FieldType → Bool
  | .slice element => element.target?.isSome
  | _ => false

/-- Where no integer stands before a field, its width is fixed. -/
theorem FieldMeta.Consistent.fixed_of_first {before : List FieldDecl} {info : FieldMeta}
    {type : FieldType} (h : info.Consistent before type)
    (hfirst : ∀ g ∈ before, ∀ s, g.type ≠ .scalar s) :
    type.Plain (fun _ => True) ∨
      (∃ value length, type = .constant value ∧ info.width = some (.literal length)) ∨
      ∃ element count, type = .slice element ∧ info.width = some (.literal count) ∧
        element.IsElement := by
  have hrefs : ∀ {w : Width}, w.refs ≠ [] → ¬ Analysis.RefersTo before w := by
    intro w hne hrefers
    obtain ⟨id, hid⟩ := List.exists_mem_of_ne_nil _ hne
    obtain ⟨g, hg, _, s, hs⟩ := hrefers id hid
    exact hfirst g hg s hs
  cases h with
  | scalar s => exact Or.inl (.scalar s)
  | bytes length => exact Or.inl (.bytes length)
  | byteRun ne refs => exact absurd refs (hrefs ne)
  | fixedSlice he count => exact Or.inr (Or.inr ⟨_, _, rfl, rfl, he⟩)
  | slice he ne refs => exact absurd refs (hrefs ne)
  | constant value length => exact Or.inr (Or.inl ⟨_, _, rfl, rfl⟩)
  | fixed ht width => exact Or.inl (FieldType.plain_of_target? ht)
  | selfDelimited ht => exact Or.inl (FieldType.plain_of_target? ht)

theorem RecordedField.ne_scalar {nested : String → Bool} {fields : List RecordedField}
    (h : ∀ f ∈ fields, f.takes nested = false) :
    ∀ d ∈ fields.map (·.decl), ∀ s, d.type ≠ .scalar s := by
  intro d hd s ht
  obtain ⟨f, hf, rfl⟩ := List.mem_map.mp hd
  have htakes := h f hf
  simp [takes, ht, FieldType.takes] at htakes

theorem FieldType.takes_mono {nested nested' : String → Bool} {type : FieldType}
    (hn : ∀ {path}, type.target? = some path → nested path = true → nested' path = true)
    (h : type.takes nested = true) : type.takes nested' = true := by
  cases type with
  | scalar s => rfl
  | bytes length => exact h
  | _ =>
    simp only [takes, Option.any_eq_true] at h ⊢
    obtain ⟨path, hpath, htrue⟩ := h
    exact ⟨path, hpath, hn hpath htrue⟩

theorem RecordedField.takes_mono {nested nested' : String → Bool} {f : RecordedField}
    (hn : ∀ {path}, f.decl.type.nested? = some path → nested path = true → nested' path = true)
    (h : f.takes nested = true) : f.takes nested' = true := by
  unfold takes at h ⊢
  split at h
  · exact h
  · rename_i element htype
    rw [Bool.and_eq_true] at h ⊢
    refine ⟨h.1, FieldType.takes_mono (fun hpath => hn ?_) h.2⟩
    rw [htype]
    exact hpath
  · exact FieldType.takes_mono (fun hpath => hn (FieldType.nested?_of_target? hpath)) h

namespace Codec

/-! ### Records that take no byte -/

section Saturation

variable {r : Registry}

theorem takesTo_record {path : String} {e : RecordEntry} (hf : r.find? path = some e)
    (depth : Nat) : takesTo r (depth + 1) path = e.fields.any (·.takes (takesTo r depth)) := by
  rw [takesTo, hf]

theorem takesTo_none {path : String} (hf : r.find? path = none) (depth : Nat) :
    takesTo r (depth + 1) path = decide (path = Varint.path) := by
  rw [takesTo, hf]

theorem takesTo_succ {depth : Nat} {path : String} (h : takesTo r depth path = true) :
    takesTo r (depth + 1) path = true := by
  induction depth generalizing path with
  | zero => simp [takesTo] at h
  | succ depth ih =>
    cases hf : r.find? path with
    | none =>
      rw [takesTo_none hf] at h ⊢
      exact h
    | some e =>
      rw [takesTo_record hf, List.any_eq_true] at h ⊢
      obtain ⟨f, hmem, htakes⟩ := h
      exact ⟨f, hmem, RecordedField.takes_mono (fun _ => ih) htakes⟩

theorem takesTo_mono {m n : Nat} {path : String} (hmn : m ≤ n) (h : takesTo r m path = true) :
    takesTo r n path = true := by
  induction hmn with
  | refl => exact h
  | step _ ih => exact takesTo_succ ih

/-- More levels than there are records show nothing new. -/
theorem takesTo_bound (hr : Closed r) {depth : Nat} {path : String} (hpath : path ∈ names r)
    (h : takesTo r depth path = true) : takesTo r (r.entries.length + 1) path = true := by
  have hpause : ∀ {n}, (∀ a ∈ names r, takesTo r (n + 1) a = true → takesTo r n a = true) →
      ∀ a ∈ names r, takesTo r (n + 2) a = true → takesTo r (n + 1) a = true := by
    intro n hstop a _ ha
    cases hf : r.find? a with
    | none =>
      rw [takesTo_none hf] at ha ⊢
      exact ha
    | some e =>
      rw [takesTo_record hf, List.any_eq_true] at ha ⊢
      obtain ⟨f, hmem, htakes⟩ := ha
      refine ⟨f, hmem, RecordedField.takes_mono (fun hnested => ?_) htakes⟩
      exact hstop _ (hr.known hf hmem hnested)
  exact takesTo_mono (names_card r)
    (@stage_card _ (takesTo r · · = true) _ takesTo_succ hpause _ _ hpath h)

/-- A record that takes no byte has no field that does. -/
theorem takes_eq_false (hr : Closed r) {path : String} {e : RecordEntry}
    (hf : r.find? path = some e) (h : takesTo r (r.entries.length + 1) path = false) :
    ∀ f ∈ e.fields, f.takes (takesTo r (r.entries.length + 1)) = false := by
  intro f hmem
  by_contra htakes
  have hmore : takesTo r (r.entries.length + 2) path = true := by
    rw [takesTo_record hf, List.any_eq_true]
    exact ⟨f, hmem, by simpa using htakes⟩
  rw [takesTo_bound hr (mem_names hf) hmore] at h
  cases h

end Saturation

/-- No result, or one that leaves all bytes. -/
def Stays {α : Type} (bs : List UInt8) (q : Option (Reading α)) : Prop :=
  q = none ∨ ∃ v, q = some ⟨v, bs, none⟩

theorem Stays.map {α β : Type} {bs : List UInt8} {q : Option (Reading α)} (h : Stays bs q)
    (f : α → β) : Stays bs (q.map fun p => ⟨f p.value, p.rest, p.error⟩) := by
  rcases h with rfl | ⟨v, rfl⟩
  · exact Or.inl rfl
  · exact Or.inr ⟨f v, rfl⟩

section Staying

variable {r : Registry} {N : Reader} {nested : String → Bool} {bs : List UInt8}

theorem take_zero (name : FieldName) (bs : List UInt8) : take name 0 bs = .ok ([], bs) := by
  simp [take_of_le (Nat.zero_le _)]

theorem checkSlice_of_long (hlong : wordCount ≤ bs.length) (name : FieldName)
    (element : FieldType) (count : Nat) : checkSlice r name element count bs = none := by
  have hsmall : ∀ width, saturatingMul count width < wordCount := by
    intro width
    have hpos : 0 < wordCount := by decide
    have hmin := Nat.min_le_right (count * width) (wordCount - 1)
    simp only [saturatingMul]
    omega
  unfold checkSlice
  split
  · rename_i width _
    have hlt := hsmall width
    rw [if_neg (by omega)]
  · rfl

theorem readElements_stays {E : List UInt8 → Option (Reading Value)} (h : Stays bs (E bs))
    (count : Nat) : Stays bs (readElements E count bs) := by
  induction count with
  | zero => exact Or.inr ⟨[], rfl⟩
  | succ count ih =>
    rcases h with hnone | ⟨v, hsome⟩
    · exact Or.inl (by simp [readElements, hnone])
    · simp only [readElements, hsome]
      exact ih.map _

theorem readPlain_stays {name : FieldName} {endian : Endian} {v : Value} {type : FieldType}
    (hp : type.Plain fun _ => True) (ht : type.takes nested = false)
    (hN : ∀ {path}, type.target? = some path → nested path = false → Stays bs (N path v bs)) :
    Stays bs (readPlain N name endian v bs type) := by
  cases hp with
  | scalar s => simp [FieldType.takes] at ht
  | bytes length =>
    obtain rfl : length = 0 := by simpa [FieldType.takes] using ht
    exact Or.inr ⟨.bytes [], by simp [readPlain, take_zero]⟩
  | nested _ => exact hN rfl (by simpa [FieldType.takes, FieldType.target?] using ht)
  | boxed _ => exact hN rfl (by simpa [FieldType.takes, FieldType.target?] using ht)

theorem readField_stays {record : String} {fs : Fields} {f : RecordedField}
    {before : List FieldDecl} (hlong : wordCount ≤ bs.length)
    (hf : f.info.Consistent before f.decl.type) (hfirst : ∀ g ∈ before, ∀ s, g.type ≠ .scalar s)
    (ht : f.takes nested = false)
    (hN : ∀ {path v}, f.decl.type.nested? = some path → nested path = false →
      Stays bs (N path v bs)) :
    Stays bs (readField r N record fs f bs) := by
  obtain hp | ⟨value, length, htype, hw⟩ | ⟨element, count, htype, hw, he⟩ :=
    hf.fixed_of_first hfirst
  · rw [readField_plain r N record fs bs hp]
    rw [RecordedField.takes_of_plain hp] at ht
    exact (readPlain_stays hp ht fun hpath => hN (FieldType.nested?_of_target? hpath)).map _
  · obtain rfl : length = 0 := by
      simpa [RecordedField.takes, htype, RecordedField.count?, hw, Width.fold] using ht
    rw [readField_constant r N record fs bs htype hw]
    exact Or.inr ⟨fs, by simp [take_zero, padded]⟩
  · rw [readField_slice r N record fs bs htype hw]
    simp only [Fields.measure, Width.eval, checkSlice_of_long hlong]
    refine Stays.map ?_ fun items => fs.set f.decl.id (.list items)
    cases count with
    | zero => exact Or.inr ⟨[], rfl⟩
    | succ count =>
      have htakes : element.takes nested = false := by
        simpa [RecordedField.takes, htype, RecordedField.count?, hw, Width.fold] using ht
      refine readElements_stays (readPlain_stays he.plain htakes fun hpath => hN ?_) _
      rw [htype]
      exact hpath

theorem readField_eq_none {N : Reader} {record : String} {fs : Fields} {f : RecordedField}
    {before : List FieldDecl} {inner : String} (hlong : wordCount ≤ bs.length)
    (hf : f.info.Consistent before f.decl.type)
    (hfirst : ∀ g ∈ before, ∀ s, g.type ≠ .scalar s) (hcallee : f.callee? = some inner)
    (hN : ∀ v, N inner v bs = none) : readField r N record fs f bs = none := by
  have hplain : ∀ {name endian v type}, FieldType.target? type = some inner →
      readPlain N name endian v bs type = none := by
    intro name endian v type htarget
    rcases FieldType.target?_eq_some htarget with rfl | rfl <;> exact hN v
  obtain hp | ⟨value, length, htype, hw⟩ | ⟨element, count, htype, hw, he⟩ :=
    hf.fixed_of_first hfirst
  · rw [RecordedField.callee?_of_plain hp] at hcallee
    rw [readField_plain r N record fs bs hp, hplain hcallee]
    rfl
  · simp [RecordedField.callee?, htype, FieldType.target?] at hcallee
  · simp only [RecordedField.callee?, htype, RecordedField.count?, hw, Option.bind_some,
      Width.fold] at hcallee
    cases count with
    | zero => simp at hcallee
    | succ count =>
      have htarget : element.target? = some inner := by simpa using hcallee
      rw [readField_slice r N record fs bs htype hw]
      simp [Fields.measure, Width.eval, checkSlice_of_long hlong, readElements, hplain htarget]

/-- Fields that take no byte are passed, or there is no end. -/
theorem readFields_skip {record : String} {fs : Fields} {e : RecordEntry}
    {done pre rest : List RecordedField} (hlong : wordCount ≤ bs.length) (he : e.WellFormed)
    (hsplit : e.fields = done ++ (pre ++ rest)) (ht : ∀ g ∈ done ++ pre, g.takes nested = false)
    (hN : ∀ {f path v}, f ∈ e.fields → f.decl.type.nested? = some path → nested path = false →
      Stays bs (N path v bs)) :
    readFields r N record fs (pre ++ rest) bs = none ∨
      ∃ gs, readFields r N record fs (pre ++ rest) bs = readFields r N record gs rest bs := by
  induction pre generalizing done fs with
  | nil => exact Or.inr ⟨fs, rfl⟩
  | cons f pre ih =>
    have hfirst := RecordedField.ne_scalar fun g hg => ht g (List.mem_append_left _ hg)
    have hstays : Stays bs (readField r N record fs f bs) :=
      readField_stays hlong (he.consistent hsplit) hfirst (ht f (by simp))
        (hN (by simp [hsplit]))
    simp only [List.cons_append, readFields]
    rcases hstays with hnone | ⟨gs, hsome⟩
    · exact Or.inl (by simp [hnone])
    · have hnext : e.fields = (done ++ [f]) ++ (pre ++ rest) := by simp [hsplit]
      simp only [hsome]
      exact ih hnext (by simpa using ht)

end Staying

theorem mem_leads {r : Registry} {fields : List RecordedField} {inner : String}
    (h : inner ∈ leads r fields) : ∃ before f after, fields = before ++ f :: after ∧
      f.callee? = some inner ∧
      ∀ g ∈ before, g.takes (takesTo r (r.entries.length + 1)) = false := by
  induction fields with
  | nil => simp [leads] at h
  | cons g fields ih =>
    simp only [leads, List.mem_append, Option.mem_toList] at h
    rcases h with hg | hrest
    · exact ⟨[], g, fields, rfl, hg, by simp⟩
    · split at hrest
      · simp at hrest
      · rename_i htakes
        obtain ⟨before, f, after, rfl, hcallee, hbefore⟩ := ih hrest
        refine ⟨g :: before, f, after, rfl, hcallee, fun x hx => ?_⟩
        rcases List.mem_cons.mp hx with rfl | hx
        · simpa using htakes
        · exact hbefore x hx

section Cycle

variable {r : Registry} (hr : Closed r) {bs : List UInt8} (hlong : wordCount ≤ bs.length)

include hr hlong

theorem readTo_stays {n : Nat} {path : String} {v : Value} (hpath : path ∈ names r)
    (ht : takesTo r (r.entries.length + 1) path = false) : Stays bs (readTo r n path v bs) := by
  induction n generalizing path v with
  | zero => exact Or.inl rfl
  | succ n ih =>
    cases hf : r.find? path with
    | none =>
      obtain rfl := eq_varint_of_mem_names hpath hf
      simp [takesTo, hf] at ht
    | some e =>
      have hfields := takes_eq_false hr hf ht
      have hsplit : e.fields = [] ++ (e.fields ++ []) := by simp
      have hskip : readFields r (readTo r n) e.id v.asFields (e.fields ++ []) bs = none ∨ _ :=
        readFields_skip hlong (hr.wellFormed hf) hsplit hfields
          fun hmem hnested => ih (hr.known hf hmem hnested)
      rw [List.append_nil] at hskip
      rw [readTo_record hf]
      exact Stays.map hskip Value.record

/-- A reader that calls one without end before it takes a byte is without end. -/
theorem readTo_eq_none_of_leads {n : Nat} {outer inner : String} (hlead : Leads r outer inner)
    (hinner : ∀ v, readTo r n inner v bs = none) (v : Value) :
    readTo r (n + 1) outer v bs = none := by
  obtain ⟨e, hf, hmem⟩ := hlead
  obtain ⟨before, f, after, hsplit, hcallee, hbefore⟩ := mem_leads hmem
  have hfirst := RecordedField.ne_scalar hbefore
  have hnone : ∀ fs, readField r (readTo r n) e.id fs f bs = none := fun fs =>
    readField_eq_none hlong ((hr.wellFormed hf).consistent hsplit) hfirst hcallee hinner
  have hdone : e.fields = [] ++ (before ++ f :: after) := hsplit
  have hskip : readFields r (readTo r n) e.id v.asFields (before ++ f :: after) bs = none ∨ _ :=
    readFields_skip hlong (hr.wellFormed hf) hdone hbefore
      fun hmem hnested => readTo_stays hr hlong (hr.known hf hmem hnested)
  rw [readTo_record hf, hsplit]
  rcases hskip with hend | ⟨gs, hskip⟩
  · rw [hend]
    rfl
  · simp [hskip, readFields, hnone]

theorem readTo_eq_none_of_cycle {id : String} (hcycle : Relation.TransGen (Leads r) id id)
    (n : Nat) (v : Value) : readTo r n id v bs = none := by
  have hround : ∀ {path}, Relation.TransGen (Leads r) path id →
      ∀ v, readTo r n path v bs = none := by
    induction n with
    | zero => exact fun _ _ => rfl
    | succ n ih =>
      intro path hpath v
      obtain ⟨next, hlead, hrest⟩ := Relation.TransGen.head'_iff.mp hpath
      have hnext : Relation.TransGen (Leads r) next id := by
        rcases Relation.reflTransGen_iff_eq_or_transGen.mp hrest with rfl | hrest
        · exact hcycle
        · exact hrest
      exact readTo_eq_none_of_leads hr hlong hlead (ih hnext) v
  exact hround hcycle v

end Cycle

/-! ### Runs -/

/-- Everything that a record of a run holds is a record of the run or a variable-length integer. -/
def Readable (records : List RecordDecl) : Prop :=
  ∀ decl ∈ records, ∀ f ∈ decl.fields, ∀ path ∈ f.type.nested?,
    path ∈ records.map (·.id) ∨ path = Varint.path

instance (records : List RecordDecl) : Decidable (Readable records) :=
  inferInstanceAs (Decidable (∀ _ ∈ records, _))

/-- The length of every slice of records is computed. -/
def SlicesComputed (r : Registry) : Prop :=
  ∀ e ∈ r.entries, ∀ f ∈ e.fields, f.decl.type.isRecords = true → f.info.kind = .dynamic

instance (r : Registry) : Decidable (SlicesComputed r) :=
  inferInstanceAs (Decidable (∀ _ ∈ r.entries, _))

/-- A slice of computed length is not read before the integer that its length is computed from. -/
theorem target?_of_mem_leads {r : Registry} {e : RecordEntry} {inner : String} (he : e.WellFormed)
    (hslices : ∀ f ∈ e.fields, f.decl.type.isRecords = true → f.info.kind = .dynamic)
    (h : inner ∈ leads r e.fields) :
    ∃ f ∈ e.fields, f.decl.type.target? = some inner := by
  obtain ⟨before, f, after, hsplit, hcallee, hbefore⟩ := mem_leads h
  have hmem : f ∈ e.fields := by simp [hsplit]
  refine ⟨f, hmem, ?_⟩
  have hconsistent := he.consistent hsplit
  unfold RecordedField.callee? at hcallee
  split at hcallee
  · rename_i element htype
    have htarget : element.target? = some inner := by
      split at hcallee
      · simp at hcallee
      · exact hcallee
    have hkind := hslices f hmem (by simp [htype, FieldType.isRecords, htarget])
    obtain ⟨g, hg, s, hs⟩ : ∃ g ∈ before, ∃ s, g.decl.type = .scalar s := by
      rw [htype] at hconsistent
      generalize f.info = info at hkind hconsistent
      cases hconsistent with
      | fixedSlice _ _ => simp at hkind
      | slice _ ne refs =>
        obtain ⟨id, hid⟩ := List.exists_mem_of_ne_nil _ ne
        obtain ⟨d, hd, _, s, hs⟩ := refs id hid
        obtain ⟨g, hg, rfl⟩ := List.mem_map.mp hd
        exact ⟨g, hg, s, hs⟩
      | fixed ht _ => simp [FieldType.target?] at ht
      | selfDelimited ht => simp [FieldType.target?] at ht
    have hfalse := hbefore g hg
    simp [RecordedField.takes, hs, FieldType.takes] at hfalse
  · exact hcallee

section Run

variable {config : Config} {units : List CompilationUnit} {p : Progress}
  (h : compile config units = .ok p)

include h

theorem mem_names_of_mem {path : String} (hpath : path ∈ p.compilation.records.map (·.id)) :
    path ∈ names p.compilation.registry := by
  have hcontains := (compile_analyses h).contains_of_mem (Or.inl hpath)
  obtain ⟨e, he⟩ := Registry.contains_iff.mp hcontains
  exact mem_names he

theorem compile_closed (hread : Readable p.compilation.records) :
    Closed p.compilation.registry := by
  refine ⟨compile_wellFormed h, fun he hf hpath => ?_⟩
  obtain ⟨decl, hdecl, _, hfields⟩ := compile_mem_of_find? h he
  rcases hread decl hdecl _ (hfields ▸ List.mem_map_of_mem hf) _ hpath with hmem | rfl
  · exact mem_names_of_mem h hmem
  · exact Finset.mem_insert_self _ _

theorem contains_of_leads (hslices : SlicesComputed p.compilation.registry)
    {outer inner : String} (hlead : Leads p.compilation.registry outer inner)
    (hinner : ∃ e, p.compilation.registry.find? inner = some e) :
    Contains p.compilation.records outer inner := by
  obtain ⟨e, he, hmem⟩ := hlead
  obtain ⟨f, hf, ht⟩ := target?_of_mem_leads (compile_wellFormed h he)
    (hslices e (Registry.mem_entries_of_find? he)) hmem
  obtain ⟨decl, hdecl, hid, hfields⟩ := compile_mem_of_find? h he
  obtain ⟨e', he'⟩ := hinner
  obtain ⟨decl', hdecl', hid', _⟩ := compile_mem_of_find? h he'
  exact ⟨⟨decl, hdecl, hid, f.decl, hfields ▸ List.mem_map_of_mem hf, ht⟩,
    hid' ▸ List.mem_map_of_mem hdecl'⟩

theorem acyclic_of_contains (hslices : SlicesComputed p.compilation.registry)
    (hcontains : ∀ id, ¬ Relation.TransGen (Contains p.compilation.records) id id) (id : String) :
    ¬ Relation.TransGen (Leads p.compilation.registry) id id := by
  intro hcycle
  have hpath : ∀ {other}, Relation.TransGen (Leads p.compilation.registry) id other →
      (∃ e, p.compilation.registry.find? other = some e) →
      Relation.TransGen (Contains p.compilation.records) id other := by
    intro other hpath
    induction hpath with
    | single hlead => exact fun he => .single (contains_of_leads h hslices hlead he)
    | tail _ hlead ih =>
      intro he
      obtain ⟨e, hmid, hmem⟩ := hlead
      exact .tail (ih ⟨e, hmid⟩) (contains_of_leads h hslices ⟨e, hmid, hmem⟩ he)
  obtain ⟨_, ⟨e, he, _⟩, _⟩ := Relation.TransGen.head'_iff.mp hcycle
  exact hcontains id (hpath hcycle ⟨e, he⟩)

end Run

/-- Trees whose nodes have two children each. -/
def fixedTrees : List CompilationUnit := [.inline "trees" ["Twig value[1] kids[2, []Twig]"]]

theorem fixedTrees_run : ∃ p ∈ (compile {} fixedTrees).toOption,
    Readable p.compilation.records ∧ "Twig" ∈ p.compilation.records.map (·.id) ∧
    ∀ e ∈ p.compilation.registry.entries, leads p.compilation.registry e.fields = [] := by
  decide +kernel

/-- Trees whose nodes say how many children they have. -/
def computedTrees : List CompilationUnit :=
  [.inline "trees" ["Leaf size[1] data[size]",
    "Tree leaf[, *Leaf] serial[, wire9_runtime::Varint] count[1] kids[count, []Tree]"]]

theorem computedTrees_run : ∃ p ∈ (compile {} computedTrees).toOption,
    Readable p.compilation.records ∧ "Tree" ∈ p.compilation.records.map (·.id) ∧
    SlicesComputed p.compilation.registry ∧
    ∀ decl ∈ p.compilation.records, ∀ f ∈ decl.fields, ∀ inner ∈ f.type.target?,
      inner ∈ p.compilation.records.map (·.id) → decl.id = "Tree" ∧ inner = "Leaf" := by
  decide +kernel

/-- A record that starts with a number of records like itself is never read to an end. -/
theorem readTo_eq_none {r : Registry} {path : String} {e : RecordEntry} {f : RecordedField}
    {fields : List RecordedField} {count : Nat} (he : r.find? path = some e)
    (hfields : e.fields = f :: fields) (ht : f.decl.type = .slice (.nested path))
    (hw : f.info.width = some (.literal (count + 1))) (hwidth : r.width? path = none) (n : Nat)
    (v : Value) (bs : List UInt8) : readTo r n path v bs = none := by
  induction n generalizing v bs with
  | zero => rfl
  | succ n ih =>
    have hcheck : checkSlice r ⟨e.id, f.decl.id⟩ (.nested path) (count + 1) bs = none := by
      simp [checkSlice, Registry.elementWidth?, hwidth]
    have hfirst : readField r (readTo r n) e.id v.asFields f bs = none := by
      rw [readField_slice r (readTo r n) e.id v.asFields bs ht hw]
      simp [Fields.measure, Width.eval, hcheck, readElements, readPlain, ih]
    rw [readTo_record he, hfields]
    simp [readFields, hfirst]

/-- A record that consists of two records like itself. -/
def selfSlices : List CompilationUnit := [.inline "test" ["A xs[2,[]A]"]]

theorem selfSlices_run : ∃ p ∈ (compile {} selfSlices).toOption,
    Readable p.compilation.records ∧ "A" ∈ p.compilation.records.map (·.id) ∧
    (∀ decl ∈ p.compilation.records, ∀ f ∈ decl.fields, f.type.target? = none) ∧
    p.compilation.registry.width? "A" = none ∧
    ∃ e ∈ p.compilation.registry.find? "A", e.fields.map (fun f => (f.decl.type, f.info.width)) =
      [(.slice (.nested "A"), some (.literal 2))] := by
  decide +kernel

end Codec

end WireRecords
