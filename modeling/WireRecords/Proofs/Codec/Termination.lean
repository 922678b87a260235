import WireRecords.Proofs.Containment

/-!
# Reading comes to an end

Reading a record calls the readers of what its fields hold. A call is made either behind a byte that
was taken or is one of those that `leads` lists. So reading ends where no chain of listed calls
returns to its record. Such a chain can pass through containment and through slices of fixed length,
but not through a slice of computed length: that stands behind the integer its length is computed
from.
-/
namespace WireRecords

/-- What a field holds as a whole or as its elements, where that has a reader of its own. -/
def FieldType.nested? : FieldType → Option String
  | .slice element => element.target?
  | type => type.target?

/-- Whether reading takes a byte or fails, where `nested` says so of records. -/
def FieldType.takes (nested : String → Bool) : FieldType → Bool
  | .scalar _ => true
  | .bytes length => 0 < length
  | type => type.target?.any nested

namespace RecordedField

/-- The number of bytes or elements that a directive fixes. -/
def count? (f : RecordedField) : Option Nat := f.info.width.bind Width.fold

/-- Whose reader is called for a field. A slice that is always empty calls none. -/
def callee? (f : RecordedField) : Option String :=
  match f.decl.type with
  | .slice element => if f.count? = some 0 then none else element.target?
  | type => type.target?

/-- Whether reading a field takes a byte or fails. -/
def takes (nested : String → Bool) (f : RecordedField) : Bool :=
  match f.decl.type with
  | .constant _ => f.count?.any (0 < ·)
  | .slice element => f.count?.any (0 < ·) && element.takes nested
  | type => type.takes nested

end RecordedField

theorem Scalar.width_pos (s : Scalar) : 0 < s.width := by
  cases s <;> decide

theorem FieldType.nested?_of_target? {type : FieldType} {path : String}
    (h : type.target? = some path) : type.nested? = some path := by
  rcases FieldType.target?_eq_some h with rfl | rfl <;> rfl

theorem RecordedField.takes_of_plain {P : String → Prop} {f : RecordedField}
    (hp : f.decl.type.Plain P) (nested : String → Bool) :
    f.takes nested = f.decl.type.takes nested := by
  unfold takes
  split
  · rename_i htype
    rw [htype] at hp
    cases hp
  · rename_i htype
    exact absurd htype (hp.ne_slice _)
  · rfl

theorem RecordedField.callee?_of_plain {P : String → Prop} {f : RecordedField}
    (hp : f.decl.type.Plain P) : f.callee? = f.decl.type.target? := by
  unfold callee?
  split
  · rename_i htype
    exact absurd htype (hp.ne_slice _)
  · rfl

namespace Codec

/-- Whether reading a record takes a byte or fails, seen from `depth` levels of it. -/
def takesTo (r : Registry) : Nat → String → Bool
  | 0, _ => false
  | depth + 1, path =>
    match r.find? path with
    | some e => e.fields.any (·.takes (takesTo r depth))
    | none => path = Varint.path

/-- Whose readers can be called before a byte is taken. -/
def leads (r : Registry) : List RecordedField → List String
  | [] => []
  | f :: fs =>
    f.callee?.toList ++ if f.takes (takesTo r (r.entries.length + 1)) then [] else leads r fs

/-- Reading one record can call the reader of another before it takes a byte. -/
def Leads (r : Registry) (outer inner : String) : Prop :=
  ∃ e, r.find? outer = some e ∧ inner ∈ leads r e.fields

/-! ### Taking bytes -/

/-- The records of which `nested` says so take a byte when they are read to their end. -/
def Shortens (nested : String → Bool) (N : Reader) : Prop :=
  ∀ ⦃path v bs w rest⦄, nested path = true → N path v bs = some ⟨w, rest, none⟩ →
    rest.length < bs.length

section Taking

variable {r : Registry} {N : Reader} {nested : String → Bool} {bs rest : List UInt8}

theorem readElements_shortens {E : List UInt8 → Option (Reading Value)} {count : Nat}
    {vs : List Value} (hE : ∀ {bs q}, E bs = some q → q.rest <:+ bs)
    (hshort : ∀ {bs w rest}, E bs = some ⟨w, rest, none⟩ → rest.length < bs.length)
    (hcount : 0 < count) (h : readElements E count bs = some ⟨vs, rest, none⟩) :
    rest.length < bs.length := by
  obtain ⟨count, rfl⟩ : ∃ k, count = k + 1 := ⟨count - 1, by omega⟩
  obtain ⟨v, mid, vs', hfirst, hafter, _⟩ := readElements_succ_ok.mp h
  exact (readElements_suffix hE hafter).length_le.trans_lt (hshort hfirst)

variable (hN : Shortens nested N)

include hN

theorem readPlain_shortens {name : FieldName} {endian : Endian} {v w : Value} {type : FieldType}
    (ht : type.takes nested = true)
    (h : readPlain N name endian v bs type = some ⟨w, rest, none⟩) : rest.length < bs.length := by
  cases type with
  | scalar s =>
    obtain ⟨word, hword, rfl, _⟩ := readPlain_scalar_ok.mp h
    have hpos := s.width_pos
    simp only [List.length_append]
    omega
  | bytes length =>
    obtain ⟨data, hdata, rfl, _⟩ := readPlain_bytes_ok.mp h
    have hpos : 0 < length := by simpa [FieldType.takes] using ht
    simp only [List.length_append]
    omega
  | nested path => exact hN (by simpa [FieldType.takes, FieldType.target?] using ht) h
  | boxed target =>
    cases target with
    | nested path => exact hN (by simpa [FieldType.takes, FieldType.target?] using ht) h
    | _ => simp [readPlain] at h
  | _ => simp [readPlain] at h

theorem readField_shortens {record : String} {fs gs : Fields} {f : RecordedField}
    {before : List FieldDecl} (hconsumes : Consumes N) (hf : f.info.Consistent before f.decl.type)
    (ht : f.takes nested = true) (h : readField r N record fs f bs = some ⟨gs, rest, none⟩) :
    rest.length < bs.length := by
  obtain hp | ⟨value, length, htype, hw⟩ | ⟨w, htype, hw⟩ | ⟨element, w, htype, hw, he⟩ := hf.cases
  · rw [RecordedField.takes_of_plain hp] at ht
    obtain ⟨v, hread, _⟩ := (readField_plain_ok hp).mp h
    exact readPlain_shortens hN ht hread
  · have hpos : 0 < length := by
      simpa [RecordedField.takes, htype, RecordedField.count?, hw, Width.fold] using ht
    obtain ⟨rfl, _⟩ := (readField_constant_ok htype hw).mp h
    simp only [List.length_append, padded_length]
    omega
  · simp [RecordedField.takes, htype, FieldType.takes, FieldType.target?] at ht
  · simp only [RecordedField.takes, htype, RecordedField.count?, hw, Option.bind_some,
      Bool.and_eq_true] at ht
    obtain ⟨hcount, helement⟩ := ht
    obtain ⟨count, hfold, hpos⟩ : ∃ count, w.fold = some count ∧ 0 < count := by
      cases hfold : w.fold with
      | none => simp [hfold] at hcount
      | some count => exact ⟨count, rfl, by simpa [hfold] using hcount⟩
    obtain ⟨count', items, hm, _, hread, _⟩ := (readField_slice_ok htype hw).mp h
    rw [Fields.measure, Width.eval_of_fold hfold] at hm
    obtain rfl := Except.ok.inj hm
    exact readElements_shortens (fun hE => readPlain_suffix hconsumes hE)
      (fun hE => readPlain_shortens hN helement hE) hpos hread

theorem readFields_shortens {record : String} {fs gs : Fields} {fields : List RecordedField}
    (hconsumes : Consumes N)
    (hfields : ∀ f ∈ fields, ∃ before, f.info.Consistent before f.decl.type)
    (ht : fields.any (·.takes nested) = true)
    (h : readFields r N record fs fields bs = some ⟨gs, rest, none⟩) : rest.length < bs.length := by
  induction fields generalizing fs bs with
  | nil => simp at ht
  | cons f fields ih =>
    obtain ⟨next, mid, hfirst, hafter⟩ := readFields_cons_ok.mp h
    have hrest : rest.length ≤ mid.length := (readFields_suffix hconsumes hafter).length_le
    have hmid : mid.length ≤ bs.length := (readField_suffix hconsumes hfirst).length_le
    simp only [List.any_cons, Bool.or_eq_true] at ht
    rcases ht with hf | htail
    · obtain ⟨before, hconsistent⟩ := hfields f (by simp)
      exact hrest.trans_lt (readField_shortens hN hconsumes hconsistent hf hfirst)
    · exact (ih (fun g hg => hfields g (by simp [hg])) htail hafter).trans_le hmid

omit hN in
theorem takesTo_shortens
    (hr : ∀ {id e f}, r.find? id = some e → f ∈ e.fields →
      ∃ before, f.info.Consistent before f.decl.type) (depth n : Nat) :
    Shortens (takesTo r depth) (readTo r n) := by
  induction depth generalizing n with
  | zero => intro path v bs w rest ht; simp [takesTo] at ht
  | succ depth ih =>
    intro path v bs w rest ht h
    cases n with
    | zero => simp [readTo] at h
    | succ n =>
      rcases name_of_readTo h with ⟨e, hf⟩ | ⟨hf, rfl⟩
      · obtain ⟨gs, _, hread⟩ := (readTo_record_ok hf).mp h
        simp only [takesTo, hf] at ht
        exact readFields_shortens (ih n) (readTo_consumes r n) (fun f => hr hf) ht hread
      · rw [readTo_varint hf] at h
        split at h
        · rename_i value hok
          simp only [Option.some.injEq, Reading.mk.injEq] at h
          rw [← h.2.1]
          exact Varint.readGroups_length_lt hok
        · simp at h

end Taking

/-! ### Ending alike -/

/-- Both have a result, and it is the same. -/
def Meet {α : Type} (a b : Option α) : Prop := ∃ q, a = some q ∧ b = some q

theorem Meet.map {α β : Type} {a b : Option α} (h : Meet a b) (f : α → β) :
    Meet (a.map f) (b.map f) := by
  obtain ⟨q, rfl, rfl⟩ := h
  exact ⟨f q, rfl, rfl⟩

theorem Meet.of_isSome {α : Type} {a : Option α} (h : a.isSome) : Meet a a := by
  obtain ⟨q, hq⟩ := Option.isSome_iff_exists.mp h
  exact ⟨q, hq, hq⟩

section Meeting

variable {r : Registry} {N M : Reader} {bs : List UInt8}

theorem readPlain_meet {name : FieldName} {endian : Endian} {v : Value} {type : FieldType}
    (hp : type.Plain fun _ => True)
    (h : ∀ {path}, type.target? = some path → Meet (N path v bs) (M path v bs)) :
    Meet (readPlain N name endian v bs type) (readPlain M name endian v bs type) := by
  cases hp with
  | scalar s =>
    apply Meet.of_isSome
    simp only [readPlain]
    split <;> rfl
  | bytes length =>
    apply Meet.of_isSome
    simp only [readPlain]
    split <;> rfl
  | nested _ => exact h rfl
  | boxed _ => exact h rfl

theorem readElements_meet {E F : List UInt8 → Option (Reading Value)} {count : Nat}
    (hE : ∀ {bs q}, E bs = some q → q.rest <:+ bs)
    (h : ∀ {bs'}, bs' <:+ bs → Meet (E bs') (F bs')) :
    Meet (readElements E count bs) (readElements F count bs) := by
  induction count generalizing bs with
  | zero => exact ⟨_, rfl, rfl⟩
  | succ count ih =>
    obtain ⟨⟨v, rest, error⟩, hfirst, hfirst'⟩ := h (List.suffix_refl bs)
    simp only [readElements, hfirst, hfirst']
    cases error with
    | some e => exact ⟨_, rfl, rfl⟩
    | none => exact (ih fun hbs => h (hbs.trans (hE hfirst))).map _

theorem readField_meet {record : String} {fs : Fields} {f : RecordedField}
    {before : List FieldDecl} (hconsumes : Consumes N) (hf : f.info.Consistent before f.decl.type)
    (h : ∀ {path v bs'}, f.callee? = some path → bs' <:+ bs →
      Meet (N path v bs') (M path v bs')) :
    Meet (readField r N record fs f bs) (readField r M record fs f bs) := by
  obtain hp | ⟨value, length, htype, hw⟩ | ⟨w, htype, hw⟩ | ⟨element, w, htype, hw, he⟩ := hf.cases
  · rw [readField_plain r N record fs bs hp, readField_plain r M record fs bs hp]
    refine (readPlain_meet hp fun {path} htarget => h ?_ (List.suffix_refl bs)).map _
    rw [RecordedField.callee?_of_plain hp]
    exact htarget
  · rw [readField_constant r N record fs bs htype hw, readField_constant r M record fs bs htype hw]
    apply Meet.of_isSome
    split
    · split <;> rfl
    · rfl
  · rw [readField_byteRun r N record fs bs htype hw, readField_byteRun r M record fs bs htype hw]
    apply Meet.of_isSome
    split
    · rfl
    · split <;> rfl
  · rw [readField_slice r N record fs bs htype hw, readField_slice r M record fs bs htype hw]
    cases hmeasure : fs.measure w with
    | error fault => exact ⟨_, rfl, rfl⟩
    | ok count =>
      dsimp only
      cases hcheck : checkSlice r ⟨record, f.decl.id⟩ element count bs with
      | some e => exact ⟨_, rfl, rfl⟩
      | none =>
        apply Meet.map
        by_cases hzero : f.count? = some 0
        · -- Nothing is read, so it does not matter whose reader would be called.
          have hfold : w.fold = some 0 := by simpa [RecordedField.count?, hw] using hzero
          rw [Fields.measure, Width.eval_of_fold hfold, Except.ok.injEq] at hmeasure
          rw [← hmeasure]
          exact ⟨_, rfl, rfl⟩
        · refine readElements_meet (fun hE => readPlain_suffix hconsumes hE) fun hbs => ?_
          refine readPlain_meet he.plain fun {path} htarget => h ?_ hbs
          simp [RecordedField.callee?, htype, hzero, htarget]

theorem readFields_meet {record : String} {fs : Fields}
    {fields : List RecordedField} (hconsumes : Consumes N)
    (hshort : Shortens (takesTo r (r.entries.length + 1)) N)
    (hfields : ∀ f ∈ fields, ∃ before, f.info.Consistent before f.decl.type)
    (h : ∀ {path v bs'}, (∃ f ∈ fields, f.callee? = some path) → bs' <:+ bs →
      path ∈ leads r fields ∨ bs'.length < bs.length → Meet (N path v bs') (M path v bs')) :
    Meet (readFields r N record fs fields bs) (readFields r M record fs fields bs) := by
  induction fields generalizing fs bs with
  | nil => exact ⟨_, rfl, rfl⟩
  | cons f fields ih =>
    obtain ⟨before, hconsistent⟩ := hfields f (by simp)
    have hfirst : Meet (readField r N record fs f bs) (readField r M record fs f bs) :=
      readField_meet hconsumes hconsistent fun hcallee hbs =>
        h ⟨f, by simp, hcallee⟩ hbs (Or.inl (by simp [leads, hcallee]))
    obtain ⟨⟨gs, mid, error⟩, hread, hread'⟩ := hfirst
    simp only [readFields, hread, hread']
    cases error with
    | some e => exact ⟨_, rfl, rfl⟩
    | none =>
      have hmid : mid <:+ bs := readField_suffix hconsumes hread
      refine ih (fun g hg => hfields g (by simp [hg])) fun {path v bs'} hpath hbs hlead => ?_
      obtain ⟨g, hg, hcallee⟩ := hpath
      refine h ⟨g, by simp [hg], hcallee⟩ (hbs.trans hmid) ?_
      have hle := hmid.length_le
      have hle' := hbs.length_le
      by_cases htakes : f.takes (takesTo r (r.entries.length + 1)) = true
      · have hlt := readField_shortens hshort hconsumes hconsistent htakes hread
        exact Or.inr (by omega)
      · rcases hlead with hlead | hlt
        · exact Or.inl (by simp [leads, htakes, hlead])
        · exact Or.inr (by omega)

end Meeting

/-! ### Calls that take no byte -/

section Height

variable {r : Registry} (hacyclic : ∀ id, ¬ Relation.TransGen (Leads r) id id)

open Classical in
/-- How many records can be reached before a byte is taken. -/
noncomputable def height (r : Registry) (path : String) : Nat :=
  ((names r).filter (Relation.TransGen (Leads r) path)).card

include hacyclic

theorem height_lt_of_leads {outer inner : String} (h : Leads r outer inner)
    (hinner : inner ∈ names r) : height r inner < height r outer := by
  classical
  apply Finset.card_lt_card
  refine ⟨fun path hpath => ?_, fun hsubset => ?_⟩
  · rw [Finset.mem_filter] at hpath ⊢
    exact ⟨hpath.1, .head h hpath.2⟩
  · have hmem : inner ∈ (names r).filter (Relation.TransGen (Leads r) outer) :=
      Finset.mem_filter.mpr ⟨hinner, .single h⟩
    exact hacyclic inner (Finset.mem_filter.mp (hsubset hmem)).2

theorem height_lt {path : String} (h : path ∈ names r) :
    height r path < r.entries.length + 1 := by
  classical
  refine lt_of_lt_of_le (Finset.card_lt_card ⟨Finset.filter_subset _ _, fun hsubset => ?_⟩)
    (names_card r)
  exact hacyclic path (Finset.mem_filter.mp (hsubset h)).2

end Height

theorem eq_varint_of_mem_names {r : Registry} {path : String} (h : path ∈ names r)
    (hf : r.find? path = none) : path = Varint.path := by
  rcases Finset.mem_insert.mp h with rfl | h
  · rfl
  · obtain ⟨e, he, rfl⟩ := List.mem_map.mp (List.mem_toFinset.mp h)
    have := List.find?_eq_none.mp hf e he
    simp at this

/-- Records are well formed, and what their fields hold can be read. -/
structure Closed (r : Registry) : Prop where
  wellFormed : ∀ {id e}, r.find? id = some e → e.WellFormed
  known : ∀ {id e f path}, r.find? id = some e → f ∈ e.fields →
    f.decl.type.nested? = some path → path ∈ names r

theorem Closed.consistent {r : Registry} (hr : Closed r) {id : String} {e : RecordEntry}
    {f : RecordedField} (he : r.find? id = some e) (hf : f ∈ e.fields) :
    ∃ before, f.info.Consistent before f.decl.type := by
  obtain ⟨before, after, hsplit⟩ := List.append_of_mem hf
  exact ⟨_, (hr.wellFormed he).consistent hsplit⟩

theorem nested?_of_callee? {f : RecordedField} {path : String} (h : f.callee? = some path) :
    f.decl.type.nested? = some path := by
  unfold RecordedField.callee? at h
  split at h
  · rename_i htype
    split at h
    · simp at h
    · rw [htype]
      exact h
  · exact FieldType.nested?_of_target? h

/-- Two numbers of levels that are both enough lead to the same end. Enough is one level for each
record that can be reached before a byte is taken, and as many again as there are records for each
byte. -/
theorem readTo_meet {r : Registry} (hr : Closed r)
    (hacyclic : ∀ id, ¬ Relation.TransGen (Leads r) id id) {m n : Nat} {path : String} {v : Value}
    {bs : List UInt8} (hpath : path ∈ names r)
    (hm : bs.length * (r.entries.length + 1) + height r path < m)
    (hn : bs.length * (r.entries.length + 1) + height r path < n) :
    Meet (readTo r m path v bs) (readTo r n path v bs) := by
  induction m generalizing n path v bs with
  | zero => omega
  | succ m ih =>
    obtain ⟨n, rfl⟩ : ∃ k, n = k + 1 := ⟨n - 1, by omega⟩
    cases hf : r.find? path with
    | none =>
      obtain rfl := eq_varint_of_mem_names hpath hf
      rw [readTo_varint hf, readTo_varint hf]
      apply Meet.of_isSome
      split <;> rfl
    | some e =>
      rw [readTo_record hf, readTo_record hf]
      apply Meet.map
      refine readFields_meet (readTo_consumes r m) (takesTo_shortens hr.consistent _ m)
        (fun f => hr.consistent hf) fun {inner v bs'} hcallee hbs hlead => ?_
      obtain ⟨f, hmem, hcallee⟩ := hcallee
      have hinner := hr.known hf hmem (nested?_of_callee? hcallee)
      -- Either fewer records can be reached, or there is a byte less.
      have hbound : bs'.length * (r.entries.length + 1) + height r inner <
          bs.length * (r.entries.length + 1) + height r path := by
        rcases hlead with hlead | hlt
        · have hheight := height_lt_of_leads hacyclic ⟨e, hf, hlead⟩ hinner
          have hmul := Nat.mul_le_mul_right (r.entries.length + 1) hbs.length_le
          omega
        · have hheight := height_lt hacyclic hinner
          have hmul := Nat.mul_le_mul_right (r.entries.length + 1) (Nat.succ_le_of_lt hlt)
          rw [Nat.succ_mul] at hmul
          omega
      exact ih hinner (by omega) (by omega)

/-- Reading ends, with one result for every number of levels from `readDepth` on. -/
def Ends (r : Registry) (path : String) (v : Value) (bytes : List UInt8) : Prop :=
  ∃ q, ∀ n, readDepth r bytes ≤ n → readTo r n path v bytes = some q

theorem ends_of_acyclic {r : Registry} (hr : Closed r)
    (hacyclic : ∀ id, ¬ Relation.TransGen (Leads r) id id) {path : String}
    (hpath : path ∈ names r) (v : Value) (bytes : List UInt8) : Ends r path v bytes := by
  have hheight := height_lt hacyclic hpath
  have henough : bytes.length * (r.entries.length + 1) + height r path < readDepth r bytes := by
    rw [readDepth, Nat.succ_mul]
    omega
  obtain ⟨q, hq, _⟩ := readTo_meet (v := v) hr hacyclic hpath henough henough
  refine ⟨q, fun n hn => ?_⟩
  obtain ⟨q', hq', hn'⟩ :=
    readTo_meet (v := v) hr hacyclic hpath henough (lt_of_lt_of_le henough hn)
  rw [hn', ← hq', hq]

end Codec

end WireRecords
