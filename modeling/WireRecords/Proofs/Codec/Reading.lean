import WireRecords.Codec.Read
import WireRecords.Proofs.Codec.Initial
import WireRecords.Proofs.Codec.Varint

/-!
# Reading does not depend on the receiver or on the bound

Two readers are compared on the same bytes: with other receivers, or with more levels allowed. Where
the first comes to an end, the second does, with the same error, the same bytes left and, without an
error, the same value. So the levels that `readDepth` allows are enough whenever any number is.
-/
namespace WireRecords.Codec

theorem take_of_le {name : FieldName} {count : Nat} {bs : List UInt8} (h : count ≤ bs.length) :
    take name count bs = .ok (bs.take count, bs.drop count) := by
  simp [take, Nat.not_lt.mpr h]

theorem take_of_lt {name : FieldName} {count : Nat} {bs : List UInt8} (h : bs.length < count) :
    take name count bs = .error (.shortRead name.record name.field bs.length count) := by
  simp [take, h]

/-- Reads a record over readers of what it holds: one level of `readTo`. -/
def readLevel (r : Registry) (N : Reader) : Reader := fun path receiver bytes =>
  match r.find? path with
  | some e =>
    (readFields r N e.id receiver.asFields e.fields bytes).map fun q =>
      ⟨.record q.value, q.rest, q.error⟩
  | none =>
    if path = Varint.path then
      match (Varint.read bytes).result with
      | .ok n => some ⟨.integer n, (Varint.read bytes).rest, none⟩
      | .error e => some ⟨receiver, (Varint.read bytes).rest, some e⟩
    else none

theorem readTo_succ (r : Registry) (n : Nat) : readTo r (n + 1) = readLevel r (readTo r n) := rfl

section Level

variable {r : Registry} {path : String} {v : Value} {bs : List UInt8} {q : Reading Value}

theorem readLevel_record {e : RecordEntry} (hf : r.find? path = some e) (N : Reader) (v : Value)
    (bs : List UInt8) :
    readLevel r N path v bs = (readFields r N e.id v.asFields e.fields bs).map
      fun q => ⟨.record q.value, q.rest, q.error⟩ := by
  simp [readLevel, hf]

theorem readLevel_varint (hf : r.find? Varint.path = none) (N : Reader) (v : Value)
    (bs : List UInt8) :
    readLevel r N Varint.path v bs =
      match (Varint.read bs).result with
      | .ok n => some ⟨.integer n, (Varint.read bs).rest, none⟩
      | .error e => some ⟨v, (Varint.read bs).rest, some e⟩ := by
  cases hq : (Varint.read bs).result <;> simp [readLevel, hf, hq]

/-- Only records and variable-length integers can be read. -/
theorem name_of_readLevel {N : Reader} (h : readLevel r N path v bs = some q) :
    (∃ e, r.find? path = some e) ∨ r.find? path = none ∧ path = Varint.path := by
  cases hf : r.find? path with
  | some e => exact Or.inl ⟨e, rfl⟩
  | none =>
    by_cases hp : path = Varint.path
    · exact Or.inr ⟨rfl, hp⟩
    · simp [readLevel, hf, hp] at h

theorem readTo_record {e : RecordEntry} (hf : r.find? path = some e) (n : Nat) (v : Value)
    (bs : List UInt8) :
    readTo r (n + 1) path v bs = (readFields r (readTo r n) e.id v.asFields e.fields bs).map
      fun q => ⟨.record q.value, q.rest, q.error⟩ :=
  readLevel_record hf (readTo r n) v bs

theorem readTo_varint (hf : r.find? Varint.path = none) (n : Nat) (v : Value) (bs : List UInt8) :
    readTo r (n + 1) Varint.path v bs =
      match (Varint.read bs).result with
      | .ok n => some ⟨.integer n, (Varint.read bs).rest, none⟩
      | .error e => some ⟨v, (Varint.read bs).rest, some e⟩ :=
  readLevel_varint hf (readTo r n) v bs

theorem name_of_readTo {n : Nat} (h : readTo r n path v bs = some q) :
    (∃ e, r.find? path = some e) ∨ r.find? path = none ∧ path = Varint.path := by
  cases n with
  | zero => simp [readTo] at h
  | succ n => exact name_of_readLevel h

end Level

theorem Value.fits_boxed (r : Registry) (v : Value) (path : String) :
    v.fits r (.boxed (.nested path)) = v.fits r (.nested path) := by
  cases v <;> simp [fits, FieldType.target?]

theorem Value.fits_target {r : Registry} {v : Value} {type : FieldType} {path : String}
    (h : type.target? = some path) : v.fits r type = v.fits r (.nested path) := by
  rcases FieldType.target?_eq_some h with rfl | rfl
  · rfl
  · exact Value.fits_boxed r v path

section Consumption

/-- Whatever a reader does, it leaves an end of the bytes. -/
def Consumes (N : Reader) : Prop :=
  ∀ ⦃path v bs q⦄, N path v bs = some q → q.rest <:+ bs

variable {r : Registry} {N : Reader} (hN : Consumes N)

include hN

theorem readPlain_suffix {name : FieldName} {endian : Endian} {v : Value} {bs : List UInt8}
    {type : FieldType} {q : Reading Value} (h : readPlain N name endian v bs type = some q) :
    q.rest <:+ bs := by
  unfold readPlain at h
  split at h
  · rename_i s
    by_cases hlen : s.width ≤ bs.length
    · simp only [take_of_le hlen, Option.some.injEq] at h
      exact h ▸ List.drop_suffix _ _
    · simp only [take_of_lt (Nat.lt_of_not_le hlen), Option.some.injEq] at h
      exact h ▸ List.suffix_refl _
  · rename_i length
    by_cases hlen : length ≤ bs.length
    · simp only [take_of_le hlen, Option.some.injEq] at h
      exact h ▸ List.drop_suffix _ _
    · simp only [take_of_lt (Nat.lt_of_not_le hlen), Option.some.injEq] at h
      exact h ▸ List.suffix_refl _
  · exact hN h
  · exact hN h
  · simp at h

omit hN in
theorem readElements_suffix {E : List UInt8 → Option (Reading Value)}
    (hE : ∀ {bs q}, E bs = some q → q.rest <:+ bs) {count : Nat} {bs : List UInt8}
    {q : Reading (List Value)} (h : readElements E count bs = some q) : q.rest <:+ bs := by
  induction count generalizing bs q with
  | zero =>
    simp only [readElements, Option.some.injEq] at h
    exact h ▸ List.suffix_refl _
  | succ count ih =>
    simp only [readElements] at h
    split at h
    · simp at h
    · rename_i v rest e hfirst
      simp only [Option.some.injEq] at h
      exact h ▸ hE hfirst
    · rename_i v rest hfirst
      obtain ⟨p, hp, rfl⟩ := Option.map_eq_some_iff.mp h
      exact (ih hp).trans (hE hfirst)

theorem readField_suffix {record : String} {fs : Fields} {f : RecordedField} {bs : List UInt8}
    {q : Reading Fields} (h : readField r N record fs f bs = some q) : q.rest <:+ bs := by
  simp only [readField] at h
  split at h
  · -- constant
    split at h
    · simp at h
    · rename_i width _
      by_cases hlen : width ≤ bs.length
      · simp only [take_of_le hlen] at h
        split at h <;> obtain rfl := Option.some.inj h <;> exact List.drop_suffix _ _
      · simp only [take_of_lt (Nat.lt_of_not_le hlen), Option.some.injEq] at h
        exact h ▸ List.suffix_refl _
  · -- byte run
    split at h
    · simp at h
    · split at h
      · obtain rfl := Option.some.inj h
        exact List.suffix_refl _
      · rename_i length _
        by_cases hlen : length ≤ bs.length
        · simp only [take_of_le hlen, Option.some.injEq] at h
          exact h ▸ List.drop_suffix _ _
        · simp only [take_of_lt (Nat.lt_of_not_le hlen), Option.some.injEq] at h
          exact h ▸ List.suffix_refl _
  · -- slice
    split at h
    · simp at h
    · split at h
      · obtain rfl := Option.some.inj h
        exact List.suffix_refl _
      · split at h
        · obtain rfl := Option.some.inj h
          exact List.suffix_refl _
        · obtain ⟨p, hp, rfl⟩ := Option.map_eq_some_iff.mp h
          exact readElements_suffix (fun hE => readPlain_suffix hN hE) hp
  · obtain ⟨p, hp, rfl⟩ := Option.map_eq_some_iff.mp h
    exact readPlain_suffix hN hp

theorem readFields_suffix {record : String} {fs : Fields} {fields : List RecordedField}
    {bs : List UInt8} {q : Reading Fields} (h : readFields r N record fs fields bs = some q) :
    q.rest <:+ bs := by
  induction fields generalizing fs bs with
  | nil =>
    simp only [readFields, Option.some.injEq] at h
    exact h ▸ List.suffix_refl _
  | cons f fields ih =>
    simp only [readFields] at h
    split at h
    · rename_i fs' bs' hfirst
      exact (ih h).trans (readField_suffix hN hfirst)
    · exact readField_suffix hN h

theorem readLevel_consumes : Consumes (readLevel r N) := by
  intro path v bs q h
  rcases name_of_readLevel h with ⟨e, hf⟩ | ⟨hf, rfl⟩
  · rw [readLevel_record hf] at h
    obtain ⟨p, hp, rfl⟩ := Option.map_eq_some_iff.mp h
    exact readFields_suffix hN hp
  · rw [readLevel_varint hf] at h
    split at h <;> obtain rfl := Option.some.inj h <;> exact Varint.read_suffix bs

omit hN in
theorem readTo_consumes (r : Registry) (n : Nat) : Consumes (readTo r n) := by
  induction n with
  | zero => intro path v bs q h; simp [readTo] at h
  | succ n ih => exact readLevel_consumes ih

end Consumption

/-- A receiver of a record that still has to read the fields `after`. -/
structure Fields.Ready (r : Registry) (e : RecordEntry) (after : List RecordedField) (fs : Fields) :
    Prop where
  keys : fs.keys = e.stored.map (·.decl.id)
  value : ∀ f ∈ after, f.decl.type.isStored = true →
    (fs.get f.decl.id).fits r f.decl.type = true

/-- Two records hold the same in the fields `before`. -/
def Fields.Same (before : List RecordedField) (fs gs : Fields) : Prop :=
  ∀ f ∈ before, f.decl.type.isStored = true → fs.get f.decl.id = gs.get f.decl.id

namespace Fields

variable {r : Registry} {e : RecordEntry} {before after : List RecordedField} {f : RecordedField}
  {fs gs : Fields}

theorem Fit.ready (h : Fit r e fs) : Ready r e e.fields fs := ⟨h.keys, h.value⟩

theorem Ready.tail (h : Ready r e (f :: after) fs) : Ready r e after fs :=
  ⟨h.keys, fun g hg => h.value g (List.mem_cons_of_mem f hg)⟩

theorem Ready.set (h : Ready r e (f :: after) fs)
    (hne : ∀ g ∈ after, g.decl.id ≠ f.decl.id) (v : Value) :
    Ready r e after (fs.set f.decl.id v) := by
  refine ⟨by rw [keys_set, h.keys], fun g hg hs => ?_⟩
  rw [get_set_of_ne v (hne g hg)]
  exact h.tail.value g hg hs

theorem Ready.mem_keys (h : Ready r e after fs) (hf : f ∈ e.fields)
    (hs : f.decl.type.isStored = true) : f.decl.id ∈ fs.keys := by
  rw [h.keys]
  exact List.mem_map_of_mem (RecordEntry.mem_stored.mpr ⟨hf, hs⟩)

theorem Same.measure {w : Width} (h : Same before fs gs)
    (hw : Analysis.RefersTo (before.map (·.decl)) w) : fs.measure w = gs.measure w := by
  apply measure_congr
  intro id hid
  obtain ⟨d, hd, rfl, s, hscalar⟩ := hw id hid
  obtain ⟨f, hf, rfl⟩ := List.mem_map.mp hd
  exact h f hf (by rw [hscalar]; rfl)

theorem Same.set (h : Same before fs gs) (hf : f.decl.id ∈ fs.keys) (hg : f.decl.id ∈ gs.keys)
    (hne : ∀ g ∈ before, g.decl.id ≠ f.decl.id) (v : Value) :
    Same (before ++ [f]) (fs.set f.decl.id v) (gs.set f.decl.id v) := by
  intro g hmem hstored
  rcases List.mem_append.mp hmem with hb | hs
  · rw [get_set_of_ne v (hne g hb), get_set_of_ne v (hne g hb)]
    exact h g hb hstored
  · obtain rfl := List.mem_singleton.mp hs
    rw [get_set_self v hf, get_set_self v hg]

theorem Same.unstored (h : Same before fs gs) (hf : f.decl.type.isStored = false) :
    Same (before ++ [f]) fs gs := by
  intro g hmem hstored
  rcases List.mem_append.mp hmem with hb | hs
  · exact h g hb hstored
  · obtain rfl := List.mem_singleton.mp hs
    simp [hf] at hstored

end Fields

/-- Fields on either side of a field of a record have other names. -/
theorem ne_of_split {e : RecordEntry} {before after : List RecordedField} {f : RecordedField}
    (hn : (e.fields.map (·.decl.id)).Nodup) (hs : e.fields = before ++ f :: after) :
    (∀ g ∈ before, g.decl.id ≠ f.decl.id) ∧ ∀ g ∈ after, g.decl.id ≠ f.decl.id := by
  rw [hs, List.map_append, List.map_cons, List.nodup_append, List.nodup_cons] at hn
  obtain ⟨_, ⟨hafter, _⟩, hbefore⟩ := hn
  constructor
  · intro g hg
    exact hbefore _ (List.mem_map_of_mem hg) _ List.mem_cons_self
  · intro g hg heq
    exact hafter (heq ▸ List.mem_map_of_mem hg)

section Equations

variable {allowed : String → Prop} (r : Registry) (N : Reader) (record : String) (fs : Fields)
  {f : RecordedField} (bs : List UInt8)

theorem readField_constant {value : String} {length : Nat}
    (ht : f.decl.type = .constant value) (hw : f.info.width = some (.literal length)) :
    readField r N record fs f bs =
      match take ⟨record, f.decl.id⟩ length bs with
      | .ok (actual, rest) =>
        if actual = padded value length then some ⟨fs, rest, none⟩
        else some ⟨fs, rest,
          some (.contentMismatch record f.decl.id actual (padded value length))⟩
      | .error e => some ⟨fs, bs, some e⟩ := by
  have h := readField.eq_def r N record fs f bs
  simp only [ht, hw, Option.bind_some, Width.fold] at h
  rw [h]
  cases take ⟨record, f.decl.id⟩ length bs <;> rfl

theorem readField_byteRun {w : Width} (ht : f.decl.type = .byteRun)
    (hw : f.info.width = some w) :
    readField r N record fs f bs =
      match fs.measure w with
      | .error fault => some ⟨fs, bs, some (.fault (.ofPanic record (.arithmetic fault)))⟩
      | .ok length =>
        match take ⟨record, f.decl.id⟩ length bs with
        | .ok (data, rest) => some ⟨fs.set f.decl.id (.bytes data), rest, none⟩
        | .error e => some ⟨fs, bs, some e⟩ := by
  have h := readField.eq_def r N record fs f bs
  simp only [ht, hw] at h
  rw [h]
  cases fs.measure w with
  | error fault => rfl
  | ok length => cases ht : take ⟨record, f.decl.id⟩ length bs <;> simp [ht]

theorem readField_slice {element : FieldType} {w : Width} (ht : f.decl.type = .slice element)
    (hw : f.info.width = some w) :
    readField r N record fs f bs =
      match fs.measure w with
      | .error fault => some ⟨fs, bs, some (.fault (.ofPanic record (.arithmetic fault)))⟩
      | .ok count =>
        match checkSlice r ⟨record, f.decl.id⟩ element count bs with
        | some e => some ⟨fs, bs, some e⟩
        | none =>
          (readElements (fun bs => readPlain N ⟨record, f.decl.id⟩ f.info.endian
            (initialOf (initial r) element) bs element) count bs).map fun q =>
              ⟨fs.set f.decl.id (.list q.value), q.rest, q.error⟩ := by
  have h := readField.eq_def r N record fs f bs
  simp only [ht, hw] at h
  exact h

theorem readField_plain (hp : f.decl.type.Plain allowed) :
    readField r N record fs f bs =
      (readPlain N ⟨record, f.decl.id⟩ f.info.endian (fs.get f.decl.id) bs f.decl.type).map
        fun q => ⟨fs.set f.decl.id q.value, q.rest, q.error⟩ := by
  cases ht : f.decl.type <;> simp only [readField, ht] <;> rw [ht] at hp <;> cases hp

end Equations

/-- Two readings that differ at most in what a failed one left in the receiver. -/
structure Agrees {α : Type} (a b : Reading α) : Prop where
  rest : a.rest = b.rest
  error : a.error = b.error
  value : a.error = none → a.value = b.value

namespace Agrees

variable {α : Type} {a b c : Reading α}

theorem refl (a : Reading α) : Agrees a a := ⟨rfl, rfl, fun _ => rfl⟩

theorem symm (h : Agrees a b) : Agrees b a :=
  ⟨h.rest.symm, h.error.symm, fun hb => (h.value (h.error.trans hb)).symm⟩

theorem trans (h : Agrees a b) (h' : Agrees b c) : Agrees a c :=
  ⟨h.rest.trans h'.rest, h.error.trans h'.error,
    fun ha => (h.value ha).trans (h'.value (h.error.symm.trans ha))⟩

theorem eq_of_ok (h : Agrees a b) (hok : a.error = none) : b = a := by
  obtain ⟨v, rest, error⟩ := a
  obtain ⟨w, rest', error'⟩ := b
  obtain ⟨rfl, rfl, hvalue⟩ := h
  simpa using (hvalue hok).symm

end Agrees

/-- What `N` brings to an end on an end of `bytes`, `M` does too, whatever their receivers. Only
ends with a `good` error are looked at. -/
def Simulates (r : Registry) (good : Option DecodeError → Prop) (bytes : List UInt8)
    (N M : Reader) : Prop :=
  ∀ ⦃path a b bs q⦄, bs <:+ bytes → a.fits r (.nested path) = true →
    b.fits r (.nested path) = true → N path a bs = some q → good q.error →
      ∃ q', M path b bs = some q' ∧ Agrees q q'

/-- The same for elements of slices, whose receivers are initial values. -/
def SimulatesFresh (r : Registry) (good : Option DecodeError → Prop) (bytes : List UInt8)
    (N M : Reader) : Prop :=
  ∀ ⦃path bs q⦄, bs <:+ bytes → N path (initial r path) bs = some q → good q.error →
    ∃ q', M path (initial r path) bs = some q' ∧ Agrees q q'

section Simulation

variable {allowed : String → Prop} {r : Registry} {good : Option DecodeError → Prop}
  {bytes bs : List UInt8} {N M : Reader}

theorem readPlain_simulates {type : FieldType} {name : FieldName} {endian : Endian} {a b : Value}
    {q : Reading Value} (hp : type.Plain allowed)
    (hnested : ∀ {path q}, type.target? = some path → N path a bs = some q → good q.error →
      ∃ q', M path b bs = some q' ∧ Agrees q q')
    (h : readPlain N name endian a bs type = some q) (hgood : good q.error) :
    ∃ q', readPlain M name endian b bs type = some q' ∧ Agrees q q' := by
  cases hp with
  | scalar s =>
    by_cases hlen : s.width ≤ bs.length
    · simp only [readPlain, take_of_le hlen, Option.some.injEq] at h ⊢
      exact ⟨_, rfl, h ▸ .refl _⟩
    · simp only [readPlain, take_of_lt (Nat.lt_of_not_le hlen), Option.some.injEq] at h ⊢
      exact ⟨_, rfl, h ▸ ⟨rfl, rfl, by simp⟩⟩
  | bytes length =>
    by_cases hlen : length ≤ bs.length
    · simp only [readPlain, take_of_le hlen, Option.some.injEq] at h ⊢
      exact ⟨_, rfl, h ▸ .refl _⟩
    · simp only [readPlain, take_of_lt (Nat.lt_of_not_le hlen), Option.some.injEq] at h ⊢
      exact ⟨_, rfl, h ▸ ⟨rfl, rfl, by simp⟩⟩
  | nested _ => exact hnested rfl h hgood
  | boxed _ => exact hnested rfl h hgood

theorem readElements_simulates {E F : List UInt8 → Option (Reading Value)} {count : Nat}
    {q : Reading (List Value)} (hnone : good none) (hbs : bs <:+ bytes)
    (hE : ∀ {bs q}, E bs = some q → q.rest <:+ bs)
    (hsim : ∀ {bs q}, bs <:+ bytes → E bs = some q → good q.error →
      ∃ q', F bs = some q' ∧ Agrees q q')
    (h : readElements E count bs = some q) (hgood : good q.error) :
    ∃ q', readElements F count bs = some q' ∧ Agrees q q' := by
  induction count generalizing bs q with
  | zero =>
    simp only [readElements, Option.some.injEq] at h ⊢
    exact ⟨_, rfl, h ▸ .refl _⟩
  | succ count ih =>
    simp only [readElements] at h ⊢
    cases hfirst : E bs with
    | none => simp [hfirst] at h
    | some a =>
      obtain ⟨v, rest, error⟩ := a
      simp only [hfirst] at h
      cases error with
      | some e =>
        simp only [Option.some.injEq] at h
        subst h
        obtain ⟨⟨w, rest', error'⟩, hF, hagree⟩ := hsim hbs hfirst hgood
        obtain ⟨rfl, rfl, _⟩ := hagree
        simp only [hF]
        exact ⟨_, rfl, rfl, rfl, by simp⟩
      | none =>
        obtain ⟨p, hp, rfl⟩ := Option.map_eq_some_iff.mp h
        obtain ⟨⟨w, rest', error'⟩, hF, hagree⟩ := hsim hbs hfirst hnone
        obtain ⟨rfl, rfl, hvalue⟩ := hagree
        obtain ⟨p', hp', hrest⟩ := ih ((hE hfirst).trans hbs) hp hgood
        simp only [hF, hp', Option.map_some]
        refine ⟨_, rfl, hrest.rest, hrest.error, fun he => ?_⟩
        exact congrArg₂ List.cons (hvalue rfl) (hrest.value he)

/-- What two readings of the field between `before` and `after` have in common: their receivers stay
ready for the other fields, and hold the same in one more. -/
structure FieldAgrees (r : Registry) (e : RecordEntry) (before after : List RecordedField)
    (f : RecordedField) (a b : Reading Fields) : Prop where
  rest : a.rest = b.rest
  error : a.error = b.error
  value : a.error = none → a.value.Ready r e after ∧ b.value.Ready r e after ∧
    Fields.Same (before ++ [f]) a.value b.value

variable (hnone : good none) (hN : Consumes N) (hsim : Simulates r good bytes N M)
  (hfresh : SimulatesFresh r good bytes N M)

include hnone hN hsim hfresh

theorem readField_simulates {e : RecordEntry} {before after : List RecordedField}
    {f : RecordedField} {record : String} {fs gs : Fields} {q : Reading Fields}
    (he : e.Determined) (hs : e.fields = before ++ f :: after) (hbs : bs <:+ bytes)
    (hfs : fs.Ready r e (f :: after)) (hgs : gs.Ready r e (f :: after))
    (hsame : Fields.Same before fs gs) (h : readField r N record fs f bs = some q)
    (hgood : good q.error) :
    ∃ q', readField r M record gs f bs = some q' ∧ FieldAgrees r e before after f q q' := by
  obtain ⟨hbefore, hafter⟩ := ne_of_split he.nodup hs
  have hmem : f ∈ e.fields := by simp [hs]
  -- Storing the same value on both sides.
  have hset : f.decl.type.isStored = true → ∀ v,
      (fs.set f.decl.id v).Ready r e after ∧ (gs.set f.decl.id v).Ready r e after ∧
        Fields.Same (before ++ [f]) (fs.set f.decl.id v) (gs.set f.decl.id v) :=
    fun hstored v => ⟨hfs.set hafter v, hgs.set hafter v,
      hsame.set (hfs.mem_keys hmem hstored) (hgs.mem_keys hmem hstored) hbefore v⟩
  have hfield := he.field hs
  generalize ht : f.decl.type = type at hfield
  cases hfield with
  | plain hp =>
    rw [← ht] at hp
    have hstored := hp.isStored
    rw [readField_plain r N record fs bs hp] at h
    rw [readField_plain r M record gs bs hp]
    obtain ⟨p, hread, rfl⟩ := Option.map_eq_some_iff.mp h
    have ha := hfs.value f List.mem_cons_self hstored
    have hb := hgs.value f List.mem_cons_self hstored
    have hnested : ∀ {path q}, f.decl.type.target? = some path →
        N path (fs.get f.decl.id) bs = some q → good q.error →
          ∃ q', M path (gs.get f.decl.id) bs = some q' ∧ Agrees q q' := by
      intro path q hpath hq hg
      rw [Value.fits_target hpath] at ha hb
      exact hsim hbs ha hb hq hg
    obtain ⟨p', hread', hagree⟩ := readPlain_simulates hp hnested hread hgood
    rw [hread', Option.map_some]
    refine ⟨_, rfl, hagree.rest, hagree.error, fun hok => ?_⟩
    have hvalue := hagree.value hok
    dsimp only
    rw [← hvalue]
    exact hset hstored p.value
  | constant hw =>
    rename_i value length
    rw [readField_constant r N record fs bs ht hw] at h
    rw [readField_constant r M record gs bs ht hw]
    have hsame' : Fields.Same (before ++ [f]) fs gs := hsame.unstored (by rw [ht]; rfl)
    by_cases hlen : length ≤ bs.length
    · simp only [take_of_le hlen] at h ⊢
      by_cases hc : bs.take length = padded value length
      · simp only [if_pos hc, Option.some.injEq] at h ⊢
        exact ⟨_, rfl, h ▸ ⟨rfl, rfl, fun _ => ⟨hfs.tail, hgs.tail, hsame'⟩⟩⟩
      · simp only [if_neg hc, Option.some.injEq] at h ⊢
        exact ⟨_, rfl, h ▸ ⟨rfl, rfl, by simp⟩⟩
    · simp only [take_of_lt (Nat.lt_of_not_le hlen), Option.some.injEq] at h ⊢
      exact ⟨_, rfl, h ▸ ⟨rfl, rfl, by simp⟩⟩
  | byteRun hw refs =>
    rw [readField_byteRun r N record fs bs ht hw] at h
    rw [readField_byteRun r M record gs bs ht hw, ← hsame.measure refs]
    split at h
    · exact ⟨_, rfl, Option.some.inj h ▸ ⟨rfl, rfl, by simp⟩⟩
    · rename_i length _
      by_cases hlen : length ≤ bs.length
      · simp only [take_of_le hlen, Option.some.injEq] at h ⊢
        refine ⟨_, rfl, h ▸ ⟨rfl, rfl, fun _ => hset (by rw [ht]; rfl) _⟩⟩
      · simp only [take_of_lt (Nat.lt_of_not_le hlen), Option.some.injEq] at h ⊢
        exact ⟨_, rfl, h ▸ ⟨rfl, rfl, by simp⟩⟩
  | slice hw hp refs =>
    rename_i element w
    rw [readField_slice r N record fs bs ht hw] at h
    rw [readField_slice r M record gs bs ht hw, ← hsame.measure refs]
    split at h
    · exact ⟨_, rfl, Option.some.inj h ▸ ⟨rfl, rfl, by simp⟩⟩
    · split at h
      · exact ⟨_, rfl, Option.some.inj h ▸ ⟨rfl, rfl, by simp⟩⟩
      · obtain ⟨p, hread, rfl⟩ := Option.map_eq_some_iff.mp h
        have hone : ∀ {bs q}, bs <:+ bytes →
            readPlain N ⟨record, f.decl.id⟩ f.info.endian (initialOf (initial r) element) bs
              element = some q → good q.error →
            ∃ q', readPlain M ⟨record, f.decl.id⟩ f.info.endian (initialOf (initial r) element) bs
              element = some q' ∧ Agrees q q' := by
          intro bs q hbs hq hg
          refine readPlain_simulates hp (fun {path q} hpath hq hg => ?_) hq hg
          rcases FieldType.target?_eq_some hpath with rfl | rfl <;> exact hfresh hbs hq hg
        obtain ⟨p', hread', hagree⟩ := readElements_simulates hnone hbs
          (fun hE => readPlain_suffix hN hE) hone hread hgood
        rw [hread', Option.map_some]
        refine ⟨_, rfl, hagree.rest, hagree.error, fun hok => ?_⟩
        have hvalue := hagree.value hok
        dsimp only
        rw [← hvalue]
        exact hset (by rw [ht]; rfl) _

theorem readFields_simulates {e : RecordEntry} {before after : List RecordedField}
    {record : String} {fs gs : Fields} {q : Reading Fields} (he : e.Determined)
    (hs : e.fields = before ++ after) (hbs : bs <:+ bytes) (hfs : fs.Ready r e after)
    (hgs : gs.Ready r e after) (hsame : Fields.Same before fs gs)
    (h : readFields r N record fs after bs = some q) (hgood : good q.error) :
    ∃ q', readFields r M record gs after bs = some q' ∧ Agrees q q' := by
  induction after generalizing before fs gs bs with
  | nil =>
    simp only [readFields, Option.some.injEq] at h ⊢
    refine ⟨_, rfl, h ▸ ⟨rfl, rfl, fun _ => ?_⟩⟩
    apply Fields.ext_get (hfs.keys.trans hgs.keys.symm)
    · exact hfs.keys ▸ RecordEntry.stored_nodup he.nodup
    · intro id hid
      rw [hfs.keys] at hid
      obtain ⟨f, hf, rfl⟩ := List.mem_map.mp hid
      obtain ⟨hmem, hstored⟩ := RecordEntry.mem_stored.mp hf
      exact hsame f (by simpa [hs] using hmem) hstored
  | cons f after ih =>
    simp only [readFields] at h ⊢
    cases hfirst : readField r N record fs f bs with
    | none => simp [hfirst] at h
    | some p =>
      obtain ⟨fs', bs', error⟩ := p
      simp only [hfirst] at h
      cases error with
      | some error =>
        simp only [Option.some.injEq] at h
        subst h
        obtain ⟨⟨gs', bs'', error'⟩, hread, hrest, herror, _⟩ :=
          readField_simulates hnone hN hsim hfresh he hs hbs hfs hgs hsame hfirst hgood
        dsimp only at hrest herror
        subst hrest herror
        simp only [hread]
        exact ⟨_, rfl, rfl, rfl, by simp⟩
      | none =>
        obtain ⟨⟨gs', bs'', error'⟩, hread, hrest, herror, hvalue⟩ :=
          readField_simulates hnone hN hsim hfresh he hs hbs hfs hgs hsame hfirst hnone
        dsimp only at hrest herror
        subst hrest herror
        obtain ⟨hfs', hgs', hsame'⟩ := hvalue rfl
        simp only [hread]
        exact ih (by simp [hs]) ((readField_suffix hN hfirst).trans hbs) hfs' hgs' hsame' h

end Simulation

section Bound

/-- A record that is read to its end has read all its fields. -/
theorem readField_of_readFields {r : Registry} {N : Reader} {record : String} {fs gs : Fields}
    {fields : List RecordedField} {bs rest : List UInt8}
    (h : readFields r N record fs fields bs = some ⟨gs, rest, none⟩) :
    ∀ f ∈ fields, ∃ fs bs gs rest, readField r N record fs f bs = some ⟨gs, rest, none⟩ := by
  induction fields generalizing fs bs with
  | nil => simp
  | cons f fields ih =>
    simp only [readFields] at h
    split at h
    · rename_i fs' bs' hfirst
      intro g hg
      rcases List.mem_cons.mp hg with rfl | hg
      · exact ⟨fs, bs, fs', bs', hfirst⟩
      · exact ih h g hg
    · rename_i hfailed
      exact absurd h (hfailed gs rest)

/-- What can be read to its end contains no record without end. -/
theorem grounded_of_readTo {r : Registry} {n : Nat} {path : String} {v w : Value}
    {bs rest : List UInt8} (h : readTo r n path v bs = some ⟨w, rest, none⟩) :
    Grounded r n path := by
  induction n generalizing path v w bs rest with
  | zero => simp [readTo] at h
  | succ n ih =>
    rcases name_of_readTo h with ⟨e, hf⟩ | ⟨hf, rfl⟩
    · rw [readTo_record hf] at h
      obtain ⟨⟨gs, rest', error⟩, hread, heq⟩ := Option.map_eq_some_iff.mp h
      simp only [Reading.mk.injEq] at heq
      obtain ⟨_, rfl, rfl⟩ := heq
      rw [Grounded.record hf]
      intro f hmem p hp
      obtain ⟨fs, bs, gs, rest, hfield⟩ := readField_of_readFields hread f hmem
      have hplain : f.decl.type.Plain fun _ => True := by
        rcases FieldType.target?_eq_some hp with ht | ht <;> rw [ht]
        · exact .nested trivial
        · exact .boxed trivial
      rw [readField_plain _ _ _ _ _ hplain] at hfield
      obtain ⟨⟨u, rest', error⟩, hnested, heq⟩ := Option.map_eq_some_iff.mp hfield
      simp only [Reading.mk.injEq] at heq
      obtain ⟨_, rfl, rfl⟩ := heq
      rcases FieldType.target?_eq_some hp with ht | ht <;> rw [ht] at hnested
      · exact ih hnested
      · exact ih hnested
    · exact (Grounded.varint hf).mpr rfl

variable {r : Registry} (hr : r.Determined)

include hr

theorem asFields_ready {v : Value} {path : String} {e : RecordEntry} (hf : r.find? path = some e)
    (hv : v.fits r (.nested path) = true) : v.asFields.Ready r e e.fields := by
  obtain ⟨fs, rfl, hfit⟩ := (Value.fits_record rfl hf (hr hf).nodup).mp hv
  exact hfit.ready

/-- One more level does what the readers of the level below do. -/
theorem readLevel_simulates {good : Option DecodeError → Prop} {bytes : List UInt8} {N M : Reader}
    (hnone : good none) (hN : Consumes N) (hsim : Simulates r good bytes N M)
    (hfresh : SimulatesFresh r good bytes N M) :
    Simulates r good bytes (readLevel r N) (readLevel r M) := by
  intro path a b bs q hbs ha hb h hgood
  rcases name_of_readLevel h with ⟨e, hf⟩ | ⟨hf, rfl⟩
  · rw [readLevel_record hf] at h
    obtain ⟨p, hp, rfl⟩ := Option.map_eq_some_iff.mp h
    have hsame : Fields.Same [] a.asFields b.asFields := by simp [Fields.Same]
    obtain ⟨p', hp', hagree⟩ := readFields_simulates hnone hN hsim hfresh
      (hr hf) rfl hbs (asFields_ready hr hf ha) (asFields_ready hr hf hb) hsame hp hgood
    rw [readLevel_record hf, hp', Option.map_some]
    exact ⟨_, rfl, hagree.rest, hagree.error, fun hok => congrArg Value.record (hagree.value hok)⟩
  · rw [readLevel_varint hf] at h ⊢
    split at h
    · exact ⟨_, rfl, Option.some.inj h ▸ .refl _⟩
    · exact ⟨_, rfl, Option.some.inj h ▸ ⟨rfl, rfl, by simp⟩⟩

/-- An element that can be read to its end starts from a value of its type. -/
theorem Simulates.fresh {bytes : List UInt8} {m n : Nat}
    (h : Simulates r (· = none) bytes (readTo r m) (readTo r n)) :
    SimulatesFresh r (· = none) bytes (readTo r m) (readTo r n) := by
  rintro path bs ⟨v, rest, error⟩ hbs hread rfl
  have hfits := initial_fits hr (grounded_of_readTo hread)
  exact h hbs hfits hfits hread rfl

/-- Neither more levels nor another receiver change what is read to its end. -/
theorem readTo_simulates {m n : Nat} (hmn : m ≤ n) (bytes : List UInt8) :
    Simulates r (· = none) bytes (readTo r m) (readTo r n) := by
  induction m generalizing n with
  | zero =>
    intro path a b bs q _ _ _ h
    simp [readTo] at h
  | succ m ih =>
    obtain ⟨n, rfl⟩ : ∃ k, n = k + 1 := ⟨n - 1, by omega⟩
    have hsim := ih (n := n) (by omega)
    exact readLevel_simulates hr rfl (readTo_consumes r m) hsim (hsim.fresh hr)

/-- The names and the ends of `bytes` that a reader can meet. -/
def places (r : Registry) (bytes : List UInt8) : Finset (String × List UInt8) :=
  names r ×ˢ bytes.tails.toFinset

omit hr in
theorem places_card (r : Registry) (bytes : List UInt8) :
    (places r bytes).card ≤ readDepth r bytes := by
  have htails : bytes.tails.toFinset.card ≤ bytes.length + 1 :=
    (List.toFinset_card_le _).trans (List.length_tails _).le
  rw [places, Finset.card_product, readDepth, Nat.mul_comm]
  exact Nat.mul_le_mul htails (names_card r)

omit hr in
theorem mem_names_of_readTo {n : Nat} {path : String} {v : Value} {bs : List UInt8}
    {q : Reading Value} (h : readTo r n path v bs = some q) : path ∈ names r := by
  rcases name_of_readTo h with ⟨e, hf⟩ | ⟨_, rfl⟩
  · exact mem_names hf
  · exact Finset.mem_insert_self _ _

/-- Readers for every number of levels, each of which does what those with fewer levels do. -/
structure Levels (r : Registry) (good : Option DecodeError → Prop) (L : Nat → Reader) : Prop where
  name : ∀ {n path v bs q}, L n path v bs = some q → path ∈ names r
  up : ∀ {m n}, m ≤ n → ∀ bytes, Simulates r good bytes (L m) (L n)
  step : ∀ {m n bytes}, Simulates r good bytes (L m) (L n) →
    Simulates r good bytes (L (m + 1)) (L (n + 1))

omit hr in
/-- What comes to an end with some number of levels does with those that `readDepth` allows: on a
longer chain of nested records the same record would have to be read twice from the same bytes. -/
theorem Levels.bound {good : Option DecodeError → Prop} {L : Nat → Reader} (hL : Levels r good L)
    {n : Nat} {path : String} {a b : Value} {bs : List UInt8} {q : Reading Value}
    (ha : a.fits r (.nested path) = true) (hb : b.fits r (.nested path) = true)
    (h : L n path a bs = some q) (hgood : good q.error) :
    ∃ q', L (readDepth r bs) path b bs = some q' ∧ Agrees q q' := by
  let stage (n : Nat) (x : String × List UInt8) : Prop :=
    ∃ a q, a.fits r (.nested x.1) = true ∧ L n x.1 a x.2 = some q ∧ good q.error
  have hmono : ∀ {n x}, stage n x → stage (n + 1) x := by
    rintro n x ⟨a, q, ha, h, hgood⟩
    obtain ⟨q', hq', hagree⟩ := hL.up (Nat.le_succ n) x.2 (List.suffix_refl _) ha ha h hgood
    exact ⟨a, q', ha, hq', hagree.error ▸ hgood⟩
  have hpause : ∀ {n}, (∀ x ∈ places r bs, stage (n + 1) x → stage n x) →
      ∀ x ∈ places r bs, stage (n + 2) x → stage (n + 1) x := by
    rintro n hstop ⟨p, cs⟩ hx ⟨a, q, ha, h, hgood⟩
    have hcs : cs <:+ bs :=
      (List.mem_tails _ _).mp (List.mem_toFinset.mp (Finset.mem_product.mp hx).2)
    have hsim : Simulates r good cs (L (n + 1)) (L n) := by
      intro path a b ds q hds ha hb h hgood
      have hplace : (path, ds) ∈ places r bs := Finset.mem_product.mpr
        ⟨hL.name h, List.mem_toFinset.mpr ((List.mem_tails _ _).mpr (hds.trans hcs))⟩
      obtain ⟨c, q₀, hc, hlower, hgood₀⟩ := hstop (path, ds) hplace ⟨a, q, ha, h, hgood⟩
      -- One more level gives what is known, and the other receiver makes no difference.
      obtain ⟨q₁, hq₁, hup⟩ := hL.up (Nat.le_succ n) ds (List.suffix_refl _) hc ha hlower hgood₀
      obtain ⟨q₂, hq₂, hsame⟩ := hL.up le_rfl ds (List.suffix_refl _) hc hb hlower hgood₀
      rw [h] at hq₁
      obtain rfl := Option.some.inj hq₁
      exact ⟨q₂, hq₂, hup.symm.trans hsame⟩
    obtain ⟨q', hq', hagree⟩ := hL.step hsim (List.suffix_refl cs) ha ha h hgood
    exact ⟨a, q', ha, hq', hagree.error ▸ hgood⟩
  have hplace : (path, bs) ∈ places r bs := Finset.mem_product.mpr
    ⟨hL.name h, List.mem_toFinset.mpr ((List.mem_tails _ _).mpr (List.suffix_refl bs))⟩
  obtain ⟨c, q₀, hc, hbound, hgood₀⟩ := stage_card hmono hpause hplace ⟨a, q, ha, h, hgood⟩
  obtain ⟨q', hread, hagree⟩ :=
    hL.up (places_card r bs) bs (List.suffix_refl _) hc hb hbound hgood₀
  refine ⟨q', hread, ?_⟩
  -- Both ends agree with what even more levels give.
  obtain ⟨q₁, hq₁, hleft⟩ :=
    hL.up (Nat.le_max_left n (places r bs).card) bs (List.suffix_refl _) ha hb h hgood
  obtain ⟨q₂, hq₂, hright⟩ :=
    hL.up (Nat.le_max_right n (places r bs).card) bs (List.suffix_refl _) hc hb hbound hgood₀
  rw [hq₁] at hq₂
  obtain rfl := Option.some.inj hq₂
  exact hleft.trans (hright.symm.trans hagree)

/-- What is read to its end with some number of levels is read to its end by `read`. -/
theorem read_eq {n : Nat} {path : String} {a b w : Value} {bs rest : List UInt8}
    (ha : a.fits r (.nested path) = true) (hb : b.fits r (.nested path) = true)
    (h : readTo r n path a bs = some ⟨w, rest, none⟩) :
    read r path b bs = some ⟨w, rest, none⟩ := by
  have hlevels : Levels r (· = none) (readTo r) :=
    ⟨mem_names_of_readTo, readTo_simulates hr,
      fun hsim => readLevel_simulates hr rfl (readTo_consumes r _) hsim (hsim.fresh hr)⟩
  obtain ⟨q, hq, hagree⟩ := hlevels.bound ha hb h rfl
  rw [read, hq, hagree.eq_of_ok rfl]

end Bound

end WireRecords.Codec
