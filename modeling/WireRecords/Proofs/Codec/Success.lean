import WireRecords.Codec.Write
import WireRecords.Proofs.Codec.Reading

/-!
# What it takes to succeed

For every piece of a procedure, the exact condition under which it succeeds, and with what. The
procedures are not opened again after this module.
-/
namespace WireRecords.Codec

@[simp] theorem padded_length (value : String) (width : Nat) :
    (padded value width).length = width := by
  simp only [padded, List.length_append, List.length_take, List.length_replicate]
  omega

/-! ### Reading -/

section Reading

variable {allowed : String → Prop} {r : Registry} {N : Reader} {record : String}
  {name : FieldName} {endian : Endian} {fs gs : Fields} {f : RecordedField} {v w : Value}
  {bs rest : List UInt8}

/-- Either there are too few bytes, or the first ones are taken. -/
theorem take_cases (name : FieldName) (count : Nat) (bs : List UInt8) :
    (∃ e, take name count bs = .error e ∧ bs.length < count) ∨
      ∃ data rest, take name count bs = .ok (data, rest) ∧ data.length = count ∧
        bs = data ++ rest := by
  by_cases hlen : count ≤ bs.length
  · exact Or.inr ⟨_, _, take_of_le hlen, by simp [hlen], by simp⟩
  · have hlt := Nat.lt_of_not_le hlen
    exact Or.inl ⟨_, take_of_lt hlt, hlt⟩

/-- What follows on bytes that are taken succeeds on the bytes behind them. -/
theorem take_then_ok {α : Type} {count : Nat} {x failed : α}
    {next : List UInt8 → List UInt8 → Option (Reading α)} :
    (match take name count bs with
      | .ok (data, mid) => next data mid
      | .error e => some ⟨failed, bs, some e⟩) = some ⟨x, rest, none⟩ ↔
      ∃ data mid, data.length = count ∧ bs = data ++ mid ∧ next data mid = some ⟨x, rest, none⟩ := by
  rcases take_cases name count bs with ⟨e, ht, hlen⟩ | ⟨data, mid, ht, hlen, rfl⟩
  · simp only [ht]
    constructor
    · intro h
      simp at h
    · rintro ⟨data, mid, hdata, rfl, _⟩
      simp only [List.length_append] at hlen
      omega
  · simp only [ht]
    constructor
    · intro h
      exact ⟨data, mid, hlen, rfl, h⟩
    · rintro ⟨data', mid', hdata, hbs, h⟩
      obtain ⟨rfl, rfl⟩ := List.append_inj hbs (hlen.trans hdata.symm)
      exact h

/-- Reading into a part succeeds as reading the part does. -/
theorem map_ok {α β : Type} {q : Option (Reading α)} {g : α → β} {x : β} :
    (q.map fun q => (⟨g q.value, q.rest, q.error⟩ : Reading β)) = some ⟨x, rest, none⟩ ↔
      ∃ a, q = some ⟨a, rest, none⟩ ∧ x = g a := by
  rw [Option.map_eq_some_iff]
  constructor
  · rintro ⟨⟨a, rest', error⟩, hq, heq⟩
    simp only [Reading.mk.injEq] at heq
    obtain ⟨rfl, rfl, rfl⟩ := heq
    exact ⟨a, hq, rfl⟩
  · rintro ⟨a, hq, rfl⟩
    exact ⟨_, hq, rfl⟩

/-- A reading, and another one from where the first ends. -/
theorem readOn_ok {first : Option (Reading Fields)}
    {next : Fields → List UInt8 → Option (Reading Fields)} :
    (match first with
      | some ⟨fs, mid, none⟩ => next fs mid
      | failed => failed) = some ⟨gs, rest, none⟩ ↔
      ∃ fs mid, first = some ⟨fs, mid, none⟩ ∧ next fs mid = some ⟨gs, rest, none⟩ := by
  rcases first with _ | ⟨fs, mid, _ | e⟩
  · simp
  · simp only [Option.some.injEq, Reading.mk.injEq, and_true]
    constructor
    · exact fun h => ⟨fs, mid, ⟨rfl, rfl⟩, h⟩
    · rintro ⟨_, _, ⟨rfl, rfl⟩, h⟩
      exact h
  · simp

theorem readPlain_scalar_ok {s : Scalar} :
    readPlain N name endian v bs (.scalar s) = some ⟨w, rest, none⟩ ↔
      ∃ word, word.length = s.width ∧ bs = word ++ rest ∧
        w = .integer (s.decode endian word) := by
  simp only [readPlain]
  refine take_then_ok.trans ⟨?_, ?_⟩
  · rintro ⟨word, mid, hword, rfl, h⟩
    simp only [Option.some.injEq, Reading.mk.injEq, and_true] at h
    obtain ⟨rfl, rfl⟩ := h
    exact ⟨word, hword, rfl, rfl⟩
  · rintro ⟨word, hword, rfl, rfl⟩
    exact ⟨word, rest, hword, rfl, rfl⟩

theorem readPlain_bytes_ok {length : Nat} :
    readPlain N name endian v bs (.bytes length) = some ⟨w, rest, none⟩ ↔
      ∃ data, data.length = length ∧ bs = data ++ rest ∧ w = .bytes data := by
  simp only [readPlain]
  refine take_then_ok.trans ⟨?_, ?_⟩
  · rintro ⟨data, mid, hdata, rfl, h⟩
    simp only [Option.some.injEq, Reading.mk.injEq, and_true] at h
    obtain ⟨rfl, rfl⟩ := h
    exact ⟨data, hdata, rfl, rfl⟩
  · rintro ⟨data, hdata, rfl, rfl⟩
    exact ⟨data, rest, hdata, rfl, rfl⟩

theorem readElements_succ_ok {E : List UInt8 → Option (Reading Value)} {count : Nat}
    {items : List Value} :
    readElements E (count + 1) bs = some ⟨items, rest, none⟩ ↔
      ∃ v mid vs, E bs = some ⟨v, mid, none⟩ ∧
        readElements E count mid = some ⟨vs, rest, none⟩ ∧ items = v :: vs := by
  simp only [readElements]
  cases hE : E bs with
  | none => simp
  | some a =>
    obtain ⟨v, mid, error⟩ := a
    cases error with
    | some e => simp
    | none =>
      simp only [Option.map_eq_some_iff, Option.some.injEq, Reading.mk.injEq, and_true]
      constructor
      · rintro ⟨⟨vs, rest', error⟩, hq, heq⟩
        simp only at heq
        obtain ⟨rfl, rfl, rfl⟩ := heq
        exact ⟨v, mid, vs, ⟨rfl, rfl⟩, hq, rfl⟩
      · rintro ⟨v', mid', vs, ⟨rfl, rfl⟩, hq, rfl⟩
        exact ⟨_, hq, rfl, rfl, rfl⟩

theorem readField_constant_ok {value : String} {length : Nat}
    (ht : f.decl.type = .constant value) (hw : f.info.width = some (.literal length)) :
    readField r N record fs f bs = some ⟨gs, rest, none⟩ ↔
      bs = padded value length ++ rest ∧ gs = fs := by
  rw [readField_constant r N record fs bs ht hw]
  refine take_then_ok.trans ⟨?_, ?_⟩
  · rintro ⟨data, mid, hdata, rfl, h⟩
    split at h
    · rename_i heq
      simp only [Option.some.injEq, Reading.mk.injEq, and_true] at h
      obtain ⟨rfl, rfl⟩ := h
      exact ⟨by rw [heq], rfl⟩
    · simp at h
  · rintro ⟨rfl, rfl⟩
    exact ⟨_, rest, padded_length value length, rfl, by simp⟩

theorem readField_byteRun_ok {width : Width} (ht : f.decl.type = .byteRun)
    (hw : f.info.width = some width) :
    readField r N record fs f bs = some ⟨gs, rest, none⟩ ↔
      ∃ data, fs.measure width = .ok data.length ∧ bs = data ++ rest ∧
        gs = fs.set f.decl.id (.bytes data) := by
  rw [readField_byteRun r N record fs bs ht hw]
  cases hm : fs.measure width with
  | error fault => simp
  | ok length =>
    dsimp only
    refine take_then_ok.trans ⟨?_, ?_⟩
    · rintro ⟨data, mid, rfl, rfl, h⟩
      simp only [Option.some.injEq, Reading.mk.injEq, and_true] at h
      obtain ⟨rfl, rfl⟩ := h
      exact ⟨data, rfl, rfl, rfl⟩
    · rintro ⟨data, hdata, rfl, rfl⟩
      exact ⟨data, rest, (Except.ok.inj hdata).symm, rfl, rfl⟩

theorem readField_slice_ok {element : FieldType} {width : Width}
    (ht : f.decl.type = .slice element) (hw : f.info.width = some width) :
    readField r N record fs f bs = some ⟨gs, rest, none⟩ ↔
      ∃ count items, fs.measure width = .ok count ∧
        checkSlice r ⟨record, f.decl.id⟩ element count bs = none ∧
        readElements (fun bs => readPlain N ⟨record, f.decl.id⟩ f.info.endian
          (initialOf (initial r) element) bs element) count bs = some ⟨items, rest, none⟩ ∧
        gs = fs.set f.decl.id (.list items) := by
  rw [readField_slice r N record fs bs ht hw]
  cases hm : fs.measure width with
  | error fault => simp
  | ok count =>
    cases hc : checkSlice r ⟨record, f.decl.id⟩ element count bs with
    | some e => simp [hc]
    | none =>
      simp only [hc, Except.ok.injEq]
      rw [map_ok (g := fun items => fs.set f.decl.id (.list items))]
      constructor
      · rintro ⟨items, hq, rfl⟩
        exact ⟨count, items, rfl, hc, hq, rfl⟩
      · rintro ⟨count', items, rfl, _, hq, rfl⟩
        exact ⟨items, hq, rfl⟩

theorem readField_plain_ok (hp : f.decl.type.Plain allowed) :
    readField r N record fs f bs = some ⟨gs, rest, none⟩ ↔
      ∃ v, readPlain N ⟨record, f.decl.id⟩ f.info.endian (fs.get f.decl.id) bs f.decl.type =
        some ⟨v, rest, none⟩ ∧ gs = fs.set f.decl.id v := by
  rw [readField_plain r N record fs bs hp, map_ok]

theorem readFields_cons_ok {after : List RecordedField} :
    readFields r N record fs (f :: after) bs = some ⟨gs, rest, none⟩ ↔
      ∃ next mid, readField r N record fs f bs = some ⟨next, mid, none⟩ ∧
        readFields r N record next after mid = some ⟨gs, rest, none⟩ := by
  simp only [readFields]
  exact readOn_ok

theorem readLevel_record_ok {path : String} {e : RecordEntry} (hf : r.find? path = some e) :
    readLevel r N path v bs = some ⟨w, rest, none⟩ ↔
      ∃ gs, w = .record gs ∧
        readFields r N e.id v.asFields e.fields bs = some ⟨gs, rest, none⟩ := by
  rw [readLevel_record hf, map_ok]
  exact exists_congr fun gs => and_comm

theorem readTo_record_ok {path : String} {e : RecordEntry} {n : Nat}
    (hf : r.find? path = some e) :
    readTo r (n + 1) path v bs = some ⟨w, rest, none⟩ ↔
      ∃ gs, w = .record gs ∧
        readFields r (readTo r n) e.id v.asFields e.fields bs = some ⟨gs, rest, none⟩ := by
  rw [readTo_succ, readLevel_record_ok hf]

end Reading

/-! ### Writing -/

section Writing

variable {allowed : String → Prop} {r : Registry} {N : Writer} {record : String}
  {name : FieldName} {endian : Endian} {fs : Fields} {f : RecordedField} {v : Value}
  {b bytes : List UInt8} {room : Nat}

theorem put_ok : put name bytes room = ⟨b, none⟩ ↔ b = bytes ∧ bytes.length ≤ room := by
  unfold put
  split
  · simp
    omega
  · rename_i h
    simp only [Writing.mk.injEq, and_true, Nat.le_of_not_lt h]
    exact eq_comm

theorem writePlain_scalar_ok {s : Scalar} :
    writePlain N name endian v room (.scalar s) = some ⟨b, none⟩ ↔
      b = s.encode endian v.asInteger ∧ b.length ≤ room := by
  simp only [writePlain, Option.some.injEq, put_ok]
  constructor <;> rintro ⟨rfl, h⟩ <;> exact ⟨rfl, h⟩

theorem writePlain_bytes_ok {length : Nat} :
    writePlain N name endian v room (.bytes length) = some ⟨b, none⟩ ↔
      b = v.asBytes ∧ b.length ≤ room := by
  simp only [writePlain, Option.some.injEq, put_ok]
  constructor <;> rintro ⟨rfl, h⟩ <;> exact ⟨rfl, h⟩

/-- Two pieces of writing, the second in the room that the first leaves. -/
theorem sequence_ok {first : Option Writing} {second : Nat → Option Writing} :
    (match first with
      | none => none
      | some w =>
        if w.error.isSome then some w else w.append (second (room - w.bytes.length))) =
        some ⟨b, none⟩ ↔
      ∃ b₁ b₂, first = some ⟨b₁, none⟩ ∧ second (room - b₁.length) = some ⟨b₂, none⟩ ∧
        b = b₁ ++ b₂ := by
  cases first with
  | none => simp
  | some w =>
    obtain ⟨b₁, error⟩ := w
    cases error with
    | some e => simp
    | none =>
      simp only [Option.isSome_none, Bool.false_eq_true, if_false, Writing.append,
        Option.map_eq_some_iff, Option.some.injEq, Writing.mk.injEq, and_true]
      constructor
      · rintro ⟨⟨b₂, error⟩, hsecond, rfl, rfl⟩
        exact ⟨b₁, b₂, rfl, hsecond, rfl⟩
      · rintro ⟨_, b₂, rfl, hsecond, rfl⟩
        exact ⟨_, hsecond, rfl, rfl⟩

theorem writeElements_nil_ok {E : Value → Nat → Option Writing} :
    writeElements E [] room = some ⟨b, none⟩ ↔ b = [] := by
  simp only [writeElements, Option.some.injEq, Writing.mk.injEq, and_true]
  exact eq_comm

theorem writeElements_cons_ok {E : Value → Nat → Option Writing} {vs : List Value} :
    writeElements E (v :: vs) room = some ⟨b, none⟩ ↔
      ∃ b₁ b₂, E v room = some ⟨b₁, none⟩ ∧
        writeElements E vs (room - b₁.length) = some ⟨b₂, none⟩ ∧ b = b₁ ++ b₂ := by
  simp only [writeElements]
  exact sequence_ok

theorem writeField_constant_ok {value : String} {length : Nat}
    (ht : f.decl.type = .constant value) (hw : f.info.width = some (.literal length)) :
    writeField N record fs f room = some ⟨b, none⟩ ↔
      b = padded value length ∧ b.length ≤ room := by
  simp only [writeField, ht, hw, Option.bind_some, Width.fold, Option.some.injEq, put_ok]
  constructor <;> rintro ⟨rfl, h⟩ <;> exact ⟨rfl, h⟩

theorem writeField_byteRun_ok {width : Width} (ht : f.decl.type = .byteRun)
    (hw : f.info.width = some width) :
    writeField N record fs f room = some ⟨b, none⟩ ↔
      ∃ length, fs.measure width = .ok length ∧ length ≤ (fs.get f.decl.id).asBytes.length ∧
        b = (fs.get f.decl.id).asBytes.take length ∧ b.length ≤ room := by
  simp only [writeField, ht, hw]
  cases fs.measure width with
  | error fault => simp
  | ok length =>
    dsimp only
    by_cases hlen : (fs.get f.decl.id).asBytes.length < length
    · rw [if_pos hlen]
      simp only [Option.some.injEq, Writing.mk.injEq, reduceCtorEq, and_false, Except.ok.injEq,
        false_iff, not_exists]
      rintro _ ⟨rfl, hle, _⟩
      omega
    · rw [if_neg hlen, Option.some.injEq, put_ok]
      constructor
      · rintro ⟨rfl, hroom⟩
        exact ⟨length, rfl, Nat.le_of_not_lt hlen, rfl, hroom⟩
      · rintro ⟨_, hlength, _, rfl, hroom⟩
        obtain rfl := Except.ok.inj hlength
        exact ⟨rfl, hroom⟩

theorem writeField_slice_ok {element : FieldType} {width : Width}
    (ht : f.decl.type = .slice element) (hw : f.info.width = some width) :
    writeField N record fs f room = some ⟨b, none⟩ ↔
      ∃ count, fs.measure width = .ok count ∧ count ≤ (fs.get f.decl.id).asItems.length ∧
        writeElements (fun v room => writePlain N ⟨record, f.decl.id⟩ f.info.endian v room element)
          ((fs.get f.decl.id).asItems.take count) room = some ⟨b, none⟩ := by
  simp only [writeField, ht, hw]
  cases fs.measure width with
  | error fault => simp
  | ok count =>
    dsimp only
    by_cases hlen : (fs.get f.decl.id).asItems.length < count
    · rw [if_pos hlen]
      simp only [Option.some.injEq, Writing.mk.injEq, reduceCtorEq, and_false, Except.ok.injEq,
        false_iff, not_exists]
      rintro _ ⟨rfl, hle, _⟩
      omega
    · rw [if_neg hlen]
      constructor
      · intro h
        exact ⟨count, rfl, Nat.le_of_not_lt hlen, h⟩
      · rintro ⟨_, hcount, _, h⟩
        obtain rfl := Except.ok.inj hcount
        exact h

theorem writeField_plain (hp : f.decl.type.Plain allowed) :
    writeField N record fs f room =
      writePlain N ⟨record, f.decl.id⟩ f.info.endian (fs.get f.decl.id) room f.decl.type := by
  cases ht : f.decl.type <;> simp only [writeField, ht] <;> rw [ht] at hp <;> cases hp

theorem writeFields_nil_ok : writeFields N record fs [] room = some ⟨b, none⟩ ↔ b = [] := by
  simp only [writeFields, Option.some.injEq, Writing.mk.injEq, and_true]
  exact eq_comm

theorem writeFields_cons_ok {after : List RecordedField} :
    writeFields N record fs (f :: after) room = some ⟨b, none⟩ ↔
      ∃ b₁ b₂, writeField N record fs f room = some ⟨b₁, none⟩ ∧
        writeFields N record fs after (room - b₁.length) = some ⟨b₂, none⟩ ∧ b = b₁ ++ b₂ := by
  simp only [writeFields]
  exact sequence_ok

theorem writeTo_record {path : String} {e : RecordEntry} (hf : r.find? path = some e) (n : Nat) :
    writeTo r (n + 1) path v room =
      writeFields (writeTo r n) e.id v.asFields e.fields room := by
  simp [writeTo, hf]

theorem writeTo_varint_ok {n : Nat} (hf : r.find? Varint.path = none)
    (h : writeTo r (n + 1) Varint.path v room = some ⟨b, none⟩) : b = Varint.encode v.word := by
  simp only [writeTo, hf, if_true] at h
  split at h
  · rename_i bytes hwrite
    simp only [Option.some.injEq, Writing.mk.injEq, and_true] at h
    rw [← h, Varint.write_eq_ok hwrite]
  · simp at h

/-- Only records and variable-length integers can be written. -/
theorem name_of_writeTo {n : Nat} {path : String} {w : Writing}
    (h : writeTo r n path v room = some w) :
    (∃ e, r.find? path = some e) ∨ r.find? path = none ∧ path = Varint.path := by
  cases n with
  | zero => simp [writeTo] at h
  | succ n =>
    cases hf : r.find? path with
    | some e => exact Or.inl ⟨e, rfl⟩
    | none =>
      simp only [writeTo, hf] at h
      split at h
      · exact Or.inr ⟨rfl, by assumption⟩
      · simp at h

theorem encode_ok {path : String} :
    encode r path v = some (.ok b) ↔ write r path v unlimited = some ⟨b, none⟩ := by
  rw [encode, Option.map_eq_some_iff]
  constructor
  · rintro ⟨⟨bytes, error⟩, hwrite, hok⟩
    cases error with
    | some e => simp at hok
    | none =>
      obtain rfl : bytes = b := by simpa using hok
      exact hwrite
  · intro hwrite
    exact ⟨_, hwrite, rfl⟩

end Writing

end WireRecords.Codec
