import WireRecords.Proofs.Codec.Reading
import WireRecords.Proofs.Codec.Success
import WireRecords.Proofs.Codec.Varint
import WireRecords.Proofs.WellFormed

/-!
# Where codecs fault

Reading and writing go through records field by field, and from a field into the records that it
holds. A fault comes from a computed width at one of the fields that are reached in this way, and
from nowhere else: every such field whose width breaks off makes the whole procedure fault.
-/
namespace WireRecords

section Widths

variable {before : List FieldDecl} {info : FieldMeta} {type : FieldType}

/-- Only widths that are computed break off. -/
theorem FieldMeta.Consistent.kind_eq_dynamic (h : info.Consistent before type) {fs : Codec.Fields}
    {w : Width} {cause : ArithmeticFault} (hw : info.width = some w)
    (hm : fs.measure w = .error cause) : info.kind = .dynamic := by
  have hliteral : ∀ {n}, w ≠ .literal n := by
    intro n hn
    subst hn
    simp [Codec.Fields.measure, Width.eval] at hm
  cases h with
  | byteRun _ _ => rfl
  | slice _ _ _ => rfl
  | scalar s => exact absurd (Option.some.inj hw).symm hliteral
  | bytes length => exact absurd (Option.some.inj hw).symm hliteral
  | fixedSlice _ count => exact absurd (Option.some.inj hw).symm hliteral
  | constant value length => exact absurd (Option.some.inj hw).symm hliteral
  | fixed _ width => exact absurd (Option.some.inj hw).symm hliteral
  | selfDelimited _ => simp at hw

/-- Widths are computed for runs of bytes and for slices. -/
theorem FieldMeta.Consistent.type_of_dynamic (h : info.Consistent before type)
    (hkind : info.kind = .dynamic) : type = .byteRun ∨ ∃ element, type = .slice element := by
  cases h with
  | byteRun _ _ => exact Or.inl rfl
  | slice _ _ _ => exact Or.inr ⟨_, rfl⟩
  | fixedSlice _ _ => exact Or.inr ⟨_, rfl⟩
  | scalar _ => simp at hkind
  | bytes _ => simp at hkind
  | constant _ _ => simp at hkind
  | fixed _ _ => simp at hkind
  | selfDelimited _ => simp at hkind

end Widths

theorem RecordEntry.WellFormed.consistent_of_mem {e : RecordEntry} (h : e.WellFormed)
    {f : RecordedField} (hf : f ∈ e.fields) : ∃ before, f.info.Consistent before f.decl.type := by
  obtain ⟨before, after, hsplit⟩ := List.append_of_mem hf
  exact ⟨_, h.consistent hsplit⟩

namespace Codec

/-- A record with its fields, and the field that is the next to be transferred. -/
structure Stage where
  entry : RecordEntry
  fields : Fields
  field : RecordedField

/-- The width of the next field is computed, and breaks off with the fault. -/
def Stage.Faults (s : Stage) (x : Fault) : Prop :=
  ∃ w cause, s.field.info.kind = .dynamic ∧ s.field.info.width = some w ∧
    s.fields.measure w = .error cause ∧ x = .ofPanic s.entry.id (.arithmetic cause)

section Faults

variable {entry : RecordEntry} {before : List FieldDecl} {fs : Fields} {f : RecordedField}
  {x : Fault} (hf : f.info.Consistent before f.decl.type)

include hf

theorem Stage.faults_iff {w : Width} (hw : f.info.width = some w) :
    Stage.Faults ⟨entry, fs, f⟩ x ↔
      ∃ cause, fs.measure w = .error cause ∧ x = .ofPanic entry.id (.arithmetic cause) := by
  constructor
  · intro hfaults
    obtain ⟨w', cause, _, hw', hm, hx⟩ := hfaults
    obtain rfl : w = w' := Option.some.inj (hw.symm.trans hw')
    exact ⟨cause, hm, hx⟩
  · intro hfaults
    obtain ⟨cause, hm, hx⟩ := hfaults
    exact ⟨w, cause, hf.kind_eq_dynamic hw hm, hw, hm, hx⟩

theorem Stage.not_faults (hrun : f.decl.type ≠ .byteRun)
    (hslice : ∀ element, f.decl.type ≠ .slice element) : ¬ Stage.Faults ⟨entry, fs, f⟩ x := by
  intro hfaults
  obtain ⟨_, _, hkind, _⟩ := hfaults
  obtain htype | ⟨element, htype⟩ := hf.type_of_dynamic hkind
  · exact hrun htype
  · exact hslice element htype

/-- What transferring a field depends on: `F` that it faults, and `E` that it faults in a record that
the field holds. -/
theorem Stage.faults_or_iff {F E : Prop}
    (hplain : f.decl.type.Plain (fun _ => True) → (F ↔ E))
    (hconstant : ∀ value length, f.decl.type = .constant value →
      f.info.width = some (.literal length) → ¬ F)
    (hbyteRun : ∀ w, f.decl.type = .byteRun → f.info.width = some w →
      (F ↔ ∃ cause, fs.measure w = .error cause ∧ x = .ofPanic entry.id (.arithmetic cause)))
    (hslice : ∀ element w, f.decl.type = .slice element → f.info.width = some w →
      element.Plain (fun _ => True) →
      (F ↔ (∃ cause, fs.measure w = .error cause ∧
        x = .ofPanic entry.id (.arithmetic cause)) ∨ E))
    (hholds : E → (∃ inner, f.decl.type.target? = some inner) ∨
      ∃ element, f.decl.type = .slice element) :
    F ↔ Stage.Faults ⟨entry, fs, f⟩ x ∨ E := by
  have hnone : f.decl.type.target? = none → (∀ element, f.decl.type ≠ .slice element) → ¬ E := by
    intro htarget hne hE
    obtain ⟨inner, hheld⟩ | ⟨element, hheld⟩ := hholds hE
    · simp [htarget] at hheld
    · exact hne element hheld
  obtain hp | ⟨value, length, htype, hw⟩ | ⟨w, htype, hw⟩ | ⟨element, w, htype, hw, helement⟩ :=
    hf.cases
  · have hwidth : ¬ Stage.Faults ⟨entry, fs, f⟩ x := by
      refine Stage.not_faults hf (fun htype => ?_) fun element htype => ?_
      · rw [htype] at hp
        cases hp
      · rw [htype] at hp
        cases hp
    simp only [hplain hp, hwidth, false_or]
  · have hwidth : ¬ Stage.Faults ⟨entry, fs, f⟩ x :=
      Stage.not_faults hf (by simp [htype]) (by simp [htype])
    have hE := hnone (by rw [htype]; rfl) (by simp [htype])
    simp only [hconstant value length htype hw, hwidth, hE, or_self]
  · have hE := hnone (by rw [htype]; rfl) (by simp [htype])
    rw [hbyteRun w htype hw, Stage.faults_iff hf hw]
    simp only [hE, or_false]
  · rw [hslice element w htype hw helement.plain, Stage.faults_iff hf hw]

end Faults

/-! ### Reading -/

/-- Reading ends with an error. -/
def Reading.Fails {α : Type} (e : DecodeError) (q : Option (Reading α)) : Prop :=
  ∃ p, q = some p ∧ p.error = some e

section Reading

variable {r : Registry} {N : Reader} {record : String} {e : DecodeError} {x : Fault}

theorem Reading.fails_map {α β : Type} {q : Option (Reading α)} {f : α → β} :
    Reading.Fails e (q.map fun p => ⟨f p.value, p.rest, p.error⟩) ↔ Reading.Fails e q := by
  cases q <;> simp [Fails]

theorem Reading.fails_some {α : Type} {v : α} {rest : List UInt8} {error : Option DecodeError} :
    Reading.Fails e (some ⟨v, rest, error⟩) ↔ error = some e := by
  simp [Fails]

theorem Reading.not_fails_none {α : Type} : ¬ Reading.Fails e (none : Option (Reading α)) := by
  simp [Fails]

/-- Reading fields comes to a field when those before it have been read. -/
inductive ReadReaches (r : Registry) (N : Reader) (record : String) :
    Fields → List RecordedField → List UInt8 → Fields → RecordedField → List UInt8 → Prop
  | here {fs : Fields} {f : RecordedField} {after : List RecordedField} {bytes : List UInt8} :
      ReadReaches r N record fs (f :: after) bytes fs f bytes
  | next {fs gs hs : Fields} {f g : RecordedField} {after : List RecordedField}
      {bytes rest bs : List UInt8}
      (hone : readField r N record fs f bytes = some ⟨gs, rest, none⟩)
      (hrest : ReadReaches r N record gs after rest hs g bs) :
      ReadReaches r N record fs (f :: after) bytes hs g bs

theorem ReadReaches.mem {fs gs : Fields} {fields : List RecordedField} {f : RecordedField}
    {bytes bs : List UInt8} (h : ReadReaches r N record fs fields bytes gs f bs) : f ∈ fields := by
  induction h with
  | here => exact List.mem_cons_self
  | next _ _ ih => exact List.mem_cons_of_mem _ ih

/-- Reading fields fails where reading one of them does. -/
theorem readFields_fails {fs : Fields} {fields : List RecordedField} {bytes : List UInt8} :
    Reading.Fails e (readFields r N record fs fields bytes) ↔
      ∃ gs f bs, ReadReaches r N record fs fields bytes gs f bs ∧
        Reading.Fails e (readField r N record gs f bs) := by
  constructor
  · intro hfails
    induction fields generalizing fs bytes with
    | nil => simp [readFields, Reading.fails_some] at hfails
    | cons f fields ih =>
      rcases hone : readField r N record fs f bytes with _ | ⟨gs, rest, _ | error⟩
      · simp [readFields, hone, Reading.not_fails_none] at hfails
      · simp only [readFields, hone] at hfails
        obtain ⟨hs, g, bs, hreach, hg⟩ := ih hfails
        exact ⟨hs, g, bs, .next hone hreach, hg⟩
      · simp only [readFields, hone] at hfails
        exact ⟨fs, f, bytes, .here, by rwa [hone]⟩
  · intro hfound
    obtain ⟨gs, f, bs, hreach, hfails⟩ := hfound
    induction hreach with
    | here =>
      obtain ⟨⟨hs, rest, error⟩, hone, rfl⟩ := hfails
      simp only [readFields, hone]
      exact Reading.fails_some.mpr rfl
    | next hone _ ih =>
      simp only [readFields, hone]
      exact ih hfails

/-- Reading elements comes to an element when those before it have been read. -/
inductive ReadElement (one : List UInt8 → Option (Reading Value)) :
    Nat → List UInt8 → List UInt8 → Prop
  | here {count : Nat} {bytes : List UInt8} : ReadElement one (count + 1) bytes bytes
  | next {count : Nat} {bytes rest bs : List UInt8} {v : Value}
      (hone : one bytes = some ⟨v, rest, none⟩) (hrest : ReadElement one count rest bs) :
      ReadElement one (count + 1) bytes bs

theorem readElements_fails {one : List UInt8 → Option (Reading Value)} {count : Nat}
    {bytes : List UInt8} :
    Reading.Fails e (readElements one count bytes) ↔
      ∃ bs, ReadElement one count bytes bs ∧ Reading.Fails e (one bs) := by
  constructor
  · intro hfails
    induction count generalizing bytes with
    | zero => simp [readElements, Reading.fails_some] at hfails
    | succ count ih =>
      rcases hone : one bytes with _ | ⟨v, rest, _ | error⟩
      · simp [readElements, hone, Reading.not_fails_none] at hfails
      · simp only [readElements, hone] at hfails
        obtain ⟨bs, hreach, hbs⟩ := ih (Reading.fails_map.mp hfails)
        exact ⟨bs, .next hone hreach, hbs⟩
      · simp only [readElements, hone] at hfails
        have herror := Reading.fails_some.mp hfails
        exact ⟨bytes, .here, by rw [hone]; exact Reading.fails_some.mpr herror⟩
  · intro hfound
    obtain ⟨bs, hreach, hfails⟩ := hfound
    induction hreach with
    | here =>
      obtain ⟨⟨v, rest, error⟩, hone, rfl⟩ := hfails
      simp only [readElements, hone]
      exact Reading.fails_some.mpr rfl
    | next hone _ ih =>
      simp only [readElements, hone]
      exact Reading.fails_map.mpr (ih hfails)

/-- Reading a field comes to a record that it holds, or to one of the records of a slice. -/
inductive ReadEnters (r : Registry) (N : Reader) (record : String) (fs : Fields)
    (f : RecordedField) (bytes : List UInt8) : String → Value → List UInt8 → Prop
  | nested {inner : String} (htarget : f.decl.type.target? = some inner) :
      ReadEnters r N record fs f bytes inner (fs.get f.decl.id) bytes
  | element {element : FieldType} {inner : String} {w : Width} {count : Nat} {bs : List UInt8}
      (htype : f.decl.type = .slice element) (htarget : element.target? = some inner)
      (hwidth : f.info.width = some w) (hcount : fs.measure w = .ok count)
      (hcheck : checkSlice r ⟨record, f.decl.id⟩ element count bytes = none)
      (hreach : ReadElement (N inner (initialOf (initial r) element)) count bytes bs) :
      ReadEnters r N record fs f bytes inner (initialOf (initial r) element) bs

theorem readPlain_target {type : FieldType} {inner : String} (h : type.target? = some inner)
    (name : FieldName) (endian : Endian) (v : Value) (bytes : List UInt8) :
    readPlain N name endian v bytes type = N inner v bytes := by
  obtain rfl | rfl := FieldType.target?_eq_some h
  · rfl
  · rfl

/-- What is read in one piece faults only inside of a record. -/
theorem readPlain_faults {type : FieldType} (hplain : type.Plain fun _ => True) {name : FieldName}
    {endian : Endian} {v : Value} {bytes : List UInt8} :
    Reading.Fails (.fault x) (readPlain N name endian v bytes type) ↔
      ∃ inner, type.target? = some inner ∧ Reading.Fails (.fault x) (N inner v bytes) := by
  cases hplain with
  | scalar k =>
    simp only [readPlain, take, FieldType.target?]
    split_ifs <;> simp [Reading.fails_some]
  | bytes length =>
    simp only [readPlain, take, FieldType.target?]
    split_ifs <;> simp [Reading.fails_some]
  | nested _ => simp [readPlain, FieldType.target?]
  | boxed _ => simp [readPlain, FieldType.target?]

section Field

variable {fs : Fields} {f : RecordedField} {bytes : List UInt8}

theorem ReadEnters.holds {inner : String} {v : Value} {bs : List UInt8}
    (h : ReadEnters r N record fs f bytes inner v bs) :
    f.decl.type.target? = some inner ∨ ∃ element, f.decl.type = .slice element := by
  cases h with
  | nested htarget => exact Or.inl htarget
  | element htype _ _ _ _ _ => exact Or.inr ⟨_, htype⟩

theorem readField_plain_faults (hplain : f.decl.type.Plain fun _ => True) :
    Reading.Fails (.fault x) (readField r N record fs f bytes) ↔
      ∃ inner v bs, ReadEnters r N record fs f bytes inner v bs ∧
        Reading.Fails (.fault x) (N inner v bs) := by
  rw [readField_plain r N record fs bytes hplain, Reading.fails_map, readPlain_faults hplain]
  constructor
  · intro hfound
    obtain ⟨inner, htarget, hfails⟩ := hfound
    exact ⟨inner, _, _, .nested htarget, hfails⟩
  · intro hfound
    obtain ⟨inner, v, bs, henters, hfails⟩ := hfound
    cases henters with
    | nested htarget => exact ⟨inner, htarget, hfails⟩
    | element htype _ _ _ _ _ =>
      rw [htype] at hplain
      cases hplain

theorem readField_constant_not_faults {value : String} {length : Nat}
    (htype : f.decl.type = .constant value) (hwidth : f.info.width = some (.literal length)) :
    ¬ Reading.Fails (.fault x) (readField r N record fs f bytes) := by
  rw [readField_constant r N record fs bytes htype hwidth, take]
  split_ifs
  · simp [Reading.fails_some]
  · dsimp only
    split_ifs <;> simp [Reading.fails_some]

theorem readField_byteRun_faults {w : Width} (htype : f.decl.type = .byteRun)
    (hwidth : f.info.width = some w) :
    Reading.Fails (.fault x) (readField r N record fs f bytes) ↔
      ∃ cause, fs.measure w = .error cause ∧ x = .ofPanic record (.arithmetic cause) := by
  rw [readField_byteRun r N record fs bytes htype hwidth]
  cases fs.measure w with
  | error cause => simp [Reading.fails_some, eq_comm]
  | ok length =>
    simp only [take]
    split_ifs <;> simp [Reading.fails_some]

theorem readEnters_slice {element : FieldType} {w : Width} (htype : f.decl.type = .slice element)
    (hwidth : f.info.width = some w) {inner : String} {v : Value} {bs : List UInt8} :
    ReadEnters r N record fs f bytes inner v bs ↔
      element.target? = some inner ∧ v = initialOf (initial r) element ∧
        ∃ count, fs.measure w = .ok count ∧
          checkSlice r ⟨record, f.decl.id⟩ element count bytes = none ∧
          ReadElement (N inner (initialOf (initial r) element)) count bytes bs := by
  constructor
  · intro h
    cases h with
    | nested htarget => simp [htype, FieldType.target?] at htarget
    | element htype' htarget hwidth' hcount hcheck hreach =>
      obtain rfl := FieldType.slice.inj (htype.symm.trans htype')
      obtain rfl := Option.some.inj (hwidth.symm.trans hwidth')
      exact ⟨htarget, rfl, _, hcount, hcheck, hreach⟩
  · intro hfound
    obtain ⟨htarget, hv, count, hcount, hcheck, hreach⟩ := hfound
    rw [hv]
    exact .element htype htarget hwidth hcount hcheck hreach

theorem checkSlice_ne_fault {name : FieldName} {element : FieldType} {count : Nat} :
    checkSlice r name element count bytes ≠ some (.fault x) := by
  unfold checkSlice
  split
  · dsimp only
    split_ifs <;> simp
  · simp

theorem readField_slice_faults {element : FieldType} {w : Width}
    (htype : f.decl.type = .slice element) (hwidth : f.info.width = some w)
    (hplain : element.Plain fun _ => True) :
    Reading.Fails (.fault x) (readField r N record fs f bytes) ↔
      (∃ cause, fs.measure w = .error cause ∧ x = .ofPanic record (.arithmetic cause)) ∨
      ∃ inner v bs, ReadEnters r N record fs f bytes inner v bs ∧
        Reading.Fails (.fault x) (N inner v bs) := by
  simp only [readField_slice r N record fs bytes htype hwidth, readEnters_slice htype hwidth]
  cases hm : fs.measure w with
  | error cause => simp [Reading.fails_some, eq_comm]
  | ok count =>
    dsimp only
    cases hcheck : checkSlice r ⟨record, f.decl.id⟩ element count bytes with
    | some e =>
      have hne : e ≠ .fault x := fun h => checkSlice_ne_fault (hcheck.trans (congrArg some h))
      simp [Reading.fails_some, hcheck, hne]
    | none =>
      dsimp only
      rw [Reading.fails_map (f := fun vs => fs.set f.decl.id (.list vs)), readElements_fails]
      constructor
      · intro hfound
        obtain ⟨bs, hreach, hfails⟩ := hfound
        obtain ⟨inner, htarget, hfails⟩ := (readPlain_faults hplain).mp hfails
        rw [funext fun bs => readPlain_target htarget _ _ _ bs] at hreach
        exact Or.inr ⟨inner, _, bs, ⟨htarget, rfl, count, rfl, hcheck, hreach⟩, hfails⟩
      · intro hfails
        obtain ⟨cause, herror, _⟩ | ⟨inner, v, bs, ⟨htarget, hv, count', hcount, _, hreach⟩, hfails⟩ :=
          hfails
        · simp at herror
        · obtain rfl := Except.ok.inj hcount
          subst hv
          refine ⟨bs, ?_, (readPlain_faults hplain).mpr ⟨inner, htarget, hfails⟩⟩
          rw [funext fun bs => readPlain_target htarget _ _ _ bs]
          exact hreach

/-- Reading a field faults in its width, or inside of a record that it holds. -/
theorem readField_faults {entry : RecordEntry} {before : List FieldDecl}
    (hf : f.info.Consistent before f.decl.type) :
    Reading.Fails (.fault x) (readField r N entry.id fs f bytes) ↔
      Stage.Faults ⟨entry, fs, f⟩ x ∨
      ∃ inner v bs, ReadEnters r N entry.id fs f bytes inner v bs ∧
        Reading.Fails (.fault x) (N inner v bs) := by
  refine Stage.faults_or_iff hf readField_plain_faults
    (fun _ _ htype hw => readField_constant_not_faults htype hw)
    (fun _ htype hw => readField_byteRun_faults htype hw)
    (fun _ _ htype hw hplain => readField_slice_faults htype hw hplain) ?_
  intro hfound
  obtain ⟨inner, v, bs, henters, _⟩ := hfound
  exact henters.holds.imp_left fun htarget => ⟨inner, htarget⟩

end Field

/-- Reading a record comes to one of its fields, or to a field of a record inside. -/
inductive ReadVisits (r : Registry) : Nat → String → Value → List UInt8 → Stage → Prop
  | here {n : Nat} {path : String} {v : Value} {bytes bs : List UInt8} {entry : RecordEntry}
      {fs : Fields} {f : RecordedField} (hfind : r.find? path = some entry)
      (hreach : ReadReaches r (readTo r n) entry.id v.asFields entry.fields bytes fs f bs) :
      ReadVisits r (n + 1) path v bytes ⟨entry, fs, f⟩
  | inside {n : Nat} {path inner : String} {v u : Value} {bytes bs cs : List UInt8}
      {entry : RecordEntry} {fs : Fields} {f : RecordedField} {stage : Stage}
      (hfind : r.find? path = some entry)
      (hreach : ReadReaches r (readTo r n) entry.id v.asFields entry.fields bytes fs f bs)
      (henters : ReadEnters r (readTo r n) entry.id fs f bs inner u cs)
      (hvisits : ReadVisits r n inner u cs stage) : ReadVisits r (n + 1) path v bytes stage

/-- Reading faults exactly if it comes to a field whose computed width breaks off. -/
theorem readTo_faults_iff (hr : ∀ {id entry}, r.find? id = some entry → entry.WellFormed) {n : Nat}
    {path : String} {v : Value} {bytes : List UInt8} :
    Reading.Fails (.fault x) (readTo r n path v bytes) ↔
      ∃ stage, ReadVisits r n path v bytes stage ∧ stage.Faults x := by
  induction n generalizing path v bytes with
  | zero =>
    constructor
    · exact fun h => absurd h Reading.not_fails_none
    · intro hfound
      obtain ⟨stage, hvisits, _⟩ := hfound
      cases hvisits
  | succ n ih =>
    cases hfind : r.find? path with
    | none =>
      constructor
      · intro hfails
        simp only [readTo, hfind] at hfails
        split_ifs at hfails
        · have hne : (Varint.read bytes).result ≠ .error (.fault x) :=
            Varint.readGroups_ne_fault _ _ _ bytes x
          cases hresult : (Varint.read bytes).result with
          | ok k => simp [hresult, Reading.fails_some] at hfails
          | error e =>
            simp only [hresult, Reading.fails_some, Option.some.injEq] at hfails
            exact absurd (hresult.trans (congrArg Except.error hfails)) hne
        · exact absurd hfails Reading.not_fails_none
      · intro hfound
        obtain ⟨stage, hvisits, _⟩ := hfound
        cases hvisits with
        | here hother _ => simp [hfind] at hother
        | inside hother _ _ _ => simp [hfind] at hother
    | some entry =>
      rw [readTo_record hfind, Reading.fails_map, readFields_fails]
      constructor
      · intro hfound
        obtain ⟨fs, f, bs, hreach, hfails⟩ := hfound
        obtain ⟨before, hf⟩ := (hr hfind).consistent_of_mem hreach.mem
        obtain hwidth | ⟨inner, u, cs, henters, hinner⟩ := (readField_faults hf).mp hfails
        · exact ⟨_, .here hfind hreach, hwidth⟩
        · obtain ⟨stage, hvisits, hstage⟩ := ih.mp hinner
          exact ⟨stage, .inside hfind hreach henters hvisits, hstage⟩
      · intro hfound
        obtain ⟨stage, hvisits, hstage⟩ := hfound
        cases hvisits with
        | @here _ _ _ _ bs _ fs f hother hreach =>
          obtain rfl := Option.some.inj (hfind.symm.trans hother)
          obtain ⟨before, hf⟩ := (hr hfind).consistent_of_mem hreach.mem
          exact ⟨fs, f, bs, hreach, (readField_faults hf).mpr (Or.inl hstage)⟩
        | @inside _ _ inner _ u _ bs cs _ fs f _ hother hreach henters hvisits =>
          obtain rfl := Option.some.inj (hfind.symm.trans hother)
          obtain ⟨before, hf⟩ := (hr hfind).consistent_of_mem hreach.mem
          exact ⟨fs, f, bs, hreach, (readField_faults hf).mpr
            (Or.inr ⟨inner, u, cs, henters, ih.mpr ⟨stage, hvisits, hstage⟩⟩)⟩

end Reading

/-! ### Writing -/

/-- Writing ends with an error. -/
def Writing.Fails (e : EncodeError) (q : Option Writing) : Prop :=
  ∃ w, q = some w ∧ w.error = some e

section Writing

variable {r : Registry} {N : Writer} {record : String} {e : EncodeError} {x : Fault}

theorem Writing.fails_some {bytes : List UInt8} {error : Option EncodeError} :
    Writing.Fails e (some ⟨bytes, error⟩) ↔ error = some e := by
  simp [Fails]

theorem Writing.not_fails_none : ¬ Writing.Fails e none := by
  simp [Fails]

theorem Writing.fails_append {w : Writing} {q : Option Writing} :
    Writing.Fails e (w.append q) ↔ Writing.Fails e q := by
  cases q <;> simp [Fails, append]

theorem put_not_faults {name : FieldName} {bytes : List UInt8} {room : Nat} :
    ¬ Writing.Fails (.fault x) (some (put name bytes room)) := by
  unfold put
  split_ifs <;> simp [Writing.fails_some]

/-- Writing fields comes to a field when those before it have been written. -/
inductive WriteReaches (N : Writer) (record : String) (fs : Fields) :
    List RecordedField → Nat → RecordedField → Nat → Prop
  | here {f : RecordedField} {after : List RecordedField} {room : Nat} :
      WriteReaches N record fs (f :: after) room f room
  | next {f g : RecordedField} {after : List RecordedField} {bytes : List UInt8} {room k : Nat}
      (hone : writeField N record fs f room = some ⟨bytes, none⟩)
      (hrest : WriteReaches N record fs after (room - bytes.length) g k) :
      WriteReaches N record fs (f :: after) room g k

theorem WriteReaches.mem {fs : Fields} {fields : List RecordedField} {f : RecordedField}
    {room k : Nat} (h : WriteReaches N record fs fields room f k) : f ∈ fields := by
  induction h with
  | here => exact List.mem_cons_self
  | next _ _ ih => exact List.mem_cons_of_mem _ ih

/-- Writing fields fails where writing one of them does. -/
theorem writeFields_fails {fs : Fields} {fields : List RecordedField} {room : Nat} :
    Writing.Fails e (writeFields N record fs fields room) ↔
      ∃ f k, WriteReaches N record fs fields room f k ∧
        Writing.Fails e (writeField N record fs f k) := by
  constructor
  · intro hfails
    induction fields generalizing room with
    | nil => simp [writeFields, Writing.fails_some] at hfails
    | cons f fields ih =>
      rcases hone : writeField N record fs f room with _ | ⟨bytes, _ | error⟩
      · simp [writeFields, hone, Writing.not_fails_none] at hfails
      · simp only [writeFields, hone, Option.isSome_none, Bool.false_eq_true, if_false,
          Writing.fails_append] at hfails
        obtain ⟨g, k, hreach, hg⟩ := ih hfails
        exact ⟨g, k, .next hone hreach, hg⟩
      · simp only [writeFields, hone, Option.isSome_some, if_true] at hfails
        exact ⟨f, room, .here, by rwa [hone]⟩
  · intro hfound
    obtain ⟨f, k, hreach, hfails⟩ := hfound
    induction hreach with
    | here =>
      obtain ⟨⟨bytes, error⟩, hone, rfl⟩ := hfails
      simp only [writeFields, hone, Option.isSome_some, if_true]
      exact Writing.fails_some.mpr rfl
    | next hone _ ih =>
      simp only [writeFields, hone, Option.isSome_none, Bool.false_eq_true, if_false,
        Writing.fails_append]
      exact ih hfails

/-- Writing elements comes to an element when those before it have been written. -/
inductive WriteElement (one : Value → Nat → Option Writing) :
    List Value → Nat → Value → Nat → Prop
  | here {v : Value} {vs : List Value} {room : Nat} : WriteElement one (v :: vs) room v room
  | next {v u : Value} {vs : List Value} {bytes : List UInt8} {room k : Nat}
      (hone : one v room = some ⟨bytes, none⟩)
      (hrest : WriteElement one vs (room - bytes.length) u k) :
      WriteElement one (v :: vs) room u k

theorem writeElements_fails {one : Value → Nat → Option Writing} {vs : List Value} {room : Nat} :
    Writing.Fails e (writeElements one vs room) ↔
      ∃ v k, WriteElement one vs room v k ∧ Writing.Fails e (one v k) := by
  constructor
  · intro hfails
    induction vs generalizing room with
    | nil => simp [writeElements, Writing.fails_some] at hfails
    | cons v vs ih =>
      rcases hone : one v room with _ | ⟨bytes, _ | error⟩
      · simp [writeElements, hone, Writing.not_fails_none] at hfails
      · simp only [writeElements, hone, Option.isSome_none, Bool.false_eq_true, if_false,
          Writing.fails_append] at hfails
        obtain ⟨u, k, hreach, hu⟩ := ih hfails
        exact ⟨u, k, .next hone hreach, hu⟩
      · simp only [writeElements, hone, Option.isSome_some, if_true] at hfails
        exact ⟨v, room, .here, by rwa [hone]⟩
  · intro hfound
    obtain ⟨v, k, hreach, hfails⟩ := hfound
    induction hreach with
    | here =>
      obtain ⟨⟨bytes, error⟩, hone, rfl⟩ := hfails
      simp only [writeElements, hone, Option.isSome_some, if_true]
      exact Writing.fails_some.mpr rfl
    | next hone _ ih =>
      simp only [writeElements, hone, Option.isSome_none, Bool.false_eq_true, if_false,
        Writing.fails_append]
      exact ih hfails

/-- Writing a field comes to a record that it holds, or to one of the records of a slice. -/
inductive WriteEnters (N : Writer) (fs : Fields) (f : RecordedField) (room : Nat) :
    String → Value → Nat → Prop
  | nested {inner : String} (htarget : f.decl.type.target? = some inner) :
      WriteEnters N fs f room inner (fs.get f.decl.id) room
  | element {element : FieldType} {inner : String} {w : Width} {count : Nat} {v : Value} {k : Nat}
      (htype : f.decl.type = .slice element) (htarget : element.target? = some inner)
      (hwidth : f.info.width = some w) (hcount : fs.measure w = .ok count)
      (hstored : count ≤ (fs.get f.decl.id).asItems.length)
      (hreach : WriteElement (N inner) ((fs.get f.decl.id).asItems.take count) room v k) :
      WriteEnters N fs f room inner v k

theorem writePlain_target {type : FieldType} {inner : String} (h : type.target? = some inner)
    (name : FieldName) (endian : Endian) (v : Value) (room : Nat) :
    writePlain N name endian v room type = N inner v room := by
  obtain rfl | rfl := FieldType.target?_eq_some h
  · rfl
  · rfl

/-- What is written in one piece faults only inside of a record. -/
theorem writePlain_faults {type : FieldType} (hplain : type.Plain fun _ => True) {name : FieldName}
    {endian : Endian} {v : Value} {room : Nat} :
    Writing.Fails (.fault x) (writePlain N name endian v room type) ↔
      ∃ inner, type.target? = some inner ∧ Writing.Fails (.fault x) (N inner v room) := by
  cases hplain with
  | scalar k => simp [writePlain, FieldType.target?, put_not_faults]
  | bytes length => simp [writePlain, FieldType.target?, put_not_faults]
  | nested _ => simp [writePlain, FieldType.target?]
  | boxed _ => simp [writePlain, FieldType.target?]

section Field

variable {fs : Fields} {f : RecordedField} {room : Nat}

theorem WriteEnters.holds {inner : String} {v : Value} {k : Nat}
    (h : WriteEnters N fs f room inner v k) :
    f.decl.type.target? = some inner ∨ ∃ element, f.decl.type = .slice element := by
  cases h with
  | nested htarget => exact Or.inl htarget
  | element htype _ _ _ _ _ => exact Or.inr ⟨_, htype⟩

theorem writeField_plain_faults (hplain : f.decl.type.Plain fun _ => True) :
    Writing.Fails (.fault x) (writeField N record fs f room) ↔
      ∃ inner v k, WriteEnters N fs f room inner v k ∧ Writing.Fails (.fault x) (N inner v k) := by
  rw [writeField_plain hplain, writePlain_faults hplain]
  constructor
  · intro hfound
    obtain ⟨inner, htarget, hfails⟩ := hfound
    exact ⟨inner, _, _, .nested htarget, hfails⟩
  · intro hfound
    obtain ⟨inner, v, k, henters, hfails⟩ := hfound
    cases henters with
    | nested htarget => exact ⟨inner, htarget, hfails⟩
    | element htype _ _ _ _ _ =>
      rw [htype] at hplain
      cases hplain

theorem writeField_constant_not_faults {value : String} {length : Nat}
    (htype : f.decl.type = .constant value) (hwidth : f.info.width = some (.literal length)) :
    ¬ Writing.Fails (.fault x) (writeField N record fs f room) := by
  simp only [writeField, htype, hwidth, Option.bind_some, Width.fold]
  exact put_not_faults

theorem writeField_byteRun_faults {w : Width} (htype : f.decl.type = .byteRun)
    (hwidth : f.info.width = some w) :
    Writing.Fails (.fault x) (writeField N record fs f room) ↔
      ∃ cause, fs.measure w = .error cause ∧ x = .ofPanic record (.arithmetic cause) := by
  simp only [writeField, htype, hwidth]
  cases fs.measure w with
  | error cause => simp [Writing.fails_some, eq_comm]
  | ok length =>
    dsimp only
    split_ifs
    · simp [Writing.fails_some]
    · simp [put_not_faults]

theorem writeEnters_slice {element : FieldType} {w : Width} (htype : f.decl.type = .slice element)
    (hwidth : f.info.width = some w) {inner : String} {v : Value} {k : Nat} :
    WriteEnters N fs f room inner v k ↔
      element.target? = some inner ∧ ∃ count, fs.measure w = .ok count ∧
        count ≤ (fs.get f.decl.id).asItems.length ∧
        WriteElement (N inner) ((fs.get f.decl.id).asItems.take count) room v k := by
  constructor
  · intro h
    cases h with
    | nested htarget => simp [htype, FieldType.target?] at htarget
    | element htype' htarget hwidth' hcount hstored hreach =>
      obtain rfl := FieldType.slice.inj (htype.symm.trans htype')
      obtain rfl := Option.some.inj (hwidth.symm.trans hwidth')
      exact ⟨htarget, _, hcount, hstored, hreach⟩
  · intro hfound
    obtain ⟨htarget, count, hcount, hstored, hreach⟩ := hfound
    exact .element htype htarget hwidth hcount hstored hreach

theorem writeField_slice_faults {element : FieldType} {w : Width}
    (htype : f.decl.type = .slice element) (hwidth : f.info.width = some w)
    (hplain : element.Plain fun _ => True) :
    Writing.Fails (.fault x) (writeField N record fs f room) ↔
      (∃ cause, fs.measure w = .error cause ∧ x = .ofPanic record (.arithmetic cause)) ∨
      ∃ inner v k, WriteEnters N fs f room inner v k ∧ Writing.Fails (.fault x) (N inner v k) := by
  simp only [writeField, htype, hwidth, writeEnters_slice htype hwidth]
  cases hm : fs.measure w with
  | error cause => simp [Writing.fails_some, eq_comm]
  | ok count =>
    dsimp only
    by_cases hshort : (fs.get f.decl.id).asItems.length < count
    · rw [if_pos hshort]
      constructor
      · intro hfails
        simp [Writing.fails_some] at hfails
      · intro hfails
        obtain ⟨cause, herror, _⟩ | ⟨inner, v, k, ⟨_, count', hcount, hstored, _⟩, _⟩ := hfails
        · simp at herror
        · obtain rfl := Except.ok.inj hcount
          omega
    · rw [if_neg hshort, writeElements_fails]
      constructor
      · intro hfound
        obtain ⟨v, k, hreach, hfails⟩ := hfound
        obtain ⟨inner, htarget, hfails⟩ := (writePlain_faults hplain).mp hfails
        rw [funext₂ fun v room => writePlain_target htarget _ _ v room] at hreach
        exact Or.inr ⟨inner, v, k, ⟨htarget, count, rfl, Nat.le_of_not_lt hshort, hreach⟩, hfails⟩
      · intro hfails
        obtain ⟨cause, herror, _⟩ | ⟨inner, v, k, ⟨htarget, count', hcount, _, hreach⟩, hfails⟩ :=
          hfails
        · simp at herror
        · obtain rfl := Except.ok.inj hcount
          refine ⟨v, k, ?_, (writePlain_faults hplain).mpr ⟨inner, htarget, hfails⟩⟩
          rw [funext₂ fun v room => writePlain_target htarget _ _ v room]
          exact hreach

/-- Writing a field faults in its width, or inside of a record that it holds. -/
theorem writeField_faults {entry : RecordEntry} {before : List FieldDecl}
    (hf : f.info.Consistent before f.decl.type) :
    Writing.Fails (.fault x) (writeField N entry.id fs f room) ↔
      Stage.Faults ⟨entry, fs, f⟩ x ∨
      ∃ inner v k, WriteEnters N fs f room inner v k ∧ Writing.Fails (.fault x) (N inner v k) := by
  refine Stage.faults_or_iff hf writeField_plain_faults
    (fun _ _ htype hw => writeField_constant_not_faults htype hw)
    (fun _ htype hw => writeField_byteRun_faults htype hw)
    (fun _ _ htype hw hplain => writeField_slice_faults htype hw hplain) ?_
  intro hfound
  obtain ⟨inner, v, k, henters, _⟩ := hfound
  exact henters.holds.imp_left fun htarget => ⟨inner, htarget⟩

end Field

/-- Writing a record comes to one of its fields, or to a field of a record inside. -/
inductive WriteVisits (r : Registry) : Nat → String → Value → Nat → Stage → Prop
  | here {n : Nat} {path : String} {v : Value} {room k : Nat} {entry : RecordEntry}
      {f : RecordedField} (hfind : r.find? path = some entry)
      (hreach : WriteReaches (writeTo r n) entry.id v.asFields entry.fields room f k) :
      WriteVisits r (n + 1) path v room ⟨entry, v.asFields, f⟩
  | inside {n : Nat} {path inner : String} {v u : Value} {room k l : Nat} {entry : RecordEntry}
      {f : RecordedField} {stage : Stage} (hfind : r.find? path = some entry)
      (hreach : WriteReaches (writeTo r n) entry.id v.asFields entry.fields room f k)
      (henters : WriteEnters (writeTo r n) v.asFields f k inner u l)
      (hvisits : WriteVisits r n inner u l stage) : WriteVisits r (n + 1) path v room stage

/-- Writing faults exactly if it comes to a field whose computed width breaks off. -/
theorem writeTo_faults_iff (hr : ∀ {id entry}, r.find? id = some entry → entry.WellFormed)
    {n : Nat} {path : String} {v : Value} {room : Nat} :
    Writing.Fails (.fault x) (writeTo r n path v room) ↔
      ∃ stage, WriteVisits r n path v room stage ∧ stage.Faults x := by
  induction n generalizing path v room with
  | zero =>
    constructor
    · exact fun h => absurd h Writing.not_fails_none
    · intro hfound
      obtain ⟨stage, hvisits, _⟩ := hfound
      cases hvisits
  | succ n ih =>
    cases hfind : r.find? path with
    | none =>
      constructor
      · intro hfails
        simp only [writeTo, hfind, Varint.write] at hfails
        split_ifs at hfails
        · simp [Writing.fails_some] at hfails
        · simp [Writing.fails_some] at hfails
        · exact absurd hfails Writing.not_fails_none
      · intro hfound
        obtain ⟨stage, hvisits, _⟩ := hfound
        cases hvisits with
        | here hother _ => simp [hfind] at hother
        | inside hother _ _ _ => simp [hfind] at hother
    | some entry =>
      rw [writeTo_record hfind, writeFields_fails]
      constructor
      · intro hfound
        obtain ⟨f, k, hreach, hfails⟩ := hfound
        obtain ⟨before, hf⟩ := (hr hfind).consistent_of_mem hreach.mem
        obtain hwidth | ⟨inner, u, l, henters, hinner⟩ := (writeField_faults hf).mp hfails
        · exact ⟨_, .here hfind hreach, hwidth⟩
        · obtain ⟨stage, hvisits, hstage⟩ := ih.mp hinner
          exact ⟨stage, .inside hfind hreach henters hvisits, hstage⟩
      · intro hfound
        obtain ⟨stage, hvisits, hstage⟩ := hfound
        cases hvisits with
        | @here _ _ _ _ k _ f hother hreach =>
          obtain rfl := Option.some.inj (hfind.symm.trans hother)
          obtain ⟨before, hf⟩ := (hr hfind).consistent_of_mem hreach.mem
          exact ⟨f, k, hreach, (writeField_faults hf).mpr (Or.inl hstage)⟩
        | @inside _ _ inner _ u _ k l _ f _ hother hreach henters hvisits =>
          obtain rfl := Option.some.inj (hfind.symm.trans hother)
          obtain ⟨before, hf⟩ := (hr hfind).consistent_of_mem hreach.mem
          exact ⟨f, k, hreach, (writeField_faults hf).mpr
            (Or.inr ⟨inner, u, l, henters, ih.mpr ⟨stage, hvisits, hstage⟩⟩)⟩

end Writing

end Codec

end WireRecords
