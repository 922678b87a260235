import WireRecords.Codec.Value
import WireRecords.Proofs.Codec.Integer
import WireRecords.Proofs.Codec.Sound

/-!
# Values of a record

Which values a type can hold, and what a value becomes when its byte runs and slices are cut to the
lengths that their widths ask for. Fields are handled through their names and `Fields.get` only.
-/
namespace WireRecords

namespace RecordEntry

/-- The fields that are kept in memory. -/
def stored (e : RecordEntry) : List RecordedField := e.fields.filter (·.decl.type.isStored)

end RecordEntry

namespace Codec

namespace Fields

def keys (fs : Fields) : List String := fs.map (·.1)

@[simp] theorem keys_cons (id : String) (v : Value) (fs : Fields) :
    keys ((id, v) :: fs) = id :: keys fs := rfl

theorem get_cons (k : String) (v : Value) (fs : Fields) (id : String) :
    get ((k, v) :: fs) id = if id = k then v else get fs id := by
  by_cases h : id = k
  · simp [get, h]
  · have hb : (id == k) = false := by simpa using h
    simp [get, List.lookup_cons, hb, h]

@[simp] theorem keys_set (fs : Fields) (id : String) (v : Value) :
    (fs.set id v).keys = fs.keys := by
  simp only [keys, set, List.map_map]
  apply List.map_congr_left
  intro f _
  by_cases h : f.1 = id <;> simp [h]

theorem set_cons (k : String) (w : Value) (fs : Fields) (id : String) (v : Value) :
    set ((k, w) :: fs) id v = (if k = id then (id, v) else (k, w)) :: set fs id v := rfl

theorem get_set_self {fs : Fields} {id : String} (v : Value) (h : id ∈ fs.keys) :
    (fs.set id v).get id = v := by
  induction fs with
  | nil => simp [keys] at h
  | cons f fs ih =>
    obtain ⟨k, w⟩ := f
    rw [set_cons]
    by_cases hk : k = id
    · simp [hk, get_cons]
    · have hid : id ∈ keys fs := by
        rcases List.mem_cons.mp h with he | hm
        · exact absurd he.symm hk
        · exact hm
      rw [if_neg hk, get_cons, if_neg (fun he => hk he.symm)]
      exact ih hid

theorem get_set_of_ne {fs : Fields} {id other : String} (v : Value) (h : other ≠ id) :
    (fs.set id v).get other = fs.get other := by
  induction fs with
  | nil => rfl
  | cons f fs ih =>
    obtain ⟨k, w⟩ := f
    rw [set_cons]
    by_cases hk : k = id
    · rw [if_pos hk, get_cons, get_cons, if_neg h, if_neg (hk ▸ h)]
      exact ih
    · rw [if_neg hk, get_cons, get_cons, ih]

/-- Fields with the same names in the same order are equal when they hold the same. -/
theorem ext_get {fs gs : Fields} (hk : fs.keys = gs.keys) (hn : fs.keys.Nodup)
    (h : ∀ id ∈ fs.keys, fs.get id = gs.get id) : fs = gs := by
  induction fs generalizing gs with
  | nil =>
    cases gs with
    | nil => rfl
    | cons g gs => simp [keys] at hk
  | cons f fs ih =>
    cases gs with
    | nil => simp [keys] at hk
    | cons g gs =>
      obtain ⟨k, v⟩ := f
      obtain ⟨k', w⟩ := g
      simp only [keys_cons, List.cons.injEq] at hk
      obtain ⟨rfl, hk⟩ := hk
      rw [keys_cons, List.nodup_cons] at hn
      have hv := h k (by simp)
      simp only [get_cons, if_true] at hv
      have hrest : fs = gs := by
        apply ih hk hn.2
        intro id hid
        have hne : id ≠ k := fun he => hn.1 (he ▸ hid)
        have hg := h id (by simp [hid])
        rwa [get_cons, get_cons, if_neg hne, if_neg hne] at hg
      rw [hv, hrest]

theorem lookup_eq {fs : Fields} {id : String} (h : id ∈ fs.keys) :
    fs.lookup id = some (fs.get id) := by
  induction fs with
  | nil => simp [keys] at h
  | cons f fs ih =>
    obtain ⟨k, v⟩ := f
    rw [get_cons, List.lookup_cons]
    by_cases hk : id = k
    · simp [hk]
    · have hid : id ∈ keys fs := (List.mem_cons.mp h).resolve_left hk
      rw [if_neg hk, ih hid, beq_eq_false_iff_ne.mpr hk]

theorem set_set (fs : Fields) (id : String) (v w : Value) :
    (fs.set id v).set id w = fs.set id w := by
  simp only [set, List.map_map]
  apply List.map_congr_left
  intro f _
  by_cases h : f.1 = id <;> simp [h]

/-- What is stored again changes nothing. -/
theorem set_get {fs : Fields} {id : String} (hn : fs.keys.Nodup) (hid : id ∈ fs.keys) :
    fs.set id (fs.get id) = fs := by
  refine ext_get (keys_set _ _ _) (by rwa [keys_set]) fun other _ => ?_
  by_cases heq : other = id
  · rw [heq, get_set_self _ hid]
  · rw [get_set_of_ne _ heq]

theorem get_depth_le {fs : Fields} {id : String} (h : id ∈ fs.keys) :
    (fs.get id).depth ≤ Value.depthFields fs := by
  induction fs with
  | nil => simp [keys] at h
  | cons f fs ih =>
    obtain ⟨k, v⟩ := f
    simp only [get_cons, Value.depthFields]
    split
    · exact le_max_left _ _
    · rename_i hne
      have hid : id ∈ keys fs := (List.mem_cons.mp h).resolve_left hne
      exact (ih hid).trans (le_max_right _ _)

end Fields

end Codec

/-- The value of a width depends on the fields that it refers to. -/
theorem Width.eval_congr {value value' : String → Nat} {w : Width}
    (h : ∀ id ∈ w.refs, value id = value' id) : w.eval value = w.eval value' := by
  induction w with
  | literal n => rfl
  | field id => simp [eval, h id (by simp [refs])]
  | binary op lhs rhs ihl ihr =>
    have hl := ihl fun id hid => h id (by simp [refs, hid])
    have hr := ihr fun id hid => h id (by simp [refs, hid])
    simp only [eval, hl, hr]

namespace Codec

theorem Fields.measure_congr {fs gs : Fields} {w : Width}
    (h : ∀ id ∈ w.refs, fs.get id = gs.get id) : fs.measure w = gs.measure w :=
  Width.eval_congr fun id hid => by rw [h id hid]

namespace Value

mutual

/-- Whether a value is one of a type. -/
def fits (r : Registry) : Value → FieldType → Bool
  | integer v, type =>
    match type with
    | .scalar s => decide (s.Holds v)
    | type =>
      type.target? == some Varint.path && (r.find? Varint.path).isNone &&
        decide (0 ≤ v ∧ v < wordCount)
  | bytes data, type =>
    match type with
    | .bytes length => data.length == length
    | .byteRun => true
    | _ => false
  | list items, type =>
    match type with
    | .slice element => itemsFit r items element
    | _ => false
  | record fields, type =>
    match type.target?.bind r.find? with
    | some e => fieldsFit r fields e.stored
    | none => false

def itemsFit (r : Registry) : List Value → FieldType → Bool
  | [], _ => true
  | v :: vs, element => v.fits r element && itemsFit r vs element

def fieldsFit (r : Registry) : List (String × Value) → List RecordedField → Bool
  | [], [] => true
  | (id, v) :: vs, f :: fs => id == f.decl.id && v.fits r f.decl.type && fieldsFit r vs fs
  | _, _ => false

end

theorem itemsFit_iff {r : Registry} {items : List Value} {element : FieldType} :
    itemsFit r items element = true ↔ ∀ v ∈ items, v.fits r element = true := by
  induction items with
  | nil => simp [itemsFit]
  | cons v items ih => simp [itemsFit, ih]

theorem fits_scalar {r : Registry} {v : Value} {s : Scalar} :
    v.fits r (.scalar s) = true ↔ ∃ n, v = integer n ∧ s.Holds n := by
  cases v <;> simp [fits, FieldType.target?]

theorem fits_bytes {r : Registry} {v : Value} {length : Nat} :
    v.fits r (.bytes length) = true ↔ ∃ data, v = bytes data ∧ data.length = length := by
  cases v <;> simp [fits, FieldType.target?]

theorem fits_byteRun {r : Registry} {v : Value} :
    v.fits r .byteRun = true ↔ ∃ data, v = bytes data := by
  cases v <;> simp [fits, FieldType.target?]

theorem fits_slice {r : Registry} {v : Value} {element : FieldType} :
    v.fits r (.slice element) = true ↔
      ∃ items, v = list items ∧ ∀ w ∈ items, w.fits r element = true := by
  cases v <;> simp [fits, FieldType.target?, itemsFit_iff]

theorem fieldsFit_iff {r : Registry} {fs : Fields} {fields : List RecordedField}
    (hn : (fields.map (·.decl.id)).Nodup) :
    fieldsFit r fs fields = true ↔ fs.keys = fields.map (·.decl.id) ∧
      ∀ f ∈ fields, (fs.get f.decl.id).fits r f.decl.type = true := by
  induction fields generalizing fs with
  | nil => cases fs <;> simp [fieldsFit, Fields.keys]
  | cons f fields ih =>
    cases fs with
    | nil => simp [fieldsFit, Fields.keys]
    | cons p fs =>
      obtain ⟨id, v⟩ := p
      rw [List.map_cons, List.nodup_cons] at hn
      simp only [fieldsFit, Bool.and_eq_true, beq_iff_eq, ih hn.2, Fields.keys_cons,
        List.map_cons, List.cons.injEq, List.forall_mem_cons, Fields.get_cons]
      -- The other fields have other names, so the first value does not hide theirs.
      have hne : ∀ g ∈ fields, g.decl.id ≠ f.decl.id := fun g hg he =>
        hn.1 (he ▸ List.mem_map_of_mem hg)
      constructor
      · rintro ⟨⟨rfl, hv⟩, hk, hrest⟩
        refine ⟨⟨rfl, hk⟩, by simpa using hv, fun g hg => ?_⟩
        rw [if_neg (hne g hg)]
        exact hrest g hg
      · rintro ⟨⟨rfl, hk⟩, hv, hrest⟩
        refine ⟨⟨rfl, by simpa using hv⟩, hk, fun g hg => ?_⟩
        have hg' := hrest g hg
        rwa [if_neg (hne g hg)] at hg'

end Value

/-- Fields that hold a value for every stored field of a record, in wire order. -/
structure Fields.Fit (r : Registry) (e : RecordEntry) (fs : Fields) : Prop where
  keys : fs.keys = e.stored.map (·.decl.id)
  value : ∀ f ∈ e.fields, f.decl.type.isStored = true →
    (fs.get f.decl.id).fits r f.decl.type = true

end Codec

theorem RecordEntry.stored_nodup {e : RecordEntry} (h : (e.fields.map (·.decl.id)).Nodup) :
    (e.stored.map (·.decl.id)).Nodup :=
  h.sublist (List.filter_sublist.map _)

theorem RecordEntry.mem_stored {e : RecordEntry} {f : RecordedField} :
    f ∈ e.stored ↔ f ∈ e.fields ∧ f.decl.type.isStored = true := by
  simp [stored]

theorem FieldType.target?_eq_some {type : FieldType} {path : String}
    (h : type.target? = some path) : type = .nested path ∨ type = .boxed (.nested path) := by
  unfold target? at h
  split at h
  · exact Or.inl (by rw [Option.some.inj h])
  · exact Or.inr (by rw [Option.some.inj h])
  · simp at h

namespace Codec

/-- The values of a record are records with fitting fields. -/
theorem Value.fits_record {r : Registry} {type : FieldType} {path : String} {e : RecordEntry}
    {v : Value} (ht : type.target? = some path) (hf : r.find? path = some e)
    (hn : (e.fields.map (·.decl.id)).Nodup) :
    v.fits r type = true ↔ ∃ fs : Fields, v = .record fs ∧ Fields.Fit r e fs := by
  have hfit : ∀ fs, fieldsFit r fs e.stored = true ↔ Fields.Fit r e fs := by
    intro fs
    rw [fieldsFit_iff (RecordEntry.stored_nodup hn)]
    constructor
    · rintro ⟨hk, hv⟩
      exact ⟨hk, fun f hf hs => hv f (RecordEntry.mem_stored.mpr ⟨hf, hs⟩)⟩
    · intro h
      refine ⟨h.keys, fun f hf => ?_⟩
      obtain ⟨hmem, hs⟩ := RecordEntry.mem_stored.mp hf
      exact h.value f hmem hs
  have hvarint : path = Varint.path → r.find? Varint.path ≠ none := by
    rintro rfl
    simp [hf]
  rcases FieldType.target?_eq_some ht with rfl | rfl <;> cases v <;>
    simp_all [fits, FieldType.target?]

/-- The values of a type that is not in the registry are variable-length integers. -/
theorem Value.fits_varint {r : Registry} {type : FieldType} {path : String} {v : Value}
    (ht : type.target? = some path) (hf : r.find? path = none) :
    v.fits r type = true ↔
      path = Varint.path ∧ ∃ n : Nat, v = .integer n ∧ n < wordCount := by
  cases v with
  | integer i =>
    have hfits : (Value.integer i).fits r type = (type.target? == some Varint.path &&
        (r.find? Varint.path).isNone && decide (0 ≤ i ∧ i < wordCount)) := by
      rcases FieldType.target?_eq_some ht with rfl | rfl <;> rfl
    rw [hfits, ht]
    constructor
    · intro h
      simp only [Bool.and_eq_true, beq_iff_eq, Option.some.injEq, decide_eq_true_eq] at h
      refine ⟨h.1.1, i.toNat, ?_, by omega⟩
      rw [Int.toNat_of_nonneg h.2.1]
    · rintro ⟨rfl, n, hi, hn⟩
      obtain rfl := Value.integer.inj hi
      simpa [hf] using hn
  | bytes data => rcases FieldType.target?_eq_some ht with rfl | rfl <;> simp [fits]
  | list items => rcases FieldType.target?_eq_some ht with rfl | rfl <;> simp [fits]
  | record fs => simp [fits, ht, hf]

/-- A word is its own bit pattern. -/
theorem Value.word_of_lt {n : Nat} (h : n < wordCount) : (Value.integer n).word = n := by
  have hmod : (n : Int) % (wordCount : Int) = n :=
    Int.emod_eq_of_lt (by omega) (by exact_mod_cast h)
  rw [Value.word, Value.asInteger, hmod, Int.toNat_natCast]

/-- The length that a field's width asks for, where the field stores a length of its own. -/
def Fields.lengthOf (fs : Fields) (f : RecordedField) : Option Nat :=
  match f.decl.type with
  | .byteRun | .slice _ => f.info.width.bind fun w => (fs.measure w).toOption
  | _ => none

namespace Value

/-- The start of a byte run or slice. -/
def cut : Value → Option Nat → Value
  | bytes data, some length => bytes (data.take length)
  | list items, some length => list (items.take length)
  | v, _ => v

/-- The length of a byte run or slice in memory. -/
def storedLength : Value → Nat
  | bytes data => data.length
  | list items => items.length
  | _ => 0

mutual

/-- The value with every byte run and slice, at any depth, cut to the length its width asks for. -/
def trim (r : Registry) : Value → FieldType → Value
  | integer v, _ => integer v
  | bytes data, _ => bytes data
  | list items, type =>
    match type with
    | .slice element => list (trimItems r items element)
    | _ => list items
  | record fields, type =>
    match type.target?.bind r.find? with
    | some e => record (trimFields r e fields fields)
    | none => record fields

def trimItems (r : Registry) : List Value → FieldType → List Value
  | [], _ => []
  | v :: vs, element => v.trim r element :: trimItems r vs element

/-- Trims some of the fields `all` of a record. -/
def trimFields (r : Registry) (e : RecordEntry) (all : Fields) : List (String × Value) → Fields
  | [] => []
  | (id, v) :: fs =>
    match e.fields.find? (·.decl.id == id) with
    | some f => (id, (v.trim r f.decl.type).cut (all.lengthOf f)) :: trimFields r e all fs
    | none => (id, v) :: trimFields r e all fs

end

mutual

/-- Whether every stored length, at any depth, is the one that the width asks for. -/
def isExact (r : Registry) : Value → FieldType → Bool
  | integer _, _ | bytes _, _ => true
  | list items, type =>
    match type with
    | .slice element => itemsExact r items element
    | _ => true
  | record fields, type =>
    match type.target?.bind r.find? with
    | some e => fieldsExact r e fields fields
    | none => true

def itemsExact (r : Registry) : List Value → FieldType → Bool
  | [], _ => true
  | v :: vs, element => v.isExact r element && itemsExact r vs element

def fieldsExact (r : Registry) (e : RecordEntry) (all : Fields) : List (String × Value) → Bool
  | [] => true
  | (id, v) :: fs =>
    match e.fields.find? (·.decl.id == id) with
    | some f =>
      v.isExact r f.decl.type && (all.lengthOf f).all (· == v.storedLength) &&
        fieldsExact r e all fs
    | none => fieldsExact r e all fs

end

@[simp] theorem cut_none (v : Value) : v.cut none = v := by cases v <;> rfl

theorem cut_storedLength (v : Value) : v.cut (some v.storedLength) = v := by
  cases v <;> simp [cut, storedLength]

mutual

/-- Nothing is cut from a value whose lengths are exact. -/
theorem trim_of_isExact (r : Registry) :
    ∀ (v : Value) (type : FieldType), v.isExact r type = true → v.trim r type = v
  | integer _, _, _ => by simp [trim]
  | bytes _, _, _ => by simp [trim]
  | list items, type, h => by
    cases type with
    | slice element =>
      simp only [isExact] at h
      simp only [trim, trimItems_of_itemsExact r items element h]
    | _ => simp [trim]
  | record fields, type, h => by
    cases he : type.target?.bind r.find? with
    | none => simp [trim, he]
    | some e =>
      simp only [isExact, he] at h
      simp only [trim, he, trimFields_of_fieldsExact r e fields fields h]

theorem trimItems_of_itemsExact (r : Registry) :
    ∀ (items : List Value) (element : FieldType), itemsExact r items element = true →
      trimItems r items element = items
  | [], _, _ => by simp [trimItems]
  | v :: vs, element, h => by
    simp only [itemsExact, Bool.and_eq_true] at h
    simp only [trimItems, trim_of_isExact r v element h.1,
      trimItems_of_itemsExact r vs element h.2]

theorem trimFields_of_fieldsExact (r : Registry) (e : RecordEntry) (all : Fields) :
    ∀ fs : List (String × Value), fieldsExact r e all fs = true → trimFields r e all fs = fs
  | [], _ => by simp [trimFields]
  | (id, v) :: fs, h => by
    simp only [fieldsExact] at h
    cases hf : e.fields.find? (·.decl.id == id) with
    | none =>
      simp only [hf] at h
      simp only [trimFields, hf, trimFields_of_fieldsExact r e all fs h]
    | some f =>
      simp only [hf, Bool.and_eq_true] at h
      simp only [trimFields, hf, trim_of_isExact r v f.decl.type h.1.1,
        trimFields_of_fieldsExact r e all fs h.2]
      cases hl : all.lengthOf f with
      | none => simp
      | some n =>
        have hn : n = v.storedLength := by simpa [hl] using h.1.2
        rw [hn, cut_storedLength]

end

/-- A type and its boxed form have the same values, trimmed in the same way. -/
theorem trim_boxed (r : Registry) (v : Value) (path : String) :
    v.trim r (.boxed (.nested path)) = v.trim r (.nested path) := by
  cases v <;> simp [trim, FieldType.target?]

theorem trimItems_eq_map (r : Registry) (items : List Value) (element : FieldType) :
    trimItems r items element = items.map (·.trim r element) := by
  induction items with
  | nil => rfl
  | cons v items ih => simp [trimItems, ih]

theorem keys_trimFields (r : Registry) (e : RecordEntry) (all fs : Fields) :
    (trimFields r e all fs).keys = fs.keys := by
  induction fs with
  | nil => rfl
  | cons f fs ih =>
    obtain ⟨id, v⟩ := f
    simp only [trimFields]
    split <;> simp [ih]

end Value

end Codec

/-- Where names differ, an item is found by its name. -/
theorem find?_name {α : Type} {name : α → String} {items : List α} {a : α}
    (hn : (items.map name).Nodup) (ha : a ∈ items) :
    items.find? (name · == name a) = some a := by
  cases hs : items.find? (name · == name a) with
  | none =>
    have := List.find?_eq_none.mp hs a ha
    simp at this
  | some b =>
    have hid : name b = name a := by simpa using List.find?_some hs
    rw [List.inj_on_of_nodup_map hn (List.mem_of_find?_eq_some hs) ha hid]

theorem RecordEntry.find?_field {e : RecordEntry} {f : RecordedField}
    (hn : (e.fields.map (·.decl.id)).Nodup) (hf : f ∈ e.fields) :
    e.fields.find? (·.decl.id == f.decl.id) = some f :=
  find?_name hn hf

namespace Codec

/-- A trimmed field is its trimmed value, cut to the length of the field. -/
theorem Value.get_trimFields {r : Registry} {e : RecordEntry} {all fs : Fields}
    {f : RecordedField} (hn : (e.fields.map (·.decl.id)).Nodup) (hf : f ∈ e.fields)
    (hk : f.decl.id ∈ fs.keys) :
    (trimFields r e all fs).get f.decl.id =
      ((fs.get f.decl.id).trim r f.decl.type).cut (all.lengthOf f) := by
  induction fs with
  | nil => simp [Fields.keys] at hk
  | cons p fs ih =>
    obtain ⟨id, v⟩ := p
    by_cases hid : f.decl.id = id
    · subst hid
      simp [trimFields, RecordEntry.find?_field hn hf, Fields.get_cons]
    · have hk' : f.decl.id ∈ Fields.keys fs := (List.mem_cons.mp hk).resolve_left hid
      simp only [trimFields]
      split <;> rw [Fields.get_cons, Fields.get_cons, if_neg hid, if_neg hid, ih hk']

/-- The fields of a list with one value each hold these values. -/
theorem Fields.get_map {fields : List RecordedField} {f : RecordedField}
    (value : RecordedField → Value) (hn : (fields.map (·.decl.id)).Nodup) (hf : f ∈ fields) :
    Fields.get (fields.map fun g => (g.decl.id, value g)) f.decl.id = value f := by
  induction fields with
  | nil => simp at hf
  | cons g fields ih =>
    rw [List.map_cons, List.nodup_cons] at hn
    rw [List.map_cons, Fields.get_cons]
    rcases List.mem_cons.mp hf with rfl | hf
    · simp
    · have hne : f.decl.id ≠ g.decl.id := fun he => hn.1 (he ▸ List.mem_map_of_mem hf)
      rw [if_neg hne]
      exact ih hn.2 hf

end Codec

end WireRecords
