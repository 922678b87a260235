import WireRecords.Proofs.Codec.Truncation

/-!
# Reading without the check for slices

Before the elements of a slice are read, input that cannot hold them all is refused, provided that
their width is known. `readUnchecked` reads without this check. It can fail later and for another
reason, but it fails where reading fails: elements that can all be read take as many bytes as the
check asks for, since a known width is that of every element.
-/
namespace WireRecords.Codec

/-- Reads a field into a record with the given fields, a slice without the check. -/
def readFieldUnchecked (r : Registry) (nested : Reader) (record : String) (fs : Fields)
    (f : RecordedField) (bytes : List UInt8) : Option (Reading Fields) :=
  match f.decl.type, f.info.width with
  | .slice element, some w =>
    match fs.measure w with
    | .error fault => some ⟨fs, bytes, some (.fault (.ofPanic record (.arithmetic fault)))⟩
    | .ok count =>
      (readElements (fun bytes => readPlain nested ⟨record, f.decl.id⟩ f.info.endian
        (initialOf (initial r) element) bytes element) count bytes).map fun q =>
          ⟨fs.set f.decl.id (.list q.value), q.rest, q.error⟩
  | _, _ => readField r nested record fs f bytes

def readFieldsUnchecked (r : Registry) (nested : Reader) (record : String) :
    Fields → List RecordedField → List UInt8 → Option (Reading Fields)
  | fs, [], bytes => some ⟨fs, bytes, none⟩
  | fs, f :: rest, bytes =>
    match readFieldUnchecked r nested record fs f bytes with
    | some ⟨fs, bytes, none⟩ => readFieldsUnchecked r nested record fs rest bytes
    | failed => failed

/-- `readInhabited` without the check. -/
def readUnchecked (r : Registry) : Nat → Reader
  | 0 => fun _ _ _ => none
  | depth + 1 => fun path receiver bytes =>
    if (initial r path).fits r (.nested path) then
      match r.find? path with
      | some e =>
        (readFieldsUnchecked r (readUnchecked r depth) e.id receiver.asFields e.fields bytes).map
          fun q => ⟨.record q.value, q.rest, q.error⟩
      | none => readLevel r (readUnchecked r depth) path receiver bytes
    else none

/-! ### Readers that succeed alike -/

/-- Where `N` succeeds, so does `M`, with the same outcome. -/
def SucceedsAs (N M : Reader) : Prop :=
  ∀ ⦃path v bs x rest⦄, N path v bs = some ⟨x, rest, none⟩ → M path v bs = some ⟨x, rest, none⟩

theorem ReadsWidths.of_succeedsAs {r : Registry} {N M : Reader} (hM : ReadsWidths r M)
    (h : SucceedsAs N M) : ReadsWidths r N :=
  fun _ _ _ _ _ _ hread hw => hM (h hread) hw

section Succeeds

variable {r : Registry} {N M : Reader} (h : SucceedsAs N M) {record : String} {fs gs : Fields}
  {f : RecordedField} {before : List RecordedField} {bs rest : List UInt8}

theorem readElements_succeedsAs {E F : List UInt8 → Option (Reading Value)}
    (hE : ∀ {bs v rest}, E bs = some ⟨v, rest, none⟩ → F bs = some ⟨v, rest, none⟩) {count : Nat}
    {items : List Value} (hread : readElements E count bs = some ⟨items, rest, none⟩) :
    readElements F count bs = some ⟨items, rest, none⟩ := by
  induction count generalizing bs items with
  | zero => exact hread
  | succ count ih =>
    obtain ⟨v, mid, vs, hfirst, hrest, rfl⟩ := readElements_succ_ok.mp hread
    exact readElements_succ_ok.mpr ⟨v, mid, vs, hE hfirst, ih hrest, rfl⟩

include h

theorem readPlain_succeedsAs {name : FieldName} {endian : Endian} {v x : Value} {type : FieldType}
    (hread : readPlain N name endian v bs type = some ⟨x, rest, none⟩) :
    readPlain M name endian v bs type = some ⟨x, rest, none⟩ := by
  unfold readPlain at hread ⊢
  split at hread
  · exact hread
  · exact hread
  · exact h hread
  · exact h hread
  · exact hread

theorem readField_succeedsAs (hf : f.info.Determined before f.decl.type)
    (hread : readField r N record fs f bs = some ⟨gs, rest, none⟩) :
    readField r M record fs f bs = some ⟨gs, rest, none⟩ := by
  generalize htype : f.decl.type = type at hf
  cases hf with
  | plain hplain =>
    rw [← htype] at hplain
    obtain ⟨v, hv, rfl⟩ := (readField_plain_ok hplain).mp hread
    exact (readField_plain_ok hplain).mpr ⟨v, readPlain_succeedsAs h hv, rfl⟩
  | constant width =>
    exact (readField_constant_ok htype width).mpr ((readField_constant_ok htype width).mp hread)
  | byteRun width refs =>
    exact (readField_byteRun_ok htype width).mpr ((readField_byteRun_ok htype width).mp hread)
  | slice width hplain refs =>
    obtain ⟨count, items, hcount, hcheck, helements, rfl⟩ :=
      (readField_slice_ok htype width).mp hread
    exact (readField_slice_ok htype width).mpr ⟨count, items, hcount, hcheck,
      readElements_succeedsAs (readPlain_succeedsAs h) helements, rfl⟩

end Succeeds

/-! ### The check asks for nothing more -/

section Field

variable {r : Registry} {N : Reader} {record : String} {fs gs : Fields} {f : RecordedField}
  {bs rest : List UInt8}

theorem readFieldUnchecked_of_ne_slice (h : ∀ element, f.decl.type ≠ .slice element) :
    readFieldUnchecked r N record fs f bs = readField r N record fs f bs := by
  unfold readFieldUnchecked
  split
  · exact absurd ‹_› (h _)
  · rfl

theorem readFieldUnchecked_slice {element : FieldType} {w : Width}
    (htype : f.decl.type = .slice element) (hwidth : f.info.width = some w) :
    readFieldUnchecked r N record fs f bs =
      match fs.measure w with
      | .error fault => some ⟨fs, bs, some (.fault (.ofPanic record (.arithmetic fault)))⟩
      | .ok count =>
        (readElements (fun bs => readPlain N ⟨record, f.decl.id⟩ f.info.endian
          (initialOf (initial r) element) bs element) count bs).map fun q =>
            ⟨fs.set f.decl.id (.list q.value), q.rest, q.error⟩ := by
  have h := readFieldUnchecked.eq_def r N record fs f bs
  simp only [htype, hwidth] at h
  exact h

theorem readFieldUnchecked_slice_ok {element : FieldType} {w : Width}
    (htype : f.decl.type = .slice element) (hwidth : f.info.width = some w) :
    readFieldUnchecked r N record fs f bs = some ⟨gs, rest, none⟩ ↔
      ∃ count items, fs.measure w = .ok count ∧
        readElements (fun bs => readPlain N ⟨record, f.decl.id⟩ f.info.endian
          (initialOf (initial r) element) bs element) count bs = some ⟨items, rest, none⟩ ∧
        gs = fs.set f.decl.id (.list items) := by
  rw [readFieldUnchecked_slice htype hwidth]
  cases fs.measure w with
  | error fault => simp
  | ok count =>
    simp only [Except.ok.injEq, exists_and_left, exists_eq_left']
    exact map_ok (g := fun items => fs.set f.decl.id (.list items))

theorem readFieldUnchecked_ok_iff (hN : ReadsWidths r N) {before : List RecordedField}
    (hf : f.info.Determined before f.decl.type) :
    readFieldUnchecked r N record fs f bs = some ⟨gs, rest, none⟩ ↔
      readField r N record fs f bs = some ⟨gs, rest, none⟩ := by
  by_cases hslice : ∃ element, f.decl.type = .slice element
  · obtain ⟨element, htype⟩ := hslice
    rw [htype] at hf
    cases hf with
    | plain hplain => cases hplain
    | slice width hplain refs =>
      rw [readFieldUnchecked_slice_ok htype width, readField_slice_ok htype width]
      constructor
      · rintro ⟨count, items, hcount, helements, rfl⟩
        refine ⟨count, items, hcount, checkSlice_eq_none fun k hk => ?_, helements, rfl⟩
        -- The elements take `count * k` bytes, and a product of words can only be cut off.
        have hone : ∀ {bs v rest}, readPlain N ⟨record, f.decl.id⟩ f.info.endian
            (initialOf (initial r) element) bs element = some ⟨v, rest, none⟩ →
              bs.length = k + rest.length :=
          fun hread => readPlain_length hN hplain hread (Registry.plainWidth?_of_elementWidth? hk)
        have hlength := readElements_length hone helements
        omega
      · rintro ⟨count, items, hcount, _, helements, rfl⟩
        exact ⟨count, items, hcount, helements, rfl⟩
  · rw [readFieldUnchecked_of_ne_slice fun element htype => hslice ⟨element, htype⟩]

end Field

theorem readFieldsUnchecked_cons_ok {r : Registry} {N : Reader} {record : String}
    {fs gs : Fields} {f : RecordedField} {after : List RecordedField} {bs rest : List UInt8} :
    readFieldsUnchecked r N record fs (f :: after) bs = some ⟨gs, rest, none⟩ ↔
      ∃ next mid, readFieldUnchecked r N record fs f bs = some ⟨next, mid, none⟩ ∧
        readFieldsUnchecked r N record next after mid = some ⟨gs, rest, none⟩ := by
  simp only [readFieldsUnchecked]
  exact readOn_ok

theorem readFieldsUnchecked_ok_iff {r : Registry} {N M : Reader} (hN : ReadsWidths r N)
    (hNM : SucceedsAs N M) (hMN : SucceedsAs M N) {e : RecordEntry} (he : e.Determined)
    {before after : List RecordedField} (hsplit : e.fields = before ++ after) {record : String}
    {fs gs : Fields} {bs rest : List UInt8} :
    readFieldsUnchecked r N record fs after bs = some ⟨gs, rest, none⟩ ↔
      readFields r M record fs after bs = some ⟨gs, rest, none⟩ := by
  induction after generalizing before fs bs with
  | nil => rfl
  | cons f after ih =>
    have hf := he.field hsplit
    have hfield : ∀ {next mid}, readFieldUnchecked r N record fs f bs = some ⟨next, mid, none⟩ ↔
        readField r M record fs f bs = some ⟨next, mid, none⟩ := by
      intro next mid
      rw [readFieldUnchecked_ok_iff hN hf]
      exact ⟨readField_succeedsAs hNM hf, readField_succeedsAs hMN hf⟩
    have hrest : ∀ {next mid}, readFieldsUnchecked r N record next after mid = some ⟨gs, rest, none⟩ ↔
        readFields r M record next after mid = some ⟨gs, rest, none⟩ :=
      ih (show e.fields = (before ++ [f]) ++ after by simp [hsplit])
    simp only [readFieldsUnchecked_cons_ok, readFields_cons_ok, hfield, hrest]

section Sound

variable {allowed : String → Prop} {r : Registry} (hr : r.Sound allowed)

include hr

theorem readInhabited_readsWidths (n : Nat) : ReadsWidths r (readInhabited r n) := by
  induction n with
  | zero =>
    intro path v bs x rest w h
    simp [readInhabited] at h
  | succ n ih =>
    intro path v bs x rest w h hw
    exact readLevel_readsWidths hr ih (readInhabited_succ.mp h).2 hw

/-- Reading without the check succeeds where reading does, with the same outcome. -/
theorem readUnchecked_ok_iff {n : Nat} {path : String} {v x : Value} {bs rest : List UInt8} :
    readUnchecked r n path v bs = some ⟨x, rest, none⟩ ↔
      readInhabited r n path v bs = some ⟨x, rest, none⟩ := by
  induction n generalizing path v x bs rest with
  | zero => simp [readUnchecked, readInhabited]
  | succ n ih =>
    have hunder : SucceedsAs (readUnchecked r n) (readInhabited r n) := fun _ _ _ _ _ => ih.mp
    have hover : SucceedsAs (readInhabited r n) (readUnchecked r n) := fun _ _ _ _ _ => ih.mpr
    simp only [readUnchecked, readInhabited]
    split
    · cases hfind : r.find? path with
      | none => simp only [readLevel, hfind]
      | some e =>
        rw [readLevel_record_ok hfind, map_ok]
        refine exists_congr fun gs => and_comm.trans (and_congr_right fun _ => ?_)
        exact readFieldsUnchecked_ok_iff ((readInhabited_readsWidths hr n).of_succeedsAs hunder)
          hunder hover (hr hfind).determined (List.nil_append _).symm
    · rfl

theorem readUnchecked_readsWidths (n : Nat) : ReadsWidths r (readUnchecked r n) :=
  (readInhabited_readsWidths hr n).of_succeedsAs fun _ _ _ _ _ => (readUnchecked_ok_iff hr).mp

end Sound

theorem initial_fits_of_readUnchecked {r : Registry} {n : Nat} {path : String} {v : Value}
    {bs : List UInt8} {q : Reading Value} (h : readUnchecked r n path v bs = some q) :
    (initial r path).fits r (.nested path) = true := by
  cases n with
  | zero => simp [readUnchecked] at h
  | succ n =>
    simp only [readUnchecked] at h
    split at h
    · assumption
    · simp at h

end WireRecords.Codec
