import WireRecords.Proofs.Codec.Success

/-!
# Known widths are kept

A record whose width is known takes that many bytes, whichever way it goes and whatever it holds.
The width was added up from its fields when it was sealed; here each field is shown to take its own.
-/
namespace WireRecords

/-- A width that refers to no field has one value. -/
theorem Width.eval_of_fold {w : Width} {n : Nat} (h : w.fold = some n) (value : String → Nat) :
    w.eval value = .ok n := by
  induction w generalizing n with
  | literal m => simpa [fold, eval] using h
  | field id => simp [fold] at h
  | binary op lhs rhs ihl ihr =>
    cases hl : lhs.fold with
    | none => simp [fold, hl] at h
    | some a =>
      cases hr : rhs.fold with
      | none => simp [fold, hl, hr] at h
      | some b =>
        simp only [fold, hl, hr] at h
        simp only [eval, ihl hl, ihr hr]
        cases happly : op.apply a b with
        | error fault => simp [happly, Except.toOption] at h
        | ok m => simpa [happly, Except.toOption] using h

namespace Registry

theorem plainWidth?_of_elementWidth? {r : Registry} {type : FieldType} {n : Nat}
    (h : r.elementWidth? type = some n) : r.plainWidth? type = some n := by
  cases type with
  | boxed inner => simp [elementWidth?] at h
  | _ => exact h

/-- The width of a field other than a slice is the one that was given. -/
theorem fieldWidth?_of_not_slice {r : Registry} {f : RecordedField} {n : Nat}
    (ht : ∀ element, f.decl.type ≠ .slice element) (h : r.fieldWidth? f = some n) :
    f.info.kind = .literal ∧ f.info.width.bind Width.fold = some n := by
  unfold fieldWidth? at h
  split at h
  · rename_i w hkind hwidth
    split at h
    · rename_i htype
      exact absurd htype (ht _)
    · exact ⟨hkind, by simp [hwidth, h]⟩
  · simp at h

/-- The width of a slice is that of its elements times their number. -/
theorem fieldWidth?_slice {r : Registry} {f : RecordedField} {element : FieldType} {n : Nat}
    (ht : f.decl.type = .slice element) (h : r.fieldWidth? f = some n) :
    ∃ w count width, f.info.width = some w ∧ w.fold = some count ∧
      r.elementWidth? element = some width ∧ n = count * width := by
  unfold fieldWidth? at h
  split at h
  · rename_i w hkind hwidth
    cases hfold : w.fold with
    | none => simp [hfold] at h
    | some count =>
      simp only [hfold, ht, Option.bind_eq_some_iff] at h
      obtain ⟨width, helement, hmul⟩ := h
      refine ⟨w, count, width, hwidth, hfold, helement, ?_⟩
      simp only [Operator.apply] at hmul
      split at hmul
      · rw [Nat.mul_comm]
        simpa [Except.toOption] using hmul.symm
      · simp [Except.toOption] at hmul
  · simp at h

end Registry

namespace Codec

theorem Fields.measure_of_fold {fs : Fields} {w : Width} {n : Nat} (h : w.fold = some n) :
    fs.measure w = .ok n :=
  Width.eval_of_fold h _

variable {allowed : String → Prop} {r : Registry}

/-! ### Writing -/

/-- A writer that keeps to the widths in the registry. -/
def WritesWidths (r : Registry) (N : Writer) : Prop :=
  ∀ ⦃path v room b w⦄, v.fits r (.nested path) = true → N path v room = some ⟨b, none⟩ →
    r.width? path = some w → b.length = w

section Writing

variable {N : Writer} (hN : WritesWidths r N)

include hN

theorem writePlain_length {name : FieldName} {endian : Endian} {v : Value} {room n : Nat}
    {type : FieldType} {b : List UInt8} (hp : type.Plain allowed) (hv : v.fits r type = true)
    (h : writePlain N name endian v room type = some ⟨b, none⟩)
    (hw : r.plainWidth? type = some n) : b.length = n := by
  cases hp with
  | scalar s =>
    obtain ⟨rfl, _⟩ := writePlain_scalar_ok.mp h
    rw [Scalar.encode_length]
    exact Option.some.inj hw
  | bytes length =>
    obtain ⟨rfl, _⟩ := writePlain_bytes_ok.mp h
    obtain ⟨data, rfl, rfl⟩ := Value.fits_bytes.mp hv
    exact Option.some.inj hw
  | nested _ => exact hN hv h hw
  | boxed _ => exact hN (Value.fits_boxed r v _ ▸ hv) h hw

omit hN in
theorem writeElements_length {E : Value → Nat → Option Writing} {items : List Value}
    {room k : Nat} {b : List UInt8}
    (hE : ∀ v ∈ items, ∀ {room b}, E v room = some ⟨b, none⟩ → b.length = k)
    (h : writeElements E items room = some ⟨b, none⟩) : b.length = items.length * k := by
  induction items generalizing room b with
  | nil => simp [writeElements_nil_ok.mp h]
  | cons v items ih =>
    obtain ⟨b₁, b₂, hfirst, hrest, rfl⟩ := writeElements_cons_ok.mp h
    have h₁ := hE v List.mem_cons_self hfirst
    have h₂ := ih (fun w hw => hE w (List.mem_cons_of_mem v hw)) hrest
    rw [List.length_append, List.length_cons, Nat.succ_mul, h₁, h₂, Nat.add_comm]

theorem writeField_length {e : RecordEntry} {before after : List RecordedField}
    {f : RecordedField} {record : String} {fs : Fields} {room n : Nat} {b : List UInt8}
    (he : r.SoundRecord allowed e) (hs : e.fields = before ++ f :: after) (hfit : fs.Fit r e)
    (h : writeField N record fs f room = some ⟨b, none⟩) (hw : r.fieldWidth? f = some n) :
    b.length = n := by
  have hmem : f ∈ e.fields := by simp [hs]
  have hfield := he.field hs
  generalize ht : f.decl.type = type at hfield
  cases hfield with
  | plain hp known =>
    rw [← ht] at hp known
    obtain ⟨hkind, hfold⟩ := Registry.fieldWidth?_of_not_slice hp.ne_slice hw
    rw [writeField_plain hp] at h
    exact writePlain_length hN hp (hfit.value f hmem hp.isStored) h (known n hkind hfold)
  | constant hwidth =>
    obtain ⟨_, hfold⟩ := Registry.fieldWidth?_of_not_slice (by simp [ht]) hw
    obtain ⟨rfl, _⟩ := (writeField_constant_ok ht hwidth).mp h
    rw [padded_length]
    simpa [hwidth, Width.fold] using hfold
  | byteRun hwidth kind refs =>
    obtain ⟨hkind, _⟩ := Registry.fieldWidth?_of_not_slice (by simp [ht]) hw
    simp [kind] at hkind
  | slice hwidth hp refs =>
    obtain ⟨w, count, width, hwidth', hfold, helement, rfl⟩ := Registry.fieldWidth?_slice ht hw
    obtain ⟨items, hitems, hall⟩ := Value.fits_slice.mp (ht ▸ hfit.value f hmem (by rw [ht]; rfl))
    obtain ⟨count', hmeasure, hle, hwrite⟩ := (writeField_slice_ok ht hwidth').mp h
    rw [Fields.measure_of_fold hfold, Except.ok.injEq] at hmeasure
    subst hmeasure
    simp only [hitems, Value.asItems] at hwrite hle
    have hlen := writeElements_length (fun v hv {room b} hone =>
      writePlain_length hN hp (hall v (List.mem_of_mem_take hv)) hone
        (Registry.plainWidth?_of_elementWidth? helement)) hwrite
    rw [hlen, List.length_take, Nat.min_eq_left hle]

theorem writeFields_length {e : RecordEntry} {before after : List RecordedField}
    {record : String} {fs : Fields} {room : Nat} {ns : List Nat} {b : List UInt8}
    (he : r.SoundRecord allowed e) (hs : e.fields = before ++ after) (hfit : fs.Fit r e)
    (h : writeFields N record fs after room = some ⟨b, none⟩)
    (hns : after.map r.fieldWidth? = ns.map some) : b.length = ns.sum := by
  induction after generalizing before room ns b with
  | nil =>
    obtain rfl : ns = [] := by simpa using hns
    simp [writeFields_nil_ok.mp h]
  | cons f after ih =>
    cases ns with
    | nil => simp at hns
    | cons n ns =>
      simp only [List.map_cons, List.cons.injEq] at hns
      obtain ⟨b₁, b₂, hfirst, hrest, rfl⟩ := writeFields_cons_ok.mp h
      have hs' : e.fields = (before ++ [f]) ++ after := by simp [hs]
      have h₁ := writeField_length hN he hs hfit hfirst hns.1
      have h₂ := ih hs' hrest hns.2
      rw [List.length_append, List.sum_cons, h₁, h₂]

end Writing

theorem writeTo_writesWidths (hr : r.Sound allowed) (n : Nat) : WritesWidths r (writeTo r n) := by
  induction n with
  | zero =>
    intro path v room b w hv h
    simp [writeTo] at h
  | succ n ih =>
    intro path v room b w hv h hw
    obtain ⟨e, hf, hwidth⟩ := Option.bind_eq_some_iff.mp hw
    rw [writeTo_record hf] at h
    obtain ⟨ns, hns, rfl⟩ := (hr hf).width hwidth
    obtain ⟨fs, rfl, hfit⟩ := (Value.fits_record rfl hf (hr hf).nodup).mp hv
    exact writeFields_length ih (hr hf) (List.nil_append _).symm hfit h hns

/-! ### Reading -/

/-- A reader that keeps to the widths in the registry, whatever its receiver. -/
def ReadsWidths (r : Registry) (N : Reader) : Prop :=
  ∀ ⦃path v bs x rest w⦄, N path v bs = some ⟨x, rest, none⟩ → r.width? path = some w →
    bs.length = w + rest.length

section Reading

variable {N : Reader} (hN : ReadsWidths r N)

include hN

theorem readPlain_length {name : FieldName} {endian : Endian} {v x : Value} {n : Nat}
    {type : FieldType} {bs rest : List UInt8} (hp : type.Plain allowed)
    (h : readPlain N name endian v bs type = some ⟨x, rest, none⟩)
    (hw : r.plainWidth? type = some n) : bs.length = n + rest.length := by
  cases hp with
  | scalar s =>
    obtain ⟨word, hword, rfl, _⟩ := readPlain_scalar_ok.mp h
    rw [List.length_append, hword, ← Option.some.inj hw]
  | bytes length =>
    obtain ⟨data, hdata, rfl, _⟩ := readPlain_bytes_ok.mp h
    rw [List.length_append, hdata, ← Option.some.inj hw]
  | nested _ => exact hN h hw
  | boxed _ => exact hN h hw

omit hN in
theorem readElements_length {E : List UInt8 → Option (Reading Value)} {count k : Nat}
    {items : List Value} {bs rest : List UInt8}
    (hE : ∀ {bs v rest}, E bs = some ⟨v, rest, none⟩ → bs.length = k + rest.length)
    (h : readElements E count bs = some ⟨items, rest, none⟩) :
    bs.length = count * k + rest.length := by
  induction count generalizing bs items with
  | zero =>
    simp only [readElements, Option.some.injEq, Reading.mk.injEq] at h
    simp [h.2.1]
  | succ count ih =>
    obtain ⟨v, mid, vs, hfirst, hrest, _⟩ := readElements_succ_ok.mp h
    have h₁ := hE hfirst
    have h₂ := ih hrest
    rw [h₁, h₂, Nat.succ_mul]
    omega

theorem readField_length {e : RecordEntry} {before after : List RecordedField}
    {f : RecordedField} {record : String} {fs gs : Fields} {n : Nat} {bs rest : List UInt8}
    (he : r.SoundRecord allowed e) (hs : e.fields = before ++ f :: after)
    (h : readField r N record fs f bs = some ⟨gs, rest, none⟩) (hw : r.fieldWidth? f = some n) :
    bs.length = n + rest.length := by
  have hfield := he.field hs
  generalize ht : f.decl.type = type at hfield
  cases hfield with
  | plain hp known =>
    rw [← ht] at hp known
    obtain ⟨hkind, hfold⟩ := Registry.fieldWidth?_of_not_slice hp.ne_slice hw
    obtain ⟨v, hread, _⟩ := (readField_plain_ok hp).mp h
    exact readPlain_length hN hp hread (known n hkind hfold)
  | constant hwidth =>
    obtain ⟨_, hfold⟩ := Registry.fieldWidth?_of_not_slice (by simp [ht]) hw
    obtain ⟨rfl, _⟩ := (readField_constant_ok ht hwidth).mp h
    simp only [hwidth, Option.bind_some, Width.fold, Option.some.injEq] at hfold
    rw [List.length_append, padded_length, hfold]
  | byteRun hwidth kind refs =>
    obtain ⟨hkind, _⟩ := Registry.fieldWidth?_of_not_slice (by simp [ht]) hw
    simp [kind] at hkind
  | slice hwidth hp refs =>
    obtain ⟨w, count, width, hwidth', hfold, helement, rfl⟩ := Registry.fieldWidth?_slice ht hw
    obtain ⟨count', items, hmeasure, _, hread, _⟩ := (readField_slice_ok ht hwidth').mp h
    rw [Fields.measure_of_fold hfold, Except.ok.injEq] at hmeasure
    subst hmeasure
    exact readElements_length (fun hone => readPlain_length hN hp hone
      (Registry.plainWidth?_of_elementWidth? helement)) hread

theorem readFields_length {e : RecordEntry} {before after : List RecordedField}
    {record : String} {fs gs : Fields} {ns : List Nat} {bs rest : List UInt8}
    (he : r.SoundRecord allowed e) (hs : e.fields = before ++ after)
    (h : readFields r N record fs after bs = some ⟨gs, rest, none⟩)
    (hns : after.map r.fieldWidth? = ns.map some) : bs.length = ns.sum + rest.length := by
  induction after generalizing before fs ns bs with
  | nil =>
    obtain rfl : ns = [] := by simpa using hns
    simp only [readFields, Option.some.injEq, Reading.mk.injEq] at h
    simp [h.2.1]
  | cons f after ih =>
    cases ns with
    | nil => simp at hns
    | cons n ns =>
      simp only [List.map_cons, List.cons.injEq] at hns
      obtain ⟨next, mid, hfirst, hrest⟩ := readFields_cons_ok.mp h
      have hs' : e.fields = (before ++ [f]) ++ after := by simp [hs]
      have h₁ := readField_length hN he hs hfirst hns.1
      have h₂ := ih hs' hrest hns.2
      rw [h₁, h₂, List.sum_cons, Nat.add_assoc]

end Reading

theorem readLevel_readsWidths (hr : r.Sound allowed) {N : Reader} (hN : ReadsWidths r N) :
    ReadsWidths r (readLevel r N) := by
  intro path v bs x rest w h hw
  obtain ⟨e, hf, hwidth⟩ := Option.bind_eq_some_iff.mp hw
  obtain ⟨gs, _, hread⟩ := (readLevel_record_ok hf).mp h
  obtain ⟨ns, hns, rfl⟩ := (hr hf).width hwidth
  exact readFields_length hN (hr hf) (List.nil_append _).symm hread hns

theorem readTo_readsWidths (hr : r.Sound allowed) (n : Nat) : ReadsWidths r (readTo r n) := by
  induction n with
  | zero =>
    intro path v bs x rest w h
    simp [readTo] at h
  | succ n ih => exact readLevel_readsWidths hr ih

/-- Where the width of a record is known, every value of it is written in that many bytes and
reading it takes that many, into whatever receiver and from whatever bytes. -/
theorem known_width_exact {config : Config} {units : List CompilationUnit} {p : Progress}
    (h : compile config units = .ok p)
    (hs : SelfContained [Varint.path] (declared config units)) {path : String} {w : Nat}
    (hw : p.compilation.registry.width? path = some w) :
    (∀ v room b, v.fits p.compilation.registry (.nested path) = true →
      write p.compilation.registry path v room = some ⟨b, none⟩ → b.length = w) ∧
    ∀ v bs x rest, read p.compilation.registry path v bs = some ⟨x, rest, none⟩ →
      ∃ taken, bs = taken ++ rest ∧ taken.length = w := by
  obtain ⟨hr, _⟩ := compile_sound (by decide) h hs
  constructor
  · intro v room b hv hwrite
    exact writeTo_writesWidths hr _ hv hwrite hw
  · intro v bs x rest hread
    obtain ⟨taken, rfl⟩ : rest <:+ bs := readTo_consumes _ _ hread
    have hlen := readTo_readsWidths hr _ hread hw
    rw [List.length_append] at hlen
    exact ⟨taken, rfl, by omega⟩

/-- A run whose records have known widths: a constant, a nested record, a slice of records. -/
def frames : List CompilationUnit :=
  [.inline "frames" ["Pair lo[1] hi[2,,BE]",
    "Frame kind[1] first[3, Pair] others[2, []Pair] mark[4, \"ab\"]"]]

/-- A frame in memory. -/
def frame : Value :=
  let pair (lo hi : Int) : Value := .record [("lo", .integer lo), ("hi", .integer hi)]
  .record [("kind", .integer 7), ("first", pair 1 258),
    ("others", .list [pair 2 3, pair 255 65535])]

/-- The same frame on the wire. -/
def frameBytes : List UInt8 := [7, 1, 1, 2, 2, 0, 3, 255, 255, 255, 97, 98, 0, 0]

theorem frames_selfContained : SelfContained [Varint.path] (declared {} frames) := by
  decide +kernel

theorem frames_run : ∃ p ∈ (compile {} frames).toOption,
    p.compilation.registry.width? "Frame" = some 14 ∧
    frame.fits p.compilation.registry (.nested "Frame") = true ∧
    write p.compilation.registry "Frame" frame unlimited = some ⟨frameBytes, none⟩ ∧
    ∃ q ∈ read p.compilation.registry "Frame" frame (frameBytes ++ [9]), q.error = none := by
  decide +kernel

theorem known_width_exact_frame :
    ∃ p, compile {} frames = .ok p ∧ SelfContained [Varint.path] (declared {} frames) ∧
      p.compilation.registry.width? "Frame" = some 14 ∧
      write p.compilation.registry "Frame" frame unlimited = some ⟨frameBytes, none⟩ ∧
      frameBytes.length = 14 ∧
      ∃ x rest, read p.compilation.registry "Frame" frame (frameBytes ++ [9]) =
          some ⟨x, rest, none⟩ ∧
        ∃ taken, frameBytes ++ [9] = taken ++ rest ∧ taken.length = 14 := by
  obtain ⟨p, hp, hwidth, hfits, hwrite, ⟨x, rest, error⟩, hread, rfl⟩ := frames_run
  rw [Option.mem_def] at hp hread
  have hcompile := compile_of_toOption hp
  obtain ⟨hwritten, hconsumed⟩ := known_width_exact hcompile frames_selfContained hwidth
  exact ⟨p, hcompile, frames_selfContained, hwidth, hwrite, hwritten _ _ _ hfits hwrite, x, rest,
    hread, hconsumed _ _ _ _ hread⟩

end Codec

end WireRecords
