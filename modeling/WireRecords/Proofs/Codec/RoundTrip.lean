import WireRecords.Proofs.Codec.StaticWidth

/-!
# Reading back what was written

A value that is written is read back with its byte runs and slices cut to the lengths of their
widths. The reader evaluates these widths on the fields it has read so far, which hold the same
integers; and it never refuses a slice early, since a known element width is kept by the writer.
-/
namespace WireRecords.Codec

variable {allowed : String → Prop} {r : Registry}

namespace Fields

variable {e : RecordEntry} {before : List RecordedField} {f : RecordedField} {fs gs : Fields}

/-- The field that is read next gets the value it has on the other side. -/
theorem Same.set_right (h : Same before fs gs) (hg : f.decl.id ∈ gs.keys)
    (hne : ∀ g ∈ before, g.decl.id ≠ f.decl.id) :
    Same (before ++ [f]) fs (gs.set f.decl.id (fs.get f.decl.id)) := by
  intro g hmem hstored
  rcases List.mem_append.mp hmem with hb | hs
  · rw [get_set_of_ne _ (hne g hb)]
    exact h g hb hstored
  · obtain rfl := List.mem_singleton.mp hs
    rw [get_set_self _ hg]

theorem lengthOf_plain (hp : f.decl.type.Plain allowed) : fs.lengthOf f = none := by
  unfold lengthOf
  split
  · rename_i ht
    rw [ht] at hp
    cases hp
  · rename_i ht
    rw [ht] at hp
    cases hp
  · rfl

theorem lengthOf_of_measure {w : Width} {n : Nat}
    (ht : f.decl.type = .byteRun ∨ ∃ element, f.decl.type = .slice element)
    (hw : f.info.width = some w) (h : fs.measure w = .ok n) : fs.lengthOf f = some n := by
  rcases ht with ht | ⟨element, ht⟩ <;> simp [lengthOf, ht, hw, h, Except.toOption]

/-- Trimming keeps the integers that widths refer to. -/
theorem measure_trimFields {w : Width} (hn : (e.fields.map (·.decl.id)).Nodup) (hfit : fs.Fit r e)
    (hb : ∀ g ∈ before, g ∈ e.fields) (hw : Analysis.RefersTo (before.map (·.decl)) w) :
    (Value.trimFields r e fs fs).measure w = fs.measure w := by
  apply measure_congr
  intro id hid
  obtain ⟨d, hd, rfl, s, hscalar⟩ := hw id hid
  obtain ⟨g, hg, rfl⟩ := List.mem_map.mp hd
  have hstored : g.decl.type.isStored = true := by rw [hscalar]; rfl
  have hplain : g.decl.type.Plain fun _ => True := hscalar ▸ .scalar s
  obtain ⟨n, hget, _⟩ := Value.fits_scalar.mp (hscalar ▸ hfit.value g (hb g hg) hstored)
  rw [Value.get_trimFields hn (hb g hg) (hfit.ready.mem_keys (hb g hg) hstored),
    lengthOf_plain hplain, hget]
  rfl

end Fields

/-- A slice whose elements can all be there is not refused. -/
theorem checkSlice_eq_none {name : FieldName} {element : FieldType} {count : Nat}
    {bs : List UInt8}
    (h : ∀ width, r.elementWidth? element = some width → count * width ≤ bs.length) :
    checkSlice r name element count bs = none := by
  unfold checkSlice
  split
  · rename_i width hwidth
    have hle : saturatingMul count width ≤ bs.length :=
      (Nat.min_le_left _ _).trans (h width hwidth)
    simp [Nat.not_lt.mpr hle]
  · rfl

/-- What `W` writes, `N` reads back into any value of the type. -/
def ReadsBack (r : Registry) (W : Writer) (N : Reader) : Prop :=
  ∀ ⦃path v receiver room b⦄ rest, v.fits r (.nested path) = true →
    receiver.fits r (.nested path) = true → W path v room = some ⟨b, none⟩ →
      N path receiver (b ++ rest) = some ⟨v.trim r (.nested path), rest, none⟩

section Pieces

variable {W : Writer} {N : Reader} (hback : ReadsBack r W N)

include hback

theorem readPlain_writePlain {name : FieldName} {endian : Endian} {v receiver : Value}
    {room : Nat} {type : FieldType} {b : List UInt8} (rest : List UInt8)
    (hp : type.Plain allowed) (hv : v.fits r type = true)
    (hreceiver : receiver.fits r type = true)
    (h : writePlain W name endian v room type = some ⟨b, none⟩) :
    readPlain N name endian receiver (b ++ rest) type = some ⟨v.trim r type, rest, none⟩ := by
  cases hp with
  | scalar s =>
    obtain ⟨n, rfl, hn⟩ := Value.fits_scalar.mp hv
    obtain ⟨rfl, _⟩ := writePlain_scalar_ok.mp h
    refine readPlain_scalar_ok.mpr ⟨_, Scalar.encode_length .., rfl, ?_⟩
    simp [Value.trim, Value.asInteger, Scalar.decode_encode endian hn]
  | bytes length =>
    obtain ⟨data, rfl, rfl⟩ := Value.fits_bytes.mp hv
    obtain ⟨rfl, _⟩ := writePlain_bytes_ok.mp h
    exact readPlain_bytes_ok.mpr ⟨_, rfl, rfl, by simp [Value.trim]⟩
  | nested _ => exact hback rest hv hreceiver h
  | boxed _ =>
    rw [Value.fits_boxed] at hv hreceiver
    rw [Value.trim_boxed]
    exact hback rest hv hreceiver h

omit hback in
theorem readElements_writeElements {E : Value → Nat → Option Writing} {items : List Value}
    {room : Nat} {b : List UInt8} (F : List UInt8 → Option (Reading Value)) (g : Value → Value)
    (rest : List UInt8)
    (hone : ∀ v ∈ items, ∀ {room b} rest, E v room = some ⟨b, none⟩ →
      F (b ++ rest) = some ⟨g v, rest, none⟩)
    (h : writeElements E items room = some ⟨b, none⟩) :
    readElements F items.length (b ++ rest) = some ⟨items.map g, rest, none⟩ := by
  induction items generalizing room b with
  | nil =>
    rw [writeElements_nil_ok.mp h]
    rfl
  | cons v items ih =>
    obtain ⟨b₁, b₂, hfirst, hrest, rfl⟩ := writeElements_cons_ok.mp h
    rw [List.append_assoc]
    exact readElements_succ_ok.mpr ⟨g v, b₂ ++ rest, items.map g,
      hone v List.mem_cons_self (b₂ ++ rest) hfirst,
      ih (fun w hw => hone w (List.mem_cons_of_mem v hw)) hrest, rfl⟩

variable (hr : r.Sound allowed) (hwidths : WritesWidths r W)

include hr hwidths

/-- A field is read back into a receiver that agrees with the trimmed record so far. -/
theorem readField_writeField {e : RecordEntry} {before after : List RecordedField}
    {f : RecordedField} {record : String} {fs gs : Fields} {room : Nat} {b : List UInt8}
    (rest : List UInt8) (he : r.SoundRecord allowed e) (hs : e.fields = before ++ f :: after)
    (hfit : fs.Fit r e) (hgs : gs.Ready r e (f :: after))
    (hsame : Fields.Same before (Value.trimFields r e fs fs) gs)
    (h : writeField W record fs f room = some ⟨b, none⟩) :
    ∃ gs', readField r N record gs f (b ++ rest) = some ⟨gs', rest, none⟩ ∧
      gs'.Ready r e after ∧ Fields.Same (before ++ [f]) (Value.trimFields r e fs fs) gs' := by
  obtain ⟨hbefore, hafter⟩ := ne_of_split he.nodup hs
  have hmem : f ∈ e.fields := by simp [hs]
  have hmeasure : ∀ {w}, Analysis.RefersTo (before.map (·.decl)) w →
      gs.measure w = fs.measure w := by
    intro w hw
    rw [← hsame.measure hw]
    exact Fields.measure_trimFields he.nodup hfit (fun g hg => by simp [hs, hg]) hw
  -- The value that a stored field has to be read as, and what follows when it is.
  have hget : f.decl.type.isStored = true → (Value.trimFields r e fs fs).get f.decl.id =
      ((fs.get f.decl.id).trim r f.decl.type).cut (fs.lengthOf f) := fun hstored =>
    Value.get_trimFields he.nodup hmem (hfit.ready.mem_keys hmem hstored)
  have hset : f.decl.type.isStored = true →
      (gs.set f.decl.id ((Value.trimFields r e fs fs).get f.decl.id)).Ready r e after ∧
        Fields.Same (before ++ [f]) (Value.trimFields r e fs fs)
          (gs.set f.decl.id ((Value.trimFields r e fs fs).get f.decl.id)) := fun hstored =>
    ⟨hgs.set hafter _, hsame.set_right (hgs.mem_keys hmem hstored) hbefore⟩
  have hfield := he.field hs
  generalize ht : f.decl.type = type at hfield
  cases hfield with
  | plain hp known =>
    rw [← ht] at hp
    have hstored := hp.isStored
    rw [writeField_plain hp] at h
    refine ⟨_, (readField_plain_ok hp).mpr ⟨_, ?_, rfl⟩, hset hstored⟩
    rw [hget hstored, Fields.lengthOf_plain hp, Value.cut_none]
    exact readPlain_writePlain hback rest hp (hfit.value f hmem hstored)
      (hgs.value f List.mem_cons_self hstored) h
  | constant hwidth =>
    obtain ⟨rfl, _⟩ := (writeField_constant_ok ht hwidth).mp h
    exact ⟨gs, (readField_constant_ok ht hwidth).mpr ⟨rfl, rfl⟩, hgs.tail,
      hsame.unstored (by rw [ht]; rfl)⟩
  | byteRun hwidth kind refs =>
    have hstored : f.decl.type.isStored = true := by rw [ht]; rfl
    obtain ⟨data, hdata⟩ := Value.fits_byteRun.mp (ht ▸ hfit.value f hmem hstored)
    obtain ⟨length, hlength, hle, rfl, _⟩ := (writeField_byteRun_ok ht hwidth).mp h
    refine ⟨_, (readField_byteRun_ok ht hwidth).mpr ⟨_, ?_, rfl, ?_⟩, hset hstored⟩
    · rw [hmeasure refs, hlength, List.length_take, Nat.min_eq_left hle]
    · rw [hget hstored, Fields.lengthOf_of_measure (Or.inl ht) hwidth hlength, hdata]
      rfl
  | slice hwidth hp refs =>
    rename_i element w
    have hstored : f.decl.type.isStored = true := by rw [ht]; rfl
    obtain ⟨items, hitems, hall⟩ := Value.fits_slice.mp (ht ▸ hfit.value f hmem hstored)
    obtain ⟨count, hcount, hle, hwrite⟩ := (writeField_slice_ok ht hwidth).mp h
    simp only [hitems, Value.asItems] at hle hwrite
    have htake : (items.take count).length = count := by
      rw [List.length_take, Nat.min_eq_left hle]
    have hfits : ∀ v ∈ items.take count, v.fits r element = true := fun v hv =>
      hall v (List.mem_of_mem_take hv)
    have hread := readElements_writeElements
      (fun bs => readPlain N ⟨record, f.decl.id⟩ f.info.endian (initialOf (initial r) element) bs
        element) (·.trim r element) rest (fun v hv _ _ rest =>
          readPlain_writePlain hback rest hp (hfits v hv) (fresh_fits hr.determined hp (hfits v hv))) hwrite
    rw [htake] at hread
    refine ⟨_, (readField_slice_ok ht hwidth).mpr ⟨count, _, ?_, ?_, hread, ?_⟩, hset hstored⟩
    · rw [hmeasure refs, hcount]
    · apply checkSlice_eq_none
      intro width helement
      have hlen := writeElements_length (fun v hv {room b} hone => writePlain_length hwidths hp
        (hfits v hv) hone (Registry.plainWidth?_of_elementWidth? helement)) hwrite
      rw [htake] at hlen
      simp [hlen]
    · rw [hget hstored, Fields.lengthOf_of_measure (Or.inr ⟨element, ht⟩) hwidth hcount, hitems, ht]
      simp [Value.trim, Value.cut, Value.trimItems_eq_map, List.map_take]

theorem readFields_writeFields {e : RecordEntry} {before after : List RecordedField}
    {record : String} {fs gs : Fields} {room : Nat} {b : List UInt8} (rest : List UInt8)
    (he : r.SoundRecord allowed e) (hs : e.fields = before ++ after) (hfit : fs.Fit r e)
    (hgs : gs.Ready r e after) (hsame : Fields.Same before (Value.trimFields r e fs fs) gs)
    (h : writeFields W record fs after room = some ⟨b, none⟩) :
    readFields r N record gs after (b ++ rest) =
      some ⟨Value.trimFields r e fs fs, rest, none⟩ := by
  induction after generalizing before gs room b with
  | nil =>
    rw [writeFields_nil_ok.mp h]
    have hkeys : gs.keys = (Value.trimFields r e fs fs).keys := by
      rw [hgs.keys, Value.keys_trimFields, hfit.keys]
    have heq : gs = Value.trimFields r e fs fs := by
      apply Fields.ext_get hkeys (hgs.keys ▸ RecordEntry.stored_nodup he.nodup)
      intro id hid
      rw [hgs.keys] at hid
      obtain ⟨f, hf, rfl⟩ := List.mem_map.mp hid
      obtain ⟨hmem, hstored⟩ := RecordEntry.mem_stored.mp hf
      exact (hsame f (by simpa [hs] using hmem) hstored).symm
    rw [← heq]
    rfl
  | cons f after ih =>
    obtain ⟨b₁, b₂, hfirst, hrest, rfl⟩ := writeFields_cons_ok.mp h
    obtain ⟨gs', hread, hgs', hsame'⟩ :=
      readField_writeField hback hr hwidths (b₂ ++ rest) he hs hfit hgs hsame hfirst
    rw [List.append_assoc]
    exact readFields_cons_ok.mpr ⟨gs', b₂ ++ rest, hread, ih (by simp [hs]) hgs' hsame' hrest⟩

end Pieces

/-- With the same levels on both sides, every value is read back. -/
theorem readTo_writeTo (hr : r.Sound allowed) (n : Nat) :
    ReadsBack r (writeTo r n) (readTo r n) := by
  induction n with
  | zero =>
    intro path v receiver room b rest _ _ h
    simp [writeTo] at h
  | succ n ih =>
    intro path v receiver room b rest hv hreceiver h
    rcases name_of_writeTo h with ⟨e, hf⟩ | ⟨hf, rfl⟩
    · rw [writeTo_record hf] at h
      obtain ⟨fs, rfl, hfit⟩ := (Value.fits_record rfl hf (hr hf).nodup).mp hv
      have hsame : Fields.Same [] (Value.trimFields r e fs fs) receiver.asFields := by
        simp [Fields.Same]
      have hread := readFields_writeFields ih hr (writeTo_writesWidths hr n) rest (hr hf) rfl hfit
        (asFields_ready hr.determined hf hreceiver) hsame h
      refine (readTo_record_ok hf).mpr ⟨_, ?_, hread⟩
      simp [Value.trim, FieldType.target?, hf]
    · obtain ⟨_, k, rfl, hk⟩ := (Value.fits_varint rfl hf).mp hv
      rw [writeTo_varint_ok hf h, Value.word_of_lt hk, readTo_varint hf, Varint.read_encode rest hk]
      simp [Value.trim]

/-- What is written into a buffer that grows is read back, whatever follows it. -/
theorem decode_encode (hr : r.Sound allowed) {path : String} {v : Value} {b : List UInt8}
    (rest : List UInt8) (hv : v.fits r (.nested path) = true)
    (h : encode r path v = some (.ok b)) :
    decode r path (b ++ rest) = some ⟨v.trim r (.nested path), rest, none⟩ := by
  have hd := hr.determined
  have hinitial := initial_fits hd (grounded_of_fits hd rfl hv (Nat.lt_succ_self _))
  exact read_eq hd hv hinitial (readTo_writeTo hr _ rest hv hv (encode_ok.mp h))

/-- Decoding undoes encoding in every accepted self-contained run: the bytes of a value, whatever
follows them, decode to the value with its byte runs and slices cut to their widths, which is the
value itself where its lengths are exact. -/
theorem decode_undoes_encode {config : Config} {units : List CompilationUnit} {p : Progress}
    (h : compile config units = .ok p)
    (hs : SelfContained [Varint.path] (declared config units)) {path : String} {v : Value}
    {b : List UInt8} (hv : v.fits p.compilation.registry (.nested path) = true)
    (hb : encode p.compilation.registry path v = some (.ok b)) (rest : List UInt8) :
    decode p.compilation.registry path (b ++ rest) =
        some ⟨v.trim p.compilation.registry (.nested path), rest, none⟩ ∧
      (v.isExact p.compilation.registry (.nested path) = true →
        decode p.compilation.registry path (b ++ rest) = some ⟨v, rest, none⟩) := by
  obtain ⟨hr, _⟩ := compile_sound (by decide) h hs
  have hdecode := decode_encode hr rest hv hb
  refine ⟨hdecode, fun hexact => ?_⟩
  rw [hdecode, Value.trim_of_isExact _ _ _ hexact]

/-- A run with a variable-length integer, a byte run, a slice, a boxed record and a constant. -/
def packets : List CompilationUnit :=
  [.inline "packets" ["Item size[1] data[size]",
    "Packet serial[, wire9_runtime::Varint] count[1] items[count, []Item] last[, *Item] " ++
      "mark[4, \"ab\"] sum[2,, BE]"]]

def item (size : Int) (data : List UInt8) : Value :=
  .record [("size", .integer size), ("data", .bytes data)]

/-- A packet with the given items in memory. -/
def packet (items : List Value) (last : Value) : Value :=
  .record [("serial", .integer 300), ("count", .integer 2), ("items", .list items),
    ("last", last), ("sum", .integer 258)]

/-- More in memory than the widths ask for. -/
def loosePacket : Value := packet [item 1 [5, 6], item 0 [7], item 3 []] (item 2 [8, 9, 10])

def exactPacket : Value := packet [item 1 [5], item 0 []] (item 2 [8, 9])

/-- Both packets on the wire. -/
def packetBytes : List UInt8 := [172, 2, 2, 1, 5, 0, 2, 8, 9, 97, 98, 0, 0, 1, 2]

theorem packets_selfContained : SelfContained [Varint.path] (declared {} packets) := by
  decide +kernel

theorem packets_run : ∃ p ∈ (compile {} packets).toOption,
    loosePacket.fits p.compilation.registry (.nested "Packet") = true ∧
    encode p.compilation.registry "Packet" loosePacket = some (.ok packetBytes) ∧
    exactPacket.fits p.compilation.registry (.nested "Packet") = true ∧
    encode p.compilation.registry "Packet" exactPacket = some (.ok packetBytes) ∧
    exactPacket.isExact p.compilation.registry (.nested "Packet") = true := by
  decide +kernel

theorem decode_undoes_encode_packet :
    ∃ p, compile {} packets = .ok p ∧ SelfContained [Varint.path] (declared {} packets) ∧
      encode p.compilation.registry "Packet" loosePacket = some (.ok packetBytes) ∧
      decode p.compilation.registry "Packet" (packetBytes ++ [1, 2]) =
        some ⟨loosePacket.trim p.compilation.registry (.nested "Packet"), [1, 2], none⟩ ∧
      decode p.compilation.registry "Packet" (packetBytes ++ [1, 2]) =
        some ⟨exactPacket, [1, 2], none⟩ := by
  obtain ⟨p, hp, hloose, hencode, hexact, hencode', hlengths⟩ := packets_run
  rw [Option.mem_def] at hp
  have hcompile := compile_of_toOption hp
  exact ⟨p, hcompile, packets_selfContained, hencode,
    (decode_undoes_encode hcompile packets_selfContained hloose hencode [1, 2]).1,
    (decode_undoes_encode hcompile packets_selfContained hexact hencode' [1, 2]).2 hlengths⟩

end WireRecords.Codec
