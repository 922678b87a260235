import WireRecords.Proofs.Codec.Success

/-!
# Writing back what was read

A value that was read is written as the bytes it was read from. Every field holds what it takes to
write it again: byte runs and slices have the lengths of their widths, and a width has the same
value on the finished record as it had when its field was read.
-/
namespace WireRecords.Codec

variable {allowed : String → Prop} {r : Registry}

/-- Wherever there is room, `write` writes the bytes that stand in `bs` before `rest`. -/
def Restores (write : Nat → Option Writing) (bs rest : List UInt8) : Prop :=
  ∃ b, bs = b ++ rest ∧ ∀ room, b.length ≤ room → write room = some ⟨b, none⟩

theorem Restores.sequence {first second whole : Nat → Option Writing}
    {bs mid rest : List UInt8} (h₁ : Restores first bs mid) (h₂ : Restores second mid rest)
    (hwhole : ∀ {room b₁ b₂}, first room = some ⟨b₁, none⟩ →
      second (room - b₁.length) = some ⟨b₂, none⟩ → whole room = some ⟨b₁ ++ b₂, none⟩) :
    Restores whole bs rest := by
  obtain ⟨b₁, rfl, hfirst⟩ := h₁
  obtain ⟨b₂, rfl, hsecond⟩ := h₂
  refine ⟨b₁ ++ b₂, by simp, fun room hroom => ?_⟩
  rw [List.length_append] at hroom
  exact hwhole (hfirst room (by omega)) (hsecond _ (by omega))

/-- What `N` reads into a value of a record is a value of the record, and `W` writes it back where
records are not nested too deeply. -/
def WritesBack (r : Registry) (m : Nat) (N : Reader) (W : Writer) : Prop :=
  ∀ ⦃path receiver bs v rest⦄, r.contains path = true → receiver.fits r (.nested path) = true →
    N path receiver bs = some ⟨v, rest, none⟩ →
      v.fits r (.nested path) = true ∧ (v.depth < m → Restores (W path v) bs rest)

/-- An element that `N` reads starts from a value of its type. -/
def StartsFresh (r : Registry) (N : Reader) : Prop :=
  ∀ ⦃path bs v rest⦄, N path (initial r path) bs = some ⟨v, rest, none⟩ →
    (initial r path).fits r (.nested path) = true

section Pieces

variable {m : Nat} {N : Reader} {W : Writer}
  (hclosed : ∀ path, allowed path → r.contains path = true) (hback : WritesBack r m N W)

include hclosed hback

theorem writePlain_readPlain {name : FieldName} {endian : Endian} {receiver v : Value}
    {type : FieldType} {bs rest : List UInt8} (hp : type.Plain allowed)
    (hreceiver : ∀ {path}, type.target? = some path → N path receiver bs = some ⟨v, rest, none⟩ →
      receiver.fits r (.nested path) = true)
    (h : readPlain N name endian receiver bs type = some ⟨v, rest, none⟩) :
    v.fits r type = true ∧
      (v.depth < m → Restores (fun room => writePlain W name endian v room type) bs rest) := by
  cases hp with
  | scalar s =>
    obtain ⟨word, hword, rfl, rfl⟩ := readPlain_scalar_ok.mp h
    refine ⟨Value.fits_scalar.mpr ⟨_, rfl, Scalar.holds_decode endian hword⟩, fun _ => ?_⟩
    refine ⟨word, rfl, fun room hroom => writePlain_scalar_ok.mpr ⟨?_, hroom⟩⟩
    exact (Scalar.encode_decode endian hword).symm
  | bytes length =>
    obtain ⟨data, hdata, rfl, rfl⟩ := readPlain_bytes_ok.mp h
    exact ⟨Value.fits_bytes.mpr ⟨data, rfl, hdata⟩, fun _ =>
      ⟨data, rfl, fun room hroom => writePlain_bytes_ok.mpr ⟨rfl, hroom⟩⟩⟩
  | nested ha => exact hback (hclosed _ ha) (hreceiver rfl h) h
  | boxed ha =>
    rw [Value.fits_boxed]
    exact hback (hclosed _ ha) (hreceiver rfl h) h

omit hclosed hback in
theorem writeElements_readElements {E : Value → Nat → Option Writing}
    {F : List UInt8 → Option (Reading Value)} {element : FieldType} {count : Nat}
    {items : List Value} {bs rest : List UInt8}
    (hone : ∀ {bs v rest}, F bs = some ⟨v, rest, none⟩ →
      v.fits r element = true ∧ (v.depth < m → Restores (E v) bs rest))
    (h : readElements F count bs = some ⟨items, rest, none⟩) :
    items.length = count ∧ (∀ v ∈ items, v.fits r element = true) ∧
      (Value.depthItems items < m → Restores (writeElements E items) bs rest) := by
  induction count generalizing bs items with
  | zero =>
    simp only [readElements, Option.some.injEq, Reading.mk.injEq] at h
    obtain ⟨rfl, rfl, _⟩ := h
    exact ⟨rfl, by simp, fun _ => ⟨[], rfl, fun _ _ => rfl⟩⟩
  | succ count ih =>
    obtain ⟨v, mid, vs, hfirst, hrest, rfl⟩ := readElements_succ_ok.mp h
    obtain ⟨hv, hrestores⟩ := hone hfirst
    obtain ⟨hlen, hvs, hrestores'⟩ := ih hrest
    refine ⟨by simp [hlen], by simpa [hv] using hvs, fun hdepth => ?_⟩
    simp only [Value.depthItems, Nat.max_lt] at hdepth
    exact (hrestores hdepth.1).sequence (hrestores' hdepth.2) fun hw hw' =>
      writeElements_cons_ok.mpr ⟨_, _, hw, hw', rfl⟩

variable (hfresh : StartsFresh r N)

include hfresh

/-- Reading a field keeps the fields before it, and gives the field a value from which a finished
record that agrees so far writes it back. -/
theorem writeField_readField {e : RecordEntry} {before after : List RecordedField}
    {f : RecordedField} {record : String} {fs gs : Fields} {bs rest : List UInt8}
    (he : r.SoundRecord allowed e) (hs : e.fields = before ++ f :: after)
    (hfs : fs.Ready r e (f :: after))
    (h : readField r N record fs f bs = some ⟨gs, rest, none⟩) :
    gs.Ready r e after ∧ Fields.Same before fs gs ∧
      (f.decl.type.isStored = true → (gs.get f.decl.id).fits r f.decl.type = true) ∧
      ∀ last : Fields, Fields.Same (before ++ [f]) gs last →
        (f.decl.type.isStored = true → (last.get f.decl.id).depth < m) →
          Restores (fun room => writeField W record last f room) bs rest := by
  obtain ⟨hbefore, hafter⟩ := ne_of_split he.nodup hs
  have hmem : f ∈ e.fields := by simp [hs]
  have hsame : ∀ v, Fields.Same before fs (fs.set f.decl.id v) := fun v g hg _ =>
    (Fields.get_set_of_ne v (hbefore g hg)).symm
  -- What was stored last is what a finished record that agrees so far holds.
  have hself : f.decl.type.isStored = true → ∀ v, (fs.set f.decl.id v).get f.decl.id = v :=
    fun hstored v => Fields.get_set_self v (hfs.mem_keys hmem hstored)
  have hlast : f.decl.type.isStored = true → ∀ {v} {last : Fields},
      Fields.Same (before ++ [f]) (fs.set f.decl.id v) last → last.get f.decl.id = v :=
    fun hstored v last hl => by rw [← hl f (by simp) hstored, hself hstored]
  have hmeasure : ∀ {v w} {last : Fields}, Fields.Same (before ++ [f]) (fs.set f.decl.id v) last →
      Analysis.RefersTo (before.map (·.decl)) w → last.measure w = fs.measure w := by
    intro v w last hl hw
    have hb : Fields.Same before fs last := fun g hg hstored =>
      (hsame v g hg hstored).trans (hl g (by simp [hg]) hstored)
    exact (hb.measure hw).symm
  have hfield := he.field hs
  generalize ht : f.decl.type = type at hfield
  cases hfield with
  | plain hp known =>
    rw [← ht] at hp
    have hstored := hp.isStored
    obtain ⟨v, hread, rfl⟩ := (readField_plain_ok hp).mp h
    have hreceiver : ∀ {path}, f.decl.type.target? = some path →
        N path (fs.get f.decl.id) bs = some ⟨v, rest, none⟩ →
          (fs.get f.decl.id).fits r (.nested path) = true := by
      intro path hpath _
      rw [← Value.fits_target hpath]
      exact hfs.value f List.mem_cons_self hstored
    obtain ⟨hv, hrestores⟩ := writePlain_readPlain hclosed hback hp hreceiver hread
    refine ⟨hfs.set hafter v, hsame v, fun _ => ?_, fun last hl hdepth => ?_⟩
    · rw [hself hstored, ← ht]
      exact hv
    · have hvalue := hlast hstored hl
      simp only [writeField_plain hp, hvalue]
      exact hrestores (hvalue ▸ hdepth (ht ▸ hstored))
  | constant hwidth =>
    obtain ⟨rfl, rfl⟩ := (readField_constant_ok ht hwidth).mp h
    refine ⟨hfs.tail, fun _ _ _ => rfl, by simp [FieldType.isStored], fun last _ _ => ?_⟩
    exact ⟨_, rfl, fun room hroom => (writeField_constant_ok ht hwidth).mpr ⟨rfl, hroom⟩⟩
  | byteRun hwidth kind refs =>
    have hstored : f.decl.type.isStored = true := by rw [ht]; rfl
    obtain ⟨data, hlength, rfl, rfl⟩ := (readField_byteRun_ok ht hwidth).mp h
    refine ⟨hfs.set hafter _, hsame _, fun _ => ?_, fun last hl _ => ?_⟩
    · rw [hself hstored]
      exact Value.fits_byteRun.mpr ⟨data, rfl⟩
    · have hvalue := hlast hstored hl
      refine ⟨data, rfl, fun room hroom =>
        (writeField_byteRun_ok ht hwidth).mpr ⟨data.length, ?_, ?_, ?_, hroom⟩⟩
      · rw [hmeasure hl refs, hlength]
      · simp [hvalue, Value.asBytes]
      · simp [hvalue, Value.asBytes]
  | slice hwidth hp refs =>
    rename_i element w
    have hstored : f.decl.type.isStored = true := by rw [ht]; rfl
    obtain ⟨count, items, hcount, _, hread, rfl⟩ := (readField_slice_ok ht hwidth).mp h
    have hreceiver : ∀ {bs path v rest}, element.target? = some path →
        N path (initialOf (initial r) element) bs = some ⟨v, rest, none⟩ →
          (initialOf (initial r) element).fits r (.nested path) = true := by
      intro bs path v rest hpath hN
      rcases FieldType.target?_eq_some hpath with rfl | rfl <;> exact hfresh hN
    obtain ⟨hlen, hfits, hrestores⟩ := writeElements_readElements
      (fun hone => writePlain_readPlain hclosed hback hp hreceiver hone) hread
    refine ⟨hfs.set hafter _, hsame _, fun _ => ?_, fun last hl hdepth => ?_⟩
    · rw [hself hstored]
      exact Value.fits_slice.mpr ⟨items, rfl, hfits⟩
    · have hvalue := hlast hstored hl
      have hdepth' : Value.depthItems items < m := by simpa [hvalue, Value.depth] using hdepth rfl
      obtain ⟨b, rfl, hwrite⟩ := hrestores hdepth'
      refine ⟨b, rfl, fun room hroom => (writeField_slice_ok ht hwidth).mpr ⟨count, ?_, ?_, ?_⟩⟩
      · rw [hmeasure hl refs, hcount]
      · simp [hvalue, Value.asItems, hlen]
      · simpa [hvalue, Value.asItems, ← hlen] using hwrite room hroom

theorem writeFields_readFields {e : RecordEntry} {before after : List RecordedField}
    {record : String} {fs last : Fields} {bs rest : List UInt8} (he : r.SoundRecord allowed e)
    (hs : e.fields = before ++ after) (hfs : fs.Ready r e after)
    (h : readFields r N record fs after bs = some ⟨last, rest, none⟩) :
    last.keys = e.stored.map (·.decl.id) ∧ Fields.Same before fs last ∧
      (∀ f ∈ after, f.decl.type.isStored = true →
        (last.get f.decl.id).fits r f.decl.type = true) ∧
      (Value.depthFields last < m →
        Restores (fun room => writeFields W record last after room) bs rest) := by
  induction after generalizing before fs bs with
  | nil =>
    simp only [readFields, Option.some.injEq, Reading.mk.injEq] at h
    obtain ⟨rfl, rfl, _⟩ := h
    exact ⟨hfs.keys, fun _ _ _ => rfl, by simp, fun _ => ⟨[], rfl, fun _ _ => rfl⟩⟩
  | cons f after ih =>
    obtain ⟨gs, mid, hfirst, hrest⟩ := readFields_cons_ok.mp h
    obtain ⟨hgs, hbefore, hvalue, hrestores⟩ :=
      writeField_readField hclosed hback hfresh he hs hfs hfirst
    have hs' : e.fields = (before ++ [f]) ++ after := by simp [hs]
    obtain ⟨hkeys, hsame, hvalues, hrestores'⟩ := ih hs' hgs hrest
    refine ⟨hkeys, fun g hg hstored => ?_, fun g hg hstored => ?_, fun hdepth => ?_⟩
    · exact (hbefore g hg hstored).trans (hsame g (by simp [hg]) hstored)
    · rcases List.mem_cons.mp hg with rfl | hg
      · rw [← hsame g (by simp) hstored]
        exact hvalue hstored
      · exact hvalues g hg hstored
    · have hfield := hrestores last hsame fun hstored => by
        have hkey : f.decl.id ∈ last.keys := by
          rw [hkeys]
          exact List.mem_map_of_mem (RecordEntry.mem_stored.mpr ⟨by simp [hs], hstored⟩)
        exact (Fields.get_depth_le hkey).trans_lt hdepth
      exact hfield.sequence (hrestores' hdepth) fun hw hw' =>
        writeFields_cons_ok.mpr ⟨_, _, hw, hw', rfl⟩

end Pieces

theorem readTo_startsFresh (hr : r.Sound allowed) (n : Nat) : StartsFresh r (readTo r n) :=
  fun _ _ _ _ h => initial_fits hr.determined (grounded_of_readTo h)

/-- However many levels reading took, writing takes those of the value. -/
theorem writeTo_readTo (hr : r.Sound allowed)
    (hclosed : ∀ path, allowed path → r.contains path = true) (n m : Nat) :
    WritesBack r m (readTo r n) (writeTo r m) := by
  induction n generalizing m with
  | zero =>
    intro path receiver bs v rest _ _ h
    simp [readTo] at h
  | succ n ih =>
    intro path receiver bs v rest hpath hreceiver h
    obtain ⟨e, hf⟩ := Registry.contains_iff.mp hpath
    obtain ⟨last, rfl, hread⟩ := (readTo_record_ok hf).mp h
    obtain ⟨hkeys, _, hvalues, hrestores⟩ := writeFields_readFields hclosed (ih (m - 1))
      (readTo_startsFresh hr n) (hr hf) (List.nil_append _).symm
      (asFields_ready hr.determined hf hreceiver) hread
    refine ⟨(Value.fits_record rfl hf (hr hf).nodup).mpr ⟨last, rfl, hkeys, hvalues⟩, ?_⟩
    intro hdepth
    simp only [Value.depth] at hdepth
    obtain ⟨b, rfl, hwrite⟩ := hrestores (by omega)
    refine ⟨b, rfl, fun room hroom => ?_⟩
    rw [show m = m - 1 + 1 by omega, writeTo_record hf]
    exact hwrite room hroom

/-- Encoding undoes decoding in every accepted run whose nested types are all records of the run:
the value that a byte string decodes to is written as the bytes that were consumed, wherever there
is room for them, which a buffer that grows always has for the bytes of a string in memory. -/
theorem encode_undoes_decode {config : Config} {units : List CompilationUnit} {p : Progress}
    (h : compile config units = .ok p) (hs : SelfContained [] (declared config units))
    {path : String} (hpath : path ∈ (declared config units).map (·.id)) {bs rest : List UInt8}
    {v : Value} (hd : decode p.compilation.registry path bs = some ⟨v, rest, none⟩) :
    ∃ b, bs = b ++ rest ∧
      (∀ room, b.length ≤ room → write p.compilation.registry path v room = some ⟨b, none⟩) ∧
      (bs.length ≤ unlimited → encode p.compilation.registry path v = some (.ok b)) := by
  obtain ⟨hr, hrecords⟩ := compile_sound (by simp) h hs
  have hclosed : ∀ path, Allowed [] ((declared config units).map (·.id)) path →
      p.compilation.registry.contains path = true := fun path ha =>
    hrecords path (ha.2.resolve_right (by simp))
  have hinitial := initial_fits hr.determined (grounded_of_readTo hd)
  obtain ⟨_, hrestores⟩ := writeTo_readTo hr hclosed _ (v.depth + 1) (hrecords path hpath) hinitial hd
  obtain ⟨b, rfl, hwrite⟩ := hrestores (Nat.lt_succ_self _)
  refine ⟨b, rfl, hwrite, fun hlen => encode_ok.mpr (hwrite unlimited ?_)⟩
  rw [List.length_append] at hlen
  omega

/-- A run that nests only its own records, one of them in itself. -/
def trees : List CompilationUnit :=
  [.inline "trees" ["Leaf size[2,, BE] data[size-1]",
    "Tree first[, *Leaf] count[1] below[count, []Tree] mark[2, \"#\"]"]]

/-- A tree with one tree below it. -/
def treeBytes : List UInt8 := [0, 3, 5, 6, 1, 0, 1, 0, 35, 0, 35, 0]

theorem trees_selfContained : SelfContained [] (declared {} trees) := by
  decide +kernel

theorem trees_run : ∃ p ∈ (compile {} trees).toOption,
    ∃ q ∈ decode p.compilation.registry "Tree" (treeBytes ++ [77]),
      q.error = none ∧ q.rest = [77] := by
  decide +kernel

theorem encode_undoes_decode_tree :
    ∃ p v, compile {} trees = .ok p ∧ SelfContained [] (declared {} trees) ∧
      "Tree" ∈ (declared {} trees).map (·.id) ∧
      decode p.compilation.registry "Tree" (treeBytes ++ [77]) = some ⟨v, [77], none⟩ ∧
      encode p.compilation.registry "Tree" v = some (.ok treeBytes) := by
  obtain ⟨p, hp, ⟨v, rest, error⟩, hd, rfl, rfl⟩ := trees_run
  rw [Option.mem_def] at hp hd
  have hcompile := compile_of_toOption hp
  have hpath : "Tree" ∈ (declared {} trees).map (·.id) := by decide +kernel
  obtain ⟨b, hbs, _, hencode⟩ := encode_undoes_decode hcompile trees_selfContained hpath hd
  rw [← List.append_cancel_right hbs] at hencode
  exact ⟨p, v, hcompile, trees_selfContained, hpath, hd, hencode (by decide)⟩

end WireRecords.Codec
