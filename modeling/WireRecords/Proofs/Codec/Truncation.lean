import WireRecords.Proofs.Codec.RoundTrip

/-!
# Truncated input

Bytes added behind an input do not change what was read from it, unless reading had stopped for
want of bytes. So a reading that succeeds leaves the added bytes over, and the beginning of what was
written for a value is too short: if it could be read, or failed for another reason, so could all
of it.

That the short reading is also found by `read` takes the bound on levels, for a reading that fails.
The bound is shown for the readers that touch only what has an initial value; on bytes that were
written for a value they do all that `readTo` does.
-/
namespace WireRecords.Codec

variable {α β : Type}

namespace Reading

/-- The same reading with more bytes left over. -/
def extend (more : List UInt8) (q : Reading α) : Reading α := { q with rest := q.rest ++ more }

/-- Reading stopped for want of bytes. -/
def IsShort (q : Reading α) : Prop :=
  ∃ record field actual expected,
    q.error = some (.shortRead record field actual expected) ∧ actual < expected

theorem IsShort.not_ok {v : α} {rest : List UInt8} : ¬ IsShort ⟨v, rest, none⟩ := by
  rintro ⟨_, _, _, _, h, _⟩
  cases h

end Reading

/-- Unless the first reading is short, the second is the first with `more` left over. -/
def Stable (more : List UInt8) (q q' : Option (Reading α)) : Prop :=
  (∃ s, q = some s ∧ s.IsShort) ∨ q' = q.map (·.extend more)

namespace Stable

variable {more : List UInt8} {q q' : Option (Reading α)}

theorem map (h : Stable more q q') (f : α → β) :
    Stable more (q.map fun s => ⟨f s.value, s.rest, s.error⟩)
      (q'.map fun s => ⟨f s.value, s.rest, s.error⟩) := by
  rcases h with ⟨s, rfl, hshort⟩ | rfl
  · exact Or.inl ⟨_, rfl, hshort⟩
  · refine Or.inr ?_
    simp only [Option.map_map]
    rfl

/-- A reading that succeeds does so with more bytes. -/
theorem ok (h : Stable more q q') {v : α} {rest : List UInt8} (hq : q = some ⟨v, rest, none⟩) :
    q' = some ⟨v, rest ++ more, none⟩ := by
  rcases h with ⟨s, hs, hshort⟩ | rfl
  · rw [hq] at hs
    obtain rfl := Option.some.inj hs
    exact absurd hshort Reading.IsShort.not_ok
  · rw [hq]
    rfl

/-- Where the added bytes are used, the reading without them is short. -/
theorem short (h : Stable more q q') {v : α} {rest : List UInt8}
    (hq : q' = some ⟨v, rest, none⟩) (hrest : rest.length < more.length) :
    ∃ s, q = some s ∧ s.IsShort := by
  rcases h with hshort | heq
  · exact hshort
  · rw [hq] at heq
    obtain ⟨s, _, hs⟩ := Option.map_eq_some_iff.mp heq.symm
    have hlen := congrArg (fun q : Reading α => q.rest.length) hs
    simp only [Reading.extend, List.length_append] at hlen
    omega

end Stable

/-- A reader of which the same holds for whatever it reads. -/
def StableReader (more : List UInt8) (N : Reader) : Prop :=
  ∀ path v bs, Stable more (N path v bs) (N path v (bs ++ more))

section Pieces

variable {more : List UInt8}

/-- Too few bytes are reported as such; enough bytes stay enough. -/
theorem take_stable (more : List UInt8) (name : FieldName) (count : Nat) (bs : List UInt8) :
    (∃ e, take name count bs = .error e ∧ ∀ {α : Type} (v : α), Reading.IsShort ⟨v, bs, some e⟩) ∨
      ∃ data rest, take name count bs = .ok (data, rest) ∧
        take name count (bs ++ more) = .ok (data, rest ++ more) := by
  by_cases hlen : count ≤ bs.length
  · have hmore : count ≤ (bs ++ more).length := by
      rw [List.length_append]
      omega
    refine Or.inr ⟨_, _, take_of_le hlen, ?_⟩
    rw [take_of_le hmore, List.take_append_of_le_length hlen, List.drop_append_of_le_length hlen]
  · have hlt := Nat.lt_of_not_le hlen
    exact Or.inl ⟨_, take_of_lt hlt, fun _ => ⟨_, _, _, _, rfl, hlt⟩⟩

theorem checkSlice_stable (more : List UInt8) (r : Registry) (name : FieldName) (element : FieldType) (count : Nat)
    (bs : List UInt8) :
    (∃ e, checkSlice r name element count bs = some e ∧
      ∀ {α : Type} (v : α), Reading.IsShort ⟨v, bs, some e⟩) ∨
      checkSlice r name element count bs = none ∧
        checkSlice r name element count (bs ++ more) = none := by
  unfold checkSlice
  cases r.elementWidth? element with
  | none => exact Or.inr ⟨rfl, rfl⟩
  | some width =>
    dsimp only
    by_cases hlen : bs.length < saturatingMul count width
    · rw [if_pos hlen]
      exact Or.inl ⟨_, rfl, fun _ => ⟨_, _, _, _, rfl, hlen⟩⟩
    · have hmore : ¬ (bs ++ more).length < saturatingMul count width := by
        rw [List.length_append]
        omega
      rw [if_neg hlen, if_neg hmore]
      exact Or.inr ⟨rfl, rfl⟩

theorem readElements_stable {E : List UInt8 → Option (Reading Value)}
    (hE : ∀ bs, Stable more (E bs) (E (bs ++ more))) (count : Nat) (bs : List UInt8) :
    Stable more (readElements E count bs) (readElements E count (bs ++ more)) := by
  induction count generalizing bs with
  | zero => exact Or.inr rfl
  | succ count ih =>
    simp only [readElements]
    rcases hE bs with ⟨⟨v, rest, error⟩, hshort, record, field, actual, expected, rfl, hlt⟩ | heq
    · rw [hshort]
      exact Or.inl ⟨_, rfl, _, _, _, _, rfl, hlt⟩
    · rw [heq]
      cases E bs with
      | none => exact Or.inr rfl
      | some q =>
        obtain ⟨v, rest, error⟩ := q
        cases error with
        | some e => exact Or.inr rfl
        | none => exact (ih rest).map (v :: ·)

variable {r : Registry} {N : Reader} (hN : StableReader more N)

include hN

theorem readPlain_stable (name : FieldName) (endian : Endian) (v : Value) (bs : List UInt8)
    (type : FieldType) :
    Stable more (readPlain N name endian v bs type)
      (readPlain N name endian v (bs ++ more) type) := by
  unfold readPlain
  split
  · rename_i s
    rcases take_stable more name s.width bs with ⟨e, he, hshort⟩ | ⟨word, rest, h, h'⟩
    · rw [he]
      exact Or.inl ⟨_, rfl, hshort _⟩
    · rw [h, h']
      exact Or.inr rfl
  · rename_i length
    rcases take_stable more name length bs with ⟨e, he, hshort⟩ | ⟨data, rest, h, h'⟩
    · rw [he]
      exact Or.inl ⟨_, rfl, hshort _⟩
    · rw [h, h']
      exact Or.inr rfl
  · exact hN _ _ _
  · exact hN _ _ _
  · exact Or.inr rfl

theorem readField_stable (record : String) (fs : Fields) (f : RecordedField) (bs : List UInt8) :
    Stable more (readField r N record fs f bs) (readField r N record fs f (bs ++ more)) := by
  unfold readField
  dsimp only
  split
  · -- constant
    rename_i value _
    cases f.info.width.bind Width.fold with
    | none => exact Or.inr rfl
    | some width =>
      dsimp only
      rcases take_stable more ⟨record, f.decl.id⟩ width bs with
        ⟨e, he, hshort⟩ | ⟨data, rest, h, h'⟩
      · rw [he]
        exact Or.inl ⟨_, rfl, hshort _⟩
      · rw [h, h']
        dsimp only
        split <;> exact Or.inr rfl
  · -- byte run
    cases f.info.width with
    | none => exact Or.inr rfl
    | some w =>
      dsimp only
      cases fs.measure w with
      | error fault => exact Or.inr rfl
      | ok length =>
        dsimp only
        rcases take_stable more ⟨record, f.decl.id⟩ length bs with
          ⟨e, he, hshort⟩ | ⟨data, rest, h, h'⟩
        · rw [he]
          exact Or.inl ⟨_, rfl, hshort _⟩
        · rw [h, h']
          exact Or.inr rfl
  · -- slice
    rename_i element _
    cases f.info.width with
    | none => exact Or.inr rfl
    | some w =>
      dsimp only
      cases fs.measure w with
      | error fault => exact Or.inr rfl
      | ok count =>
        dsimp only
        rcases checkSlice_stable more r ⟨record, f.decl.id⟩ element count bs with
          ⟨e, he, hshort⟩ | ⟨h, h'⟩
        · rw [he]
          exact Or.inl ⟨_, rfl, hshort _⟩
        · rw [h, h']
          exact (readElements_stable (fun bs => readPlain_stable hN _ _ _ bs element) count bs).map
            fun items => fs.set f.decl.id (.list items)
  · exact (readPlain_stable hN _ _ _ bs _).map (fs.set f.decl.id)

theorem readFields_stable (record : String) (fs : Fields) (fields : List RecordedField)
    (bs : List UInt8) :
    Stable more (readFields r N record fs fields bs)
      (readFields r N record fs fields (bs ++ more)) := by
  induction fields generalizing fs bs with
  | nil => exact Or.inr rfl
  | cons f fields ih =>
    simp only [readFields]
    rcases readField_stable (r := r) hN record fs f bs with
      ⟨⟨gs, rest, error⟩, hshort, record, field, actual, expected, rfl, hlt⟩ | heq
    · rw [hshort]
      exact Or.inl ⟨_, rfl, _, _, _, _, rfl, hlt⟩
    · rw [heq]
      cases readField r N record fs f bs with
      | none => exact Or.inr rfl
      | some q =>
        obtain ⟨gs, rest, error⟩ := q
        cases error with
        | some e => exact Or.inr rfl
        | none => exact ih gs rest

end Pieces

namespace Varint

theorem readGroups_stable (more : List UInt8) (left index : Nat) (value : UInt64)
    (bytes : List UInt8) :
    (∃ actual, (readGroups left index value bytes).result =
      .error (.shortRead "Varint" "value" actual (actual + 1))) ∨
      readGroups left index value (bytes ++ more) =
        ⟨(readGroups left index value bytes).result,
          (readGroups left index value bytes).rest ++ more⟩ := by
  induction left generalizing index value bytes with
  | zero => exact Or.inr rfl
  | succ left ih =>
    cases bytes with
    | nil => exact Or.inl ⟨index, rfl⟩
    | cons b bytes =>
      simp only [readGroups, List.cons_append]
      split
      · exact Or.inr rfl
      · split
        · exact Or.inr rfl
        · exact ih _ _ _

end Varint

theorem readLevel_stable {r : Registry} {more : List UInt8} {N : Reader}
    (hN : StableReader more N) : StableReader more (readLevel r N) := by
  intro path v bs
  unfold readLevel
  cases r.find? path with
  | some e => exact (readFields_stable hN e.id v.asFields e.fields bs).map Value.record
  | none =>
    dsimp only
    split
    · rcases Varint.readGroups_stable more Varint.maxLength 0 0 bs with ⟨actual, hshort⟩ | heq
      · rw [Varint.read, hshort]
        exact Or.inl ⟨_, rfl, _, _, _, _, rfl, Nat.lt_succ_self actual⟩
      · rw [Varint.read, Varint.read, heq]
        refine Or.inr ?_
        cases (Varint.readGroups Varint.maxLength 0 0 bs).result <;> rfl
    · exact Or.inr rfl

theorem readTo_stable (r : Registry) (n : Nat) (more : List UInt8) :
    StableReader more (readTo r n) := by
  induction n with
  | zero => exact fun _ _ _ => Or.inr rfl
  | succ n ih => exact readLevel_stable ih

/-! ### Reading what has an initial value -/

/-- `readTo` for records that have an initial value, which others contain themselves. -/
def readInhabited (r : Registry) : Nat → Reader
  | 0 => fun _ _ _ => none
  | depth + 1 => fun path receiver bytes =>
    if (initial r path).fits r (.nested path) then
      readLevel r (readInhabited r depth) path receiver bytes
    else none

section Inhabited

variable {r : Registry} {n : Nat} {path : String} {v : Value} {bs : List UInt8}

theorem readInhabited_succ {q : Reading Value} :
    readInhabited r (n + 1) path v bs = some q ↔
      (initial r path).fits r (.nested path) = true ∧
        readLevel r (readInhabited r n) path v bs = some q := by
  simp [readInhabited]

theorem initial_fits_of_readInhabited {q : Reading Value}
    (h : readInhabited r n path v bs = some q) : (initial r path).fits r (.nested path) = true := by
  cases n with
  | zero => simp [readInhabited] at h
  | succ n => exact (readInhabited_succ.mp h).1

theorem readInhabited_consumes (r : Registry) (n : Nat) : Consumes (readInhabited r n) := by
  induction n with
  | zero =>
    intro path v bs q h
    simp [readInhabited] at h
  | succ n ih =>
    intro path v bs q h
    exact readLevel_consumes ih (readInhabited_succ.mp h).2

theorem readInhabited_stable (r : Registry) (n : Nat) (more : List UInt8) :
    StableReader more (readInhabited r n) := by
  induction n with
  | zero => exact fun _ _ _ => Or.inr rfl
  | succ n ih =>
    intro path v bs
    simp only [readInhabited]
    split
    · exact readLevel_stable ih path v bs
    · exact Or.inr rfl

/-- Elements start from values of their types. -/
theorem Simulates.fresh_of_inhabited {bytes : List UInt8} {M : Reader}
    (h : Simulates r (fun _ => True) bytes (readInhabited r n) M) :
    SimulatesFresh r (fun _ => True) bytes (readInhabited r n) M := by
  intro path bs q hbs hread _
  have hfits := initial_fits_of_readInhabited hread
  exact h hbs hfits hfits hread trivial

variable (hr : r.Determined)

include hr

theorem readInhabited_step {m n : Nat} {bytes : List UInt8}
    (h : Simulates r (fun _ => True) bytes (readInhabited r m) (readInhabited r n)) :
    Simulates r (fun _ => True) bytes (readInhabited r (m + 1)) (readInhabited r (n + 1)) := by
  intro path a b bs q hbs ha hb hread _
  obtain ⟨hfits, hlevel⟩ := readInhabited_succ.mp hread
  obtain ⟨q', hq', hagree⟩ := readLevel_simulates hr trivial (readInhabited_consumes r m) h
    h.fresh_of_inhabited hbs ha hb hlevel trivial
  exact ⟨q', readInhabited_succ.mpr ⟨hfits, hq'⟩, hagree⟩

theorem readInhabited_levels : Levels r (fun _ => True) (readInhabited r) where
  name := by
    intro n path v bs q h
    cases n with
    | zero => simp [readInhabited] at h
    | succ n =>
      rcases name_of_readLevel (readInhabited_succ.mp h).2 with ⟨e, hf⟩ | ⟨_, rfl⟩
      · exact mem_names hf
      · exact Finset.mem_insert_self _ _
  up := by
    intro m n hmn bytes
    induction m generalizing n with
    | zero =>
      intro path a b bs q _ _ _ h
      simp [readInhabited] at h
    | succ m ih =>
      obtain ⟨n, rfl⟩ : ∃ k, n = k + 1 := ⟨n - 1, by omega⟩
      exact readInhabited_step hr (ih (by omega))
  step := readInhabited_step hr

/-- The readers do nothing that `readTo` does not. -/
theorem readTo_of_readInhabited (n : Nat) (bytes : List UInt8) :
    Simulates r (fun _ => True) bytes (readInhabited r n) (readTo r n) := by
  induction n with
  | zero =>
    intro path a b bs q _ _ _ h
    simp [readInhabited] at h
  | succ n ih =>
    intro path a b bs q hbs ha hb hread _
    exact readLevel_simulates hr trivial (readInhabited_consumes r n) ih ih.fresh_of_inhabited hbs
      ha hb (readInhabited_succ.mp hread).2 trivial

/-- What can be read to its end has an initial value all the way down. -/
theorem readInhabited_of_readTo (n : Nat) (bytes : List UInt8) :
    Simulates r (· = none) bytes (readTo r n) (readInhabited r n) := by
  induction n with
  | zero =>
    intro path a b bs q _ _ _ h
    simp [readTo] at h
  | succ n ih =>
    have hfresh : SimulatesFresh r (· = none) bytes (readTo r n) (readInhabited r n) := by
      rintro path bs ⟨v, rest, error⟩ hbs hread rfl
      have hfits := initial_fits hr (grounded_of_readTo hread)
      exact ih hbs hfits hfits hread rfl
    rintro path a b bs ⟨v, rest, error⟩ hbs ha hb hread rfl
    have hfits := initial_fits hr (grounded_of_readTo hread)
    have hlevel : Simulates r (· = none) bytes (readTo r (n + 1)) (readLevel r (readInhabited r n)) :=
      readLevel_simulates hr rfl (readTo_consumes r n) ih hfresh
    obtain ⟨q', hq', hagree⟩ := hlevel hbs ha hb hread rfl
    exact ⟨q', readInhabited_succ.mpr ⟨hfits, hq'⟩, hagree⟩

end Inhabited

section Records

variable {r : Registry} (hr : r.Determined) {path : String} {v : Value}

include hr

/-- Bytes behind what is read are left over. -/
theorem read_append {w : Value} {bytes rest : List UInt8} (hv : v.fits r (.nested path) = true)
    (h : read r path v bytes = some ⟨w, rest, none⟩) (more : List UInt8) :
    read r path v (bytes ++ more) = some ⟨w, rest ++ more, none⟩ :=
  read_eq hr hv hv ((readTo_stable r _ more path v bytes).ok h)

/-- Reading that uses its last bytes is short without them. -/
theorem read_short {w : Value} {bytes more rest : List UInt8}
    (hv : v.fits r (.nested path) = true)
    (h : read r path v (bytes ++ more) = some ⟨w, rest, none⟩)
    (hrest : rest.length < more.length) :
    ∃ q, read r path v bytes = some q ∧ q.IsShort := by
  obtain ⟨q, hinhabited, hagree⟩ :=
    readInhabited_of_readTo hr _ _ (List.suffix_refl _) hv hv h rfl
  rw [hagree.eq_of_ok rfl] at hinhabited
  obtain ⟨s, hs, hshort⟩ := (readInhabited_stable r _ more path v bytes).short hinhabited hrest
  obtain ⟨s', hs', hbound⟩ := (readInhabited_levels hr).bound hv hv hs trivial
  obtain ⟨s'', hs'', hsame⟩ :=
    readTo_of_readInhabited hr _ _ (List.suffix_refl _) hv hv hs' trivial
  refine ⟨s'', hs'', ?_⟩
  rw [Reading.IsShort, ← hsame.error, ← hbound.error]
  exact hshort

end Records

/-- In every accepted self-contained run, a record that is decoded from some bytes is decoded from
any longer input too, with the added bytes left over; and from the bytes of a value, cut off
anywhere before their end, decoding fails because more bytes are expected than there are. -/
theorem decoding_needs_all_bytes {config : Config} {units : List CompilationUnit} {p : Progress}
    (h : compile config units = .ok p)
    (hs : SelfContained [Varint.path] (declared config units)) (path : String) :
    (∀ bytes v rest, decode p.compilation.registry path bytes = some ⟨v, rest, none⟩ →
      ∀ more, decode p.compilation.registry path (bytes ++ more) =
        some ⟨v, rest ++ more, none⟩) ∧
    ∀ v bytes, v.fits p.compilation.registry (.nested path) = true →
      encode p.compilation.registry path v = some (.ok bytes) →
      ∀ start, start <+: bytes → start ≠ bytes →
        ∃ receiver rest record field actual expected,
          decode p.compilation.registry path start =
            some ⟨receiver, rest, some (.shortRead record field actual expected)⟩ ∧
          actual < expected := by
  obtain ⟨hr, _⟩ := compile_sound (by decide) h hs
  have hd := hr.determined
  refine ⟨fun bytes v rest hdecode more => ?_, fun v bytes hv hencode start hstart hne => ?_⟩
  · exact read_append hd (initial_fits hd (grounded_of_readTo hdecode)) hdecode more
  · obtain ⟨more, rfl⟩ := hstart
    have hmore : 0 < more.length := List.length_pos_of_ne_nil fun hnil => hne (by simp [hnil])
    have hinitial := initial_fits hd (grounded_of_fits hd rfl hv (Nat.lt_succ_self _))
    have hall := decode_encode hr [] hv hencode
    rw [List.append_nil] at hall
    obtain ⟨⟨receiver, rest, error⟩, hread, record, field, actual, expected, rfl, hlt⟩ :=
      read_short hd hinitial hall hmore
    exact ⟨receiver, rest, record, field, actual, expected, hread, hlt⟩

/-- A packet is read with bytes behind it, and not without its last byte. -/
theorem decoding_needs_all_bytes_packet :
    ∃ p, compile {} packets = .ok p ∧
      decode p.compilation.registry "Packet" (packetBytes ++ [1, 2]) =
        some ⟨exactPacket, [1, 2], none⟩ ∧
      ∃ receiver rest record field actual expected,
        decode p.compilation.registry "Packet" (packetBytes.take 14) =
          some ⟨receiver, rest, some (.shortRead record field actual expected)⟩ ∧
        actual < expected := by
  obtain ⟨p, hp, _, _, hexact, hencode, hlengths⟩ := packets_run
  have hcompile := compile_of_toOption hp
  obtain ⟨hr, _⟩ := compile_sound (by decide) hcompile packets_selfContained
  have hall := decode_encode hr [] hexact hencode
  rw [List.append_nil, Value.trim_of_isExact _ _ _ hlengths] at hall
  obtain ⟨hlong, hshort⟩ := decoding_needs_all_bytes hcompile packets_selfContained "Packet"
  exact ⟨p, hcompile, hlong _ _ _ hall [1, 2],
    hshort exactPacket packetBytes hexact hencode _ (List.take_prefix _ _) (by decide)⟩

end WireRecords.Codec
