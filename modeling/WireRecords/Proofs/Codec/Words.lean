import WireRecords.Proofs.Codec.Success

/-!
# Words on the wire

Which bytes are read as a variable-length integer, and which of them are written. A word has several
spellings, since groups of zeros may stand behind its highest group. Writing puts out the shortest
one, and there is only one of that length.
-/
namespace WireRecords.Codec.Varint

/-! ### Spellings -/

/-- The number that the first `n` groups stand for. -/
def groupSum (bytes : List UInt8) (n : Nat) : Nat :=
  ∑ i ∈ Finset.range n, (bytes.getD i 0).toNat % 128 * 128 ^ i

/-- The first `n` bytes spell a 64-bit word: all but the last of them have their high bit set. -/
structure Spells (bytes : List UInt8) (n : Nat) : Prop where
  pos : 1 ≤ n
  le : n ≤ 10
  continued : ∀ b ∈ bytes.take (n - 1), 128 ≤ b.toNat
  ended : ∃ b, bytes[n - 1]? = some b ∧ b.toNat < 128
  word : groupSum bytes n < 2 ^ 64

/-- What is reported of bytes that spell no word. -/
def refusal (bytes : List UInt8) : DecodeError :=
  if bytes.length < 10 ∧ ∀ b ∈ bytes, 128 ≤ b.toNat then
    .shortRead "Varint" "value" bytes.length (bytes.length + 1)
  else .overflow "Varint" "value"

theorem groupSum_eq_ofGroups {bytes : List UInt8} {n : Nat} (h : n ≤ bytes.length) :
    groupSum bytes n = ofGroups (bytes.take n) := by
  induction n generalizing bytes with
  | zero => rfl
  | succ n ih =>
    cases bytes with
    | nil => simp at h
    | cons b bs =>
      have hshift : groupSum (b :: bs) (n + 1) = b.toNat % 128 + 128 * groupSum bs n := by
        simp only [groupSum, Finset.sum_range_succ', List.getD_cons_succ, List.getD_cons_zero,
          pow_zero, Nat.mul_one, pow_succ, ← Nat.mul_assoc, ← Finset.sum_mul]
        omega
      rw [hshift, ih (by simpa using h), List.take_succ_cons, ofGroups_cons]

/-- The bytes of an integer are told apart by their high bits. -/
theorem groups_take_iff {bytes : List UInt8} {n : Nat} :
    n < bytes.length ∧ Groups (bytes.take (n + 1)) ↔
      (∀ b ∈ bytes.take n, 128 ≤ b.toNat) ∧ ∃ b, bytes[n]? = some b ∧ b.toNat < 128 := by
  induction n generalizing bytes with
  | zero =>
    cases bytes with
    | nil => simp
    | cons b bs =>
      have hnil : ¬ Groups [] := fun h => absurd h.length_pos (by simp)
      simp [groups_cons_iff, hnil]
  | succ n ih =>
    cases bytes with
    | nil => simp
    | cons b bs =>
      have hne : n < bs.length → bs.take (n + 1) ≠ [] := fun hlt => by
        simpa using List.ne_nil_of_length_pos (by omega)
      rw [List.take_succ_cons, List.take_succ_cons, groups_cons_iff, List.forall_mem_cons,
        List.getElem?_cons_succ, List.length_cons, Nat.add_lt_add_iff_right, and_assoc, ← ih]
      constructor
      · rintro ⟨hlt, ⟨_, hnil⟩ | ⟨hb, hgroups⟩⟩
        · exact absurd hnil (hne hlt)
        · exact ⟨hb, hlt, hgroups⟩
      · rintro ⟨hb, hlt, hgroups⟩
        exact ⟨hlt, Or.inr ⟨hb, hgroups⟩⟩

/-- A spelling is cut off behind its last group. -/
theorem Spells.groups {bytes : List UInt8} {n : Nat} (h : Spells bytes n) :
    n ≤ bytes.length ∧ Groups (bytes.take n) := by
  obtain ⟨k, rfl⟩ : ∃ k, n = k + 1 := Nat.exists_eq_succ_of_ne_zero (by have := h.pos; omega)
  exact groups_take_iff.mpr ⟨h.continued, h.ended⟩

theorem Groups.spells {bs : List UInt8} (h : Groups bs) (hlength : bs.length ≤ maxLength)
    (hword : ofGroups bs < 2 ^ 64) (rest : List UInt8) : Spells (bs ++ rest) bs.length := by
  have hpos := h.length_pos
  obtain ⟨k, hk⟩ : ∃ k, bs.length = k + 1 := Nat.exists_eq_succ_of_ne_zero (by omega)
  have htake : (bs ++ rest).take bs.length = bs := List.take_left
  have hgroups : Groups ((bs ++ rest).take (k + 1)) := by rwa [← hk, htake]
  obtain ⟨hcontinued, hended⟩ := groups_take_iff.mp ⟨by simp; omega, hgroups⟩
  rw [hk]
  refine ⟨by omega, hk ▸ hlength, hcontinued, hended, ?_⟩
  rwa [groupSum_eq_ofGroups (by simp; omega), ← hk, htake]

/-- Bytes start with the groups of an integer, or end before its last one, or there are too many. -/
theorem groups_cases (left : Nat) (bytes : List UInt8) :
    (∃ bs rest, bytes = bs ++ rest ∧ Groups bs ∧ bs.length ≤ left) ∨
      (bytes.length < left ∧ ∀ b ∈ bytes, 128 ≤ b.toNat) ∨
      left ≤ bytes.length ∧ ∀ b ∈ bytes.take left, 128 ≤ b.toNat := by
  induction bytes generalizing left with
  | nil =>
    cases left with
    | zero => exact Or.inr (Or.inr (by simp))
    | succ left => exact Or.inr (Or.inl (by simp))
  | cons b bytes ih =>
    cases left with
    | zero => exact Or.inr (Or.inr (by simp))
    | succ left =>
      by_cases hb : b.toNat < 128
      · exact Or.inl ⟨[b], bytes, rfl, .last hb, by simp⟩
      · have hb : 128 ≤ b.toNat := by omega
        obtain ⟨bs, rest, rfl, hgroups, hlength⟩ | ⟨hlength, hall⟩ | ⟨hlength, hall⟩ := ih left
        · exact Or.inl ⟨b :: bs, rest, rfl, .cons hb hgroups, by simpa using hlength⟩
        · exact Or.inr (Or.inl ⟨by simpa using hlength, by simpa [hb] using hall⟩)
        · exact Or.inr (Or.inr ⟨by simpa using hlength, by simpa [hb] using hall⟩)

/-! ### Reading -/

theorem Spells.read {bytes : List UInt8} {n : Nat} (h : Spells bytes n) :
    read bytes = ⟨.ok (groupSum bytes n), bytes.drop n⟩ := by
  obtain ⟨hn, hgroups⟩ := h.groups
  have hlength : (bytes.take n).length ≤ maxLength := by
    rw [List.length_take_of_le hn]
    exact h.le
  have hread := hgroups.read hlength (bytes.drop n)
  rwa [List.take_append_drop, ← groupSum_eq_ofGroups hn, if_pos h.word] at hread

/-- Nothing behind the tenth byte is looked at. -/
theorem read_of_not_spells {bytes : List UInt8} (h : ∀ n, ¬ Spells bytes n) :
    read bytes = ⟨.error (refusal bytes), bytes.drop maxLength⟩ := by
  obtain ⟨bs, rest, rfl, hgroups, hlength⟩ | ⟨hlength, hall⟩ | ⟨hlength, hall⟩ :=
    groups_cases maxLength bytes
  · have hlarge : ¬ ofGroups bs < 2 ^ 64 := fun hword =>
      h _ (hgroups.spells hlength hword rest)
    obtain ⟨b, hb, hlt⟩ := hgroups.exists_last
    have hrefusal : refusal (bs ++ rest) = .overflow "Varint" "value" := by
      refine if_neg fun hall => ?_
      have hge := hall.2 b (List.mem_append_left rest hb)
      omega
    rw [hgroups.read hlength, if_neg hlarge, hrefusal]
  · have hrefusal : refusal bytes =
        .shortRead "Varint" "value" bytes.length (bytes.length + 1) := if_pos ⟨hlength, hall⟩
    rw [Varint.read, readGroups_unfinished hall hlength (Nat.zero_add _), hrefusal,
      List.drop_eq_nil_of_le (Nat.le_of_lt hlength), Nat.zero_add]
  · have hrefusal : refusal bytes = .overflow "Varint" "value" :=
      if_neg fun hshort => absurd hshort.1 (by simp only [maxLength] at hlength; omega)
    have htake : (bytes.take maxLength).length = maxLength := List.length_take_of_le hlength
    have hread := readGroups_endless hall (by rw [htake, Nat.zero_add]) 0 (bytes.drop maxLength)
    rw [htake, List.take_append_drop] at hread
    rw [Varint.read, hread, hrefusal]

/-- Bytes that are read to their end are the groups of the word that is read. -/
theorem groups_of_read {bytes : List UInt8} {n : Nat} (h : read bytes = ⟨.ok n, []⟩) :
    Groups bytes ∧ ofGroups bytes = n := by
  by_cases hspelled : ∃ k, Spells bytes k
  · obtain ⟨k, hk⟩ := hspelled
    obtain ⟨hle, hgroups⟩ := hk.groups
    rw [hk.read] at h
    simp only [Reading.mk.injEq, Except.ok.injEq, List.drop_eq_nil_iff] at h
    rw [groupSum_eq_ofGroups hle, List.take_of_length_le h.2] at h
    rw [List.take_of_length_le h.2] at hgroups
    exact ⟨hgroups, h.1⟩
  · rw [read_of_not_spells (not_exists.mp hspelled)] at h
    simp at h

/-! ### The shortest spelling -/

/-- Behind a highest group that is not zero, the length is that of the number. -/
theorem Groups.encodedLength_le {bs : List UInt8} (h : Groups bs) :
    encodedLength (ofGroups bs) ≤ bs.length ∧
      (encodedLength (ofGroups bs) = bs.length → encode (ofGroups bs) = bs) := by
  induction h with
  | @last b hb =>
    have hof : ofGroups [b] = b.toNat := by simp [ofGroups, Nat.mod_eq_of_lt hb]
    rw [hof, encodedLength_small hb, encode_small hb]
    exact ⟨le_refl 1, fun _ => congrArg (fun c => [c]) UInt8.ofNat_toNat⟩
  | @cons b bs hb hrest ih =>
    have hpos := hrest.length_pos
    have hbyte := b.toNat_lt
    rw [ofGroups_cons, List.length_cons]
    -- Groups of zeros behind the first one add to the length only.
    by_cases hzero : ofGroups bs = 0
    · rw [hzero, encodedLength_small (by omega)]
      exact ⟨by omega, fun heq => by omega⟩
    · have hdiv : (b.toNat % 128 + 128 * ofGroups bs) / 128 = ofGroups bs := by omega
      have hmod : (b.toNat % 128 + 128 * ofGroups bs) % 128 + 128 = b.toNat := by omega
      rw [encodedLength_large (by omega), encode_large (by omega), hdiv, hmod]
      refine ⟨by omega, fun heq => ?_⟩
      rw [ih.2 (by omega)]
      exact congrArg (· :: bs) UInt8.ofNat_toNat

end WireRecords.Codec.Varint

namespace WireRecords.Codec

variable {r : Registry}

/-- Reading into a receiver, which keeps its value when no word is read. -/
theorem read_varint (hf : r.find? Varint.path = none) (receiver : Value) (bytes : List UInt8) :
    read r Varint.path receiver bytes =
      match (Varint.read bytes).result with
      | .ok n => some ⟨.integer n, (Varint.read bytes).rest, none⟩
      | .error e => some ⟨receiver, (Varint.read bytes).rest, some e⟩ := by
  obtain ⟨depth, hdepth⟩ : ∃ k, readDepth r bytes = k + 1 :=
    Nat.exists_eq_succ_of_ne_zero (Nat.mul_ne_zero (Nat.succ_ne_zero _) (Nat.succ_ne_zero _))
  rw [read, hdepth]
  exact readTo_varint hf depth receiver bytes

theorem write_varint (hf : r.find? Varint.path = none) {n : Nat} (hn : n < 2 ^ 64) (room : Nat) :
    write r Varint.path (.integer n) room =
      if room < Varint.encodedLength n then
        some ⟨[], some (.shortWrite "Varint" "value" room (Varint.encodedLength n))⟩
      else some ⟨Varint.encode n, none⟩ := by
  simp only [write, writeTo, hf, if_true, Value.word_of_lt hn, Varint.write]
  by_cases hroom : room < Varint.encodedLength n
  · simp only [if_pos hroom]
  · simp only [if_neg hroom]

/-- A word is written in as many bytes as announced, from one to ten, and read back from them,
whatever follows. With less room nothing is written. -/
theorem words_fill_their_length (hf : r.find? Varint.path = none) (v : UInt64)
    (rest : List UInt8) :
    1 ≤ Varint.encodedLength v.toNat ∧ Varint.encodedLength v.toNat ≤ 10 ∧
      (∀ room, Varint.encodedLength v.toNat ≤ room →
        ∃ bytes, write r Varint.path (.integer v.toNat) room = some ⟨bytes, none⟩ ∧
          bytes.length = Varint.encodedLength v.toNat ∧
          ∀ receiver, read r Varint.path receiver (bytes ++ rest) =
            some ⟨.integer v.toNat, rest, none⟩) ∧
      ∀ room, room < Varint.encodedLength v.toNat →
        write r Varint.path (.integer v.toNat) room = some ⟨[],
          some (.shortWrite "Varint" "value" room (Varint.encodedLength v.toNat))⟩ := by
  have hv : v.toNat < 2 ^ 64 := v.toNat_lt
  refine ⟨Varint.encodedLength_pos _, Varint.encodedLength_le hv, fun room hroom => ?_,
    fun room hroom => ?_⟩
  · refine ⟨Varint.encode v.toNat, ?_, Varint.length_encode _, fun receiver => ?_⟩
    · rw [write_varint hf hv, if_neg (Nat.not_lt.mpr hroom)]
    · rw [read_varint hf, Varint.read_encode rest hv]
  · rw [write_varint hf hv, if_pos hroom]

theorem words_fill_their_length_largest :
    ({} : Registry).find? Varint.path = none ∧
      Varint.encodedLength (0xffffffffffffffff : UInt64).toNat = 10 ∧
      (∃ bytes, write {} Varint.path (.integer (0xffffffffffffffff : UInt64).toNat) 12 =
          some ⟨bytes, none⟩ ∧ bytes.length = 10 ∧
        read {} Varint.path (.integer 5) (bytes ++ [7]) =
          some ⟨.integer (0xffffffffffffffff : UInt64).toNat, [7], none⟩) ∧
      write {} Varint.path (.integer (0xffffffffffffffff : UInt64).toNat) 9 =
        some ⟨[], some (.shortWrite "Varint" "value" 9 10)⟩ := by
  have hlength : Varint.encodedLength (0xffffffffffffffff : UInt64).toNat = 10 := by decide +kernel
  obtain ⟨_, _, hwritten, hshort⟩ :=
    words_fill_their_length (r := {}) rfl 0xffffffffffffffff [7]
  rw [hlength] at hwritten hshort
  obtain ⟨bytes, hwrite, hbytes, hread⟩ := hwritten 12 (by decide)
  exact ⟨rfl, hlength, ⟨bytes, hwrite, hbytes, hread _⟩, hshort 9 (by decide)⟩

/-- A variable-length integer is read exactly where one to ten bytes spell a 64-bit word, which is
stored, and the bytes behind it are left. Otherwise the receiver keeps its value. -/
theorem reading_accepts_words (hf : r.find? Varint.path = none) (receiver : Value)
    (bytes : List UInt8) :
    ((∃ v rest, read r Varint.path receiver bytes = some ⟨v, rest, none⟩) ↔
        ∃ n, Varint.Spells bytes n) ∧
      (∀ n, Varint.Spells bytes n → read r Varint.path receiver bytes =
        some ⟨.integer (Varint.groupSum bytes n), bytes.drop n, none⟩) ∧
      ((¬ ∃ n, Varint.Spells bytes n) → read r Varint.path receiver bytes =
        some ⟨receiver, bytes.drop 10, some (Varint.refusal bytes)⟩) := by
  have haccepted : ∀ n, Varint.Spells bytes n → read r Varint.path receiver bytes =
      some ⟨.integer (Varint.groupSum bytes n), bytes.drop n, none⟩ := by
    intro n hn
    rw [read_varint hf, hn.read]
  have hrefused : (¬ ∃ n, Varint.Spells bytes n) → read r Varint.path receiver bytes =
      some ⟨receiver, bytes.drop 10, some (Varint.refusal bytes)⟩ := by
    intro hnone
    rw [read_varint hf, Varint.read_of_not_spells (not_exists.mp hnone)]
    rfl
  refine ⟨⟨fun ⟨v, rest, hread⟩ => ?_, fun ⟨n, hn⟩ => ⟨_, _, haccepted n hn⟩⟩, haccepted, hrefused⟩
  by_contra hnone
  rw [hrefused hnone] at hread
  simp at hread

/-- A group of zeros may stand at the end, but no second bit in the tenth group. -/
theorem reading_accepts_words_groups :
    ({} : Registry).find? Varint.path = none ∧ Varint.Spells [0xac, 0x82, 0x00, 0x2a] 3 ∧
      read {} Varint.path (.integer 5) [0xac, 0x82, 0x00, 0x2a] =
        some ⟨.integer (300 : Nat), [0x2a], none⟩ ∧
      (¬ ∃ n, Varint.Spells (List.replicate 9 0xff ++ [0x02, 0x2a]) n) ∧
      read {} Varint.path (.integer 5) (List.replicate 9 0xff ++ [0x02, 0x2a]) =
        some ⟨.integer 5, [0x2a], some (.overflow "Varint" "value")⟩ := by
  have hsum : Varint.groupSum [0xac, 0x82, 0x00, 0x2a] 3 = 300 := by decide +kernel
  have hspells : Varint.Spells [0xac, 0x82, 0x00, 0x2a] 3 :=
    ⟨by decide, by decide, by decide +kernel, ⟨0, rfl, by decide⟩, by rw [hsum]; decide⟩
  have hread := (reading_accepts_words (r := {}) rfl (.integer 5) _).2.1 3 hspells
  rw [hsum] at hread
  have hnone : ¬ ∃ n, Varint.Spells (List.replicate 9 0xff ++ [0x02, 0x2a]) n := by
    rintro ⟨n, hn⟩
    have hlarge : (Varint.read (List.replicate 9 0xff ++ [0x02, 0x2a])).result =
        .error (.overflow "Varint" "value") := by rfl
    rw [hn.read] at hlarge
    cases hlarge
  exact ⟨rfl, hspells, hread, hnone, (reading_accepts_words (r := {}) rfl _ _).2.2 hnone⟩

/-- No spelling of a word is shorter than what is written, and no other one is as short. -/
theorem written_words_shortest (hf : r.find? Varint.path = none) {receiver : Value}
    {bytes : List UInt8} {v : UInt64}
    (h : read r Varint.path receiver bytes = some ⟨.integer v.toNat, [], none⟩) :
    Varint.encodedLength v.toNat ≤ bytes.length ∧
      (Varint.encodedLength v.toNat = bytes.length → ∀ room, bytes.length ≤ room →
        write r Varint.path (.integer v.toNat) room = some ⟨bytes, none⟩) := by
  have hread : Varint.read bytes = ⟨.ok v.toNat, []⟩ := by
    rw [read_varint hf] at h
    rcases hq : Varint.read bytes with ⟨e | n, rest⟩
    · simp [hq] at h
    · simp only [hq, Option.some.injEq, Reading.mk.injEq, Value.integer.injEq, Nat.cast_inj] at h
      rw [h.1, h.2.1]
  obtain ⟨hgroups, hof⟩ := Varint.groups_of_read hread
  obtain ⟨hle, heq⟩ := hgroups.encodedLength_le
  rw [hof] at hle heq
  refine ⟨hle, fun hlength room hroom => ?_⟩
  rw [write_varint hf v.toNat_lt, if_neg (by omega), heq hlength]

theorem written_words_shortest_300 :
    ({} : Registry).find? Varint.path = none ∧
      read {} Varint.path (.integer 5) [0xac, 0x02] =
        some ⟨.integer (300 : UInt64).toNat, [], none⟩ ∧
      Varint.encodedLength (300 : UInt64).toNat ≤ 2 ∧
      write {} Varint.path (.integer (300 : UInt64).toNat) 4 = some ⟨[0xac, 0x02], none⟩ := by
  have hread : read {} Varint.path (.integer 5) [0xac, 0x02] =
      some ⟨.integer (300 : UInt64).toNat, [], none⟩ := rfl
  obtain ⟨hle, hwrite⟩ := written_words_shortest (r := {}) rfl hread
  exact ⟨rfl, hread, hle, hwrite (by decide) 4 (by decide)⟩

end WireRecords.Codec
