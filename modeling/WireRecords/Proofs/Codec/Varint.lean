import Mathlib
import WireRecords.Codec.Varint

/-!
# Variable-length integers survive the wire

The bits of a group are a digit to the base 128, and putting a group behind others adds it at its
place. So reading the groups of an integer gives the number with these digits, as long as it is a
word, and never looks behind the last of them. Every word is read back from its groups.
-/
namespace WireRecords.Codec.Varint

/-! ### Bits and digits -/

/-- The lower seven bits are a digit. -/
theorem toNat_group (b : UInt8) : (b &&& 0x7f).toNat = b.toNat % 128 := by
  rw [UInt8.toNat_and]
  exact Nat.and_two_pow_sub_one_eq_mod b.toNat 7

/-- The high bit is what is left of the byte. -/
theorem highBit_eq_zero_iff (b : UInt8) : b &&& 0x80 = 0 ↔ b.toNat < 128 := by
  have hbit : (b &&& 0x80).toNat = (b.toNat.testBit 7).toNat * 128 := by
    rw [UInt8.toNat_and]
    exact Nat.and_two_pow b.toNat 7
  have hlt := b.toNat_lt
  rw [← UInt8.toNat_inj, hbit, UInt8.toNat_zero, Nat.mul_eq_zero, Bool.toNat_eq_zero,
    Nat.testBit_eq_decide_div_mod_eq, decide_eq_false_iff_not]
  omega

/-- No bits are lost or mixed when the groups before do not reach to the place of the new one. -/
theorem toNat_place {value : UInt64} {index : Nat} (b : UInt8) (hindex : index < maxLength)
    (hvalue : value.toNat < 128 ^ index) (hgroup : b.toNat % 128 * 128 ^ index < 2 ^ 64) :
    (place value index (b &&& 0x7f)).toNat = value.toNat + b.toNat % 128 * 128 ^ index := by
  have hpow : (128 : Nat) ^ index = 2 ^ (7 * index) := by rw [pow_mul]; rfl
  have hshift : (7 * index).toUInt64.toNat % 64 = 7 * index := by
    simp only [maxLength] at hindex
    simp only [Nat.toUInt64, UInt64.toNat_ofNat']
    omega
  rw [hpow] at hvalue hgroup ⊢
  rw [place, UInt64.toNat_or, UInt64.toNat_shiftLeft, UInt8.toNat_toUInt64, toNat_group, hshift,
    Nat.shiftLeft_eq, Nat.mod_eq_of_lt hgroup, Nat.or_comm, Nat.mul_comm (b.toNat % 128),
    ← Nat.two_pow_add_eq_or_of_lt hvalue, Nat.add_comm]

theorem encode_small {n : Nat} (h : n < 128) : encode n = [n.toUInt8] := by
  have hgroup : n &&& 0x7f = n :=
    (Nat.and_two_pow_sub_one_eq_mod n 7).trans (Nat.mod_eq_of_lt h)
  have hshift : n >>> 7 = 0 := by
    rw [Nat.shiftRight_eq_div_pow]
    omega
  rw [encode]
  simp only [hgroup, hshift, if_true]

theorem encode_large {n : Nat} (h : ¬ n < 128) :
    encode n = (n % 128 + 128).toUInt8 :: encode (n / 128) := by
  have hgroup : n &&& 0x7f = n % 128 := Nat.and_two_pow_sub_one_eq_mod n 7
  have hshift : n >>> 7 = n / 128 := Nat.shiftRight_eq_div_pow n 7
  have hmark : (n % 128).toUInt8 ||| 0x80 = (n % 128 + 128).toUInt8 := by
    have hor := Nat.two_pow_add_eq_or_of_lt (Nat.mod_lt n (show 0 < 2 ^ 7 by decide)) 1
    apply UInt8.toNat_inj.mp
    simp only [UInt8.toNat_or, Nat.toUInt8, UInt8.toNat_ofNat']
    rw [Nat.mod_eq_of_lt (show n % 128 < 2 ^ 8 by omega), Nat.or_comm]
    refine hor.symm.trans ?_
    omega
  rw [encode]
  simp only [hgroup, hshift, hmark, if_neg (show n / 128 ≠ 0 by omega)]

/-! ### Reading group by group -/

theorem readGroups_cons (left index : Nat) (value : UInt64) (b : UInt8) (rest : List UInt8) :
    readGroups (left + 1) index value (b :: rest) =
      if index + 1 = maxLength ∧ 1 < b.toNat % 128 then
        ⟨.error (.overflow "Varint" "value"), rest⟩
      else if b.toNat < 128 then ⟨.ok (place value index (b &&& 0x7f)).toNat, rest⟩
      else readGroups left (index + 1) (place value index (b &&& 0x7f)) rest := by
  have hgroup : (1 < b &&& 0x7f) ↔ 1 < b.toNat % 128 := by
    rw [UInt8.lt_iff_toNat_lt, toNat_group, UInt8.toNat_one]
  simp only [readGroups, Bool.and_eq_true, decide_eq_true_eq, hgroup, highBit_eq_zero_iff]

/-- What is left after reading is the end of what was there. -/
theorem readGroups_suffix (left index : Nat) (value : UInt64) (bytes : List UInt8) :
    (readGroups left index value bytes).rest <:+ bytes := by
  induction left generalizing index value bytes with
  | zero => exact List.suffix_refl _
  | succ left ih =>
    cases bytes with
    | nil => exact List.suffix_refl _
    | cons b rest =>
      rw [readGroups_cons]
      split
      · exact List.suffix_cons b rest
      · split
        · exact List.suffix_cons b rest
        · exact (ih _ _ _).trans (List.suffix_cons b rest)

theorem read_suffix (bytes : List UInt8) : (read bytes).rest <:+ bytes :=
  readGroups_suffix _ _ _ _

/-- A word takes at least one byte. -/
theorem readGroups_length_lt {left index n : Nat} {value : UInt64} {bytes : List UInt8}
    (h : (readGroups left index value bytes).result = .ok n) :
    (readGroups left index value bytes).rest.length < bytes.length := by
  cases left with
  | zero => simp [readGroups] at h
  | succ left =>
    cases bytes with
    | nil => simp [readGroups] at h
    | cons b bytes =>
      rw [readGroups_cons] at h ⊢
      split at h
      · simp at h
      · rename_i hgroup
        rw [if_neg hgroup]
        have hsuffix := (readGroups_suffix left (index + 1)
          (place value index (b &&& 0x7f)) bytes).length_le
        split
        · simp
        · simp only [List.length_cons]
          omega

/-- Reading does not break off. -/
theorem readGroups_ne_fault (left index : Nat) (value : UInt64) (bytes : List UInt8)
    (fault : Fault) : (readGroups left index value bytes).result ≠ .error (.fault fault) := by
  induction left generalizing index value bytes with
  | zero => simp [readGroups]
  | succ left ih =>
    cases bytes with
    | nil => simp [readGroups]
    | cons b rest =>
      rw [readGroups_cons]
      split
      · simp
      · split
        · simp
        · exact ih _ _ _

/-! ### Groups of an integer -/

/-- The groups of one integer: every byte but the last has its high bit set. -/
inductive Groups : List UInt8 → Prop
  | last {b : UInt8} (h : b.toNat < 128) : Groups [b]
  | cons {b : UInt8} {bs : List UInt8} (h : 128 ≤ b.toNat) (rest : Groups bs) : Groups (b :: bs)

/-- The number whose digits are the groups. -/
def ofGroups (bs : List UInt8) : Nat := Nat.ofDigits 128 (bs.map (·.toNat % 128))

theorem ofGroups_cons (b : UInt8) (bs : List UInt8) :
    ofGroups (b :: bs) = b.toNat % 128 + 128 * ofGroups bs := by
  simp only [ofGroups, List.map_cons, Nat.ofDigits_cons]

theorem groups_cons_iff {b : UInt8} {bs : List UInt8} :
    Groups (b :: bs) ↔ b.toNat < 128 ∧ bs = [] ∨ 128 ≤ b.toNat ∧ Groups bs := by
  constructor
  · intro h
    cases h with
    | last hb => exact Or.inl ⟨hb, rfl⟩
    | cons hb rest => exact Or.inr ⟨hb, rest⟩
  · rintro (⟨hb, rfl⟩ | ⟨hb, rest⟩)
    · exact .last hb
    · exact .cons hb rest

theorem Groups.length_pos {bs : List UInt8} (h : Groups bs) : 0 < bs.length := by
  cases h <;> simp

theorem Groups.exists_last {bs : List UInt8} (h : Groups bs) : ∃ b ∈ bs, b.toNat < 128 := by
  induction h with
  | @last b hb => exact ⟨b, List.mem_singleton_self b, hb⟩
  | cons _ _ ih =>
    obtain ⟨c, hc, hlt⟩ := ih
    exact ⟨c, List.mem_cons_of_mem _ hc, hlt⟩

/-- Nine groups fill 63 bits, so that the tenth has to be a single bit. -/
theorem place_last {value : UInt64} {index digit : Nat} (hindex : index < maxLength)
    (hvalue : value.toNat < 128 ^ index) (hdigit : digit < 128) :
    value.toNat + digit * 128 ^ index < 2 ^ 64 ↔ ¬ (index + 1 = maxLength ∧ 1 < digit) := by
  by_cases hlast : index + 1 = maxLength
  · obtain rfl : index = 9 := by
      simp only [maxLength] at hlast
      omega
    simp only [hlast, true_and]
    omega
  · have hpow : (128 : Nat) ^ (index + 1) ≤ 128 ^ 9 := by
      simp only [maxLength] at hindex hlast
      exact Nat.pow_le_pow_right (by decide) (by omega)
    have hle : digit * 128 ^ index ≤ 127 * 128 ^ index := Nat.mul_le_mul_right _ (by omega)
    rw [pow_succ] at hpow
    simp only [hlast, false_and, not_false_eq_true, iff_true]
    omega

/-- Reading goes on behind a group that is not the tenth. -/
theorem readGroups_continue {left index : Nat} {value : UInt64} {b : UInt8}
    (hindex : index + 1 < maxLength) (hb : 128 ≤ b.toNat) (rest : List UInt8) :
    readGroups (left + 1) index value (b :: rest) =
      readGroups left (index + 1) (place value index (b &&& 0x7f)) rest := by
  rw [readGroups_cons, if_neg (fun h => by omega), if_neg (by omega)]

/-- The groups of an integer are read, and they are refused exactly if it is no word. -/
theorem Groups.readGroups {bs : List UInt8} (h : Groups bs) {left index : Nat} {value : UInt64}
    (hbs : bs.length ≤ left) (hleft : index + left = maxLength)
    (hvalue : value.toNat < 128 ^ index) (rest : List UInt8) :
    readGroups left index value (bs ++ rest) =
      if value.toNat + ofGroups bs * 128 ^ index < 2 ^ 64 then
        ⟨.ok (value.toNat + ofGroups bs * 128 ^ index), rest⟩
      else ⟨.error (.overflow "Varint" "value"), (bs ++ rest).drop left⟩ := by
  induction h generalizing left index value with
  | @last b hb =>
    obtain ⟨left, rfl⟩ : ∃ k, left = k + 1 := Nat.exists_eq_succ_of_ne_zero (by
      simp only [List.length_singleton] at hbs
      omega)
    have hmod : b.toNat % 128 = b.toNat := Nat.mod_eq_of_lt hb
    have hword := place_last (by omega) hvalue hb
    have hof : ofGroups [b] = b.toNat := by simp [ofGroups, hmod]
    rw [List.singleton_append, readGroups_cons, hmod, hof]
    by_cases hlarge : index + 1 = maxLength ∧ 1 < b.toNat
    · obtain rfl : left = 0 := by omega
      rw [if_pos hlarge, if_neg (fun hlt => hword.mp hlt hlarge)]
      rfl
    · have hlt := hword.mpr hlarge
      have hplace := toNat_place b (by omega) hvalue (by
        rw [hmod]
        omega)
      rw [if_neg hlarge, if_pos hb, if_pos hlt, hplace, hmod]
  | @cons b bs hb hrest ih =>
    have hpos := hrest.length_pos
    rw [List.length_cons] at hbs
    obtain ⟨left, rfl⟩ : ∃ k, left = k + 1 := Nat.exists_eq_succ_of_ne_zero (by omega)
    have hindex : index + 1 < maxLength := by omega
    have hdigit : b.toNat % 128 < 128 := Nat.mod_lt _ (by decide)
    have hword := (place_last (by omega) hvalue hdigit).mpr (fun h => by omega)
    have hplace := toNat_place b (by omega) hvalue (by omega)
    have hnext : (place value index (b &&& 0x7f)).toNat < 128 ^ (index + 1) := by
      have hle : b.toNat % 128 * 128 ^ index ≤ 127 * 128 ^ index :=
        Nat.mul_le_mul_right _ (by omega)
      rw [hplace, pow_succ]
      omega
    have hsum : value.toNat + b.toNat % 128 * 128 ^ index + ofGroups bs * 128 ^ (index + 1) =
        value.toNat + ofGroups (b :: bs) * 128 ^ index := by
      rw [ofGroups_cons]
      ring
    rw [List.cons_append, readGroups_continue hindex hb,
      ih (by omega) (by omega) hnext, hplace, hsum, List.drop_succ_cons]

theorem Groups.read {bs : List UInt8} (h : Groups bs) (hbs : bs.length ≤ maxLength)
    (rest : List UInt8) :
    read (bs ++ rest) =
      if ofGroups bs < 2 ^ 64 then ⟨.ok (ofGroups bs), rest⟩
      else ⟨.error (.overflow "Varint" "value"), (bs ++ rest).drop maxLength⟩ := by
  rw [Varint.read, h.readGroups hbs (Nat.zero_add _) (by decide)]
  simp only [UInt64.toNat_zero, pow_zero, Nat.mul_one, Nat.zero_add]

/-- Groups of which the last is missing. -/
theorem readGroups_unfinished {bs : List UInt8} (h : ∀ b ∈ bs, 128 ≤ b.toNat) {left index : Nat}
    (hbs : bs.length < left) (hleft : index + left = maxLength) (value : UInt64) :
    readGroups left index value bs =
      ⟨.error (.shortRead "Varint" "value" (index + bs.length) (index + bs.length + 1)), []⟩ := by
  induction bs generalizing left index value with
  | nil =>
    obtain ⟨left, rfl⟩ : ∃ k, left = k + 1 := Nat.exists_eq_succ_of_ne_zero (by
      simp only [List.length_nil] at hbs
      omega)
    rfl
  | cons b bs ih =>
    rw [List.length_cons] at hbs
    obtain ⟨left, rfl⟩ : ∃ k, left = k + 1 := Nat.exists_eq_succ_of_ne_zero (by omega)
    have hb := h b List.mem_cons_self
    have hbs' : ∀ c ∈ bs, 128 ≤ c.toNat := fun c hc => h c (List.mem_cons_of_mem b hc)
    rw [readGroups_continue (by omega) hb, ih hbs' (by omega) (by omega), List.length_cons,
      Nat.add_assoc, Nat.add_comm 1]

/-- More groups than a word has. -/
theorem readGroups_endless {bs : List UInt8} (h : ∀ b ∈ bs, 128 ≤ b.toNat) {index : Nat}
    (hleft : index + bs.length = maxLength) (value : UInt64) (rest : List UInt8) :
    readGroups bs.length index value (bs ++ rest) =
      ⟨.error (.overflow "Varint" "value"), rest⟩ := by
  induction bs generalizing index value with
  | nil => rfl
  | cons b bs ih =>
    have hb := h b List.mem_cons_self
    have hbs : ∀ c ∈ bs, 128 ≤ c.toNat := fun c hc => h c (List.mem_cons_of_mem b hc)
    rw [List.length_cons] at hleft ⊢
    rw [List.cons_append, readGroups_cons]
    by_cases hlarge : index + 1 = maxLength ∧ 1 < b.toNat % 128
    · obtain rfl : bs = [] := List.length_eq_zero_iff.mp (by omega)
      rw [if_pos hlarge]
      rfl
    · rw [if_neg hlarge, if_neg (by omega), ih hbs (by omega)]

/-! ### Encoding -/

theorem groups_encode (n : Nat) : Groups (encode n) ∧ ofGroups (encode n) = n := by
  induction n using Nat.strongRecOn with
  | ind n ih =>
    by_cases h : n < 128
    · have hb : n.toUInt8.toNat = n := by
        simp only [Nat.toUInt8, UInt8.toNat_ofNat']
        omega
      rw [encode_small h]
      refine ⟨.last (by omega), ?_⟩
      simp only [ofGroups, List.map_cons, List.map_nil, Nat.ofDigits_singleton, hb]
      omega
    · have hb : (n % 128 + 128).toUInt8.toNat = n % 128 + 128 := by
        simp only [Nat.toUInt8, UInt8.toNat_ofNat']
        omega
      obtain ⟨hgroups, hof⟩ := ih (n / 128) (by omega)
      rw [encode_large h]
      refine ⟨.cons (by omega) hgroups, ?_⟩
      rw [ofGroups_cons, hof, hb]
      omega

theorem encodedLength_small {n : Nat} (h : n < 128) : encodedLength n = 1 := by
  have hbits : bitLength n ≤ 7 := by
    unfold bitLength
    split
    · omega
    · rename_i hn
      have hlog := (Nat.log2_lt hn).mpr (show n < 2 ^ 7 from h)
      omega
  unfold encodedLength
  omega

/-- The seven bits of a group are one byte. -/
theorem encodedLength_large {n : Nat} (h : ¬ n < 128) :
    encodedLength n = encodedLength (n / 128) + 1 := by
  have hlog : (n / 128).log2 = n.log2 - 7 := by
    rw [Nat.log2_eq_log_two, Nat.log2_eq_log_two]
    exact Nat.log_div_base_pow 2 n 7
  have hseven : 7 ≤ n.log2 := (Nat.le_log2 (by omega)).mpr (by omega)
  simp only [encodedLength, bitLength, if_neg (show n ≠ 0 by omega),
    if_neg (show n / 128 ≠ 0 by omega), hlog]
  omega

theorem length_encode (n : Nat) : (encode n).length = encodedLength n := by
  induction n using Nat.strongRecOn with
  | ind n ih =>
    by_cases h : n < 128
    · rw [encode_small h, encodedLength_small h, List.length_singleton]
    · rw [encode_large h, encodedLength_large h, List.length_cons, ih (n / 128) (by omega)]

theorem encodedLength_pos (n : Nat) : 1 ≤ encodedLength n := le_max_left _ _

/-- Ten groups hold 64 bits. -/
theorem encodedLength_le {n : Nat} (h : n < 2 ^ 64) : encodedLength n ≤ maxLength := by
  have hbits : bitLength n ≤ 64 := by
    unfold bitLength
    split
    · omega
    · rename_i hn
      exact (Nat.log2_lt hn).mpr h
  unfold encodedLength maxLength
  omega

/-- A word is read back, whatever follows it. -/
theorem read_encode {n : Nat} (rest : List UInt8) (h : n < 2 ^ 64) :
    read (encode n ++ rest) = ⟨.ok n, rest⟩ := by
  obtain ⟨hgroups, hof⟩ := groups_encode n
  have hlength : (encode n).length ≤ maxLength := (length_encode n).trans_le (encodedLength_le h)
  rw [hgroups.read hlength, hof, if_pos h]

/-- Writing succeeds with the groups of the word or not at all. -/
theorem write_eq_ok {n room : Nat} {bytes : List UInt8} (h : write n room = .ok bytes) :
    bytes = encode n := by
  unfold write at h
  split at h
  · simp at h
  · simpa using h.symm

end WireRecords.Codec.Varint
