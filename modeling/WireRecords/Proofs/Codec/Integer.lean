import Mathlib
import WireRecords.Codec.Integer

/-!
# Fixed-width integers survive the wire

A scalar is written in exactly its width. Reading what was written gives back the value, and writing
what was read gives back the bytes, in either byte order.
-/
namespace WireRecords.Codec

@[simp] theorem toBytes_length (width n : Nat) : (toBytes width n).length = width := by
  induction width generalizing n with
  | zero => rfl
  | succ width ih => simp [toBytes, ih]

@[simp] theorem arrange_length (e : Endian) (bs : List UInt8) :
    (arrange e bs).length = bs.length := by
  cases e <;> simp [arrange]

@[simp] theorem arrange_arrange (e : Endian) (bs : List UInt8) :
    arrange e (arrange e bs) = bs := by
  cases e <;> simp [arrange]

theorem ofBytes_toBytes {width n : Nat} (h : n < 256 ^ width) :
    ofBytes (toBytes width n) = n := by
  induction width generalizing n with
  | zero =>
    have : n = 0 := by simpa using h
    simp [toBytes, ofBytes, this]
  | succ width ih =>
    have hq : n / 256 < 256 ^ width := by
      rw [pow_succ] at h
      omega
    have hb : ((n % 256).toUInt8).toNat = n % 256 := by simp
    simp only [toBytes, ofBytes, ih hq, hb]
    omega

theorem ofBytes_lt (bs : List UInt8) : ofBytes bs < 256 ^ bs.length := by
  induction bs with
  | nil => simp [ofBytes]
  | cons b bs ih =>
    have hb := b.toNat_lt
    simp only [ofBytes, List.length_cons, pow_succ]
    omega

theorem toBytes_ofBytes (bs : List UInt8) : toBytes bs.length (ofBytes bs) = bs := by
  induction bs with
  | nil => rfl
  | cons b bs ih =>
    have hb := b.toNat_lt
    have hlow : (b.toNat + 256 * ofBytes bs) % 256 = b.toNat := by omega
    have hhigh : (b.toNat + 256 * ofBytes bs) / 256 = ofBytes bs := by omega
    simp only [List.length_cons, toBytes, ofBytes, hlow, hhigh, ih]
    simp

end WireRecords.Codec

namespace WireRecords.Scalar
open Codec

theorem count_eq (s : Scalar) : s.count = 256 ^ s.width := rfl

/-- The values that a scalar can hold. -/
def Holds (s : Scalar) (v : Int) : Prop :=
  if s.isSigned then -(s.count : Int) ≤ 2 * v ∧ 2 * v < s.count else 0 ≤ v ∧ v < s.count

instance (s : Scalar) (v : Int) : Decidable (s.Holds v) :=
  inferInstanceAs (Decidable (if s.isSigned then -(s.count : Int) ≤ 2 * v ∧ 2 * v < s.count
    else 0 ≤ v ∧ v < s.count))

theorem toBits_lt (s : Scalar) (v : Int) : s.toBits v < s.count := by
  have hpos : 0 < s.count := Nat.pow_pos (by decide)
  have hlt := Int.emod_lt_of_pos v (by exact_mod_cast hpos : (0 : Int) < s.count)
  have hnn := Int.emod_nonneg v (by omega : (s.count : Int) ≠ 0)
  unfold toBits
  omega

/-- Two's complement gives back a value in range. -/
theorem ofBits_toBits {s : Scalar} {v : Int} (h : s.Holds v) : s.ofBits (s.toBits v) = v := by
  unfold Holds at h
  unfold ofBits toBits
  by_cases hv : 0 ≤ v
  · have hm : v % (s.count : Int) = v := by
      apply Int.emod_eq_of_lt hv
      split at h <;> omega
    have hn : ¬ (s.isSigned && decide (s.count ≤ 2 * v.toNat)) = true := by
      intro hc
      simp only [Bool.and_eq_true, decide_eq_true_eq] at hc
      rw [if_pos hc.1] at h
      omega
    rw [hm, if_neg hn]
    omega
  · have hs : s.isSigned = true := by
      by_contra hn
      simp [hn] at h
      omega
    simp only [hs, if_true] at h
    have hm : v % (s.count : Int) = v + s.count := by
      rw [← Int.add_emod_right]
      apply Int.emod_eq_of_lt <;> omega
    rw [hm]
    simp only [hs, Bool.true_and, decide_eq_true_eq]
    rw [if_pos (by omega)]
    omega

theorem toBits_ofBits {s : Scalar} {n : Nat} (h : n < s.count) : s.toBits (s.ofBits n) = n := by
  unfold ofBits toBits
  split
  · have hm : ((n : Int) - s.count) % s.count = n := by
      rw [Int.sub_emod_right]
      apply Int.emod_eq_of_lt <;> omega
    rw [hm]
    simp
  · rw [Int.emod_eq_of_lt (by omega) (by exact_mod_cast h)]
    simp

theorem holds_ofBits {s : Scalar} {n : Nat} (h : n < s.count) : s.Holds (s.ofBits n) := by
  unfold Holds ofBits
  cases hs : s.isSigned
  · simp only [Bool.false_and, Bool.false_eq_true, if_false]
    omega
  · simp only [Bool.true_and, decide_eq_true_eq, if_true]
    split <;> omega

@[simp] theorem encode_length (s : Scalar) (e : Endian) (v : Int) :
    (s.encode e v).length = s.width := by
  simp [encode]

theorem decode_encode {s : Scalar} {v : Int} (e : Endian) (h : s.Holds v) :
    s.decode e (s.encode e v) = v := by
  have hlt : s.toBits v < 256 ^ s.width := s.toBits_lt v
  simp only [decode, encode, arrange_arrange, ofBytes_toBytes hlt]
  exact ofBits_toBits h

theorem encode_decode {s : Scalar} {bs : List UInt8} (e : Endian) (h : bs.length = s.width) :
    s.encode e (s.decode e bs) = bs := by
  have hlen : (arrange e bs).length = s.width := by simp [h]
  have hlt : ofBytes (arrange e bs) < s.count := by
    rw [count_eq, ← hlen]
    exact ofBytes_lt _
  have hb : toBytes s.width (ofBytes (arrange e bs)) = arrange e bs := by
    rw [← hlen]
    exact toBytes_ofBytes _
  simp only [encode, decode, toBits_ofBits hlt, hb, arrange_arrange]

theorem holds_decode {s : Scalar} {bs : List UInt8} (e : Endian) (h : bs.length = s.width) :
    s.Holds (s.decode e bs) := by
  apply holds_ofBits
  rw [count_eq, ← h, ← arrange_length e bs]
  exact ofBytes_lt _

end WireRecords.Scalar
