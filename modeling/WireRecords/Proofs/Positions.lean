import WireRecords.Proofs.Directive.Boundary
import WireRecords.Proofs.Files

/-!
# Positions are exact

The line of a position is the number of line feeds before it, and its column is what is left from
the start of that line on. Both are said about the bytes of a text, so that they hold for an offset
inside a character, and for one beyond the end, as well.
-/
namespace WireRecords

/-! ### Line feeds as bytes -/

/-- The byte of a line feed. -/
def lineFeed : UInt8 := 10

/-- No other character has the byte of a line feed. -/
theorem lineFeed_notMem_encode {c : Char} (h : c ≠ '\n') :
    lineFeed ∉ String.utf8EncodeChar c := by
  have hcode : c.toNat ≠ 10 := by
    intro hc
    exact h (Char.ext (UInt32.toNat_inj.mp hc))
  have hval : c.val.toNat = c.toNat := rfl
  simp only [String.utf8EncodeChar, lineFeed, hval]
  split_ifs <;> simp [← UInt8.toNat_inj] <;> omega

/-! ### Where lines start -/

/-- The offsets behind the line feeds of bytes, the first of which has the offset `base`. -/
def startsBehind : Nat → List UInt8 → List Nat
  | _, [] => []
  | base, b :: bs =>
    if b = lineFeed then (base + 1) :: startsBehind (base + 1) bs else startsBehind (base + 1) bs

theorem startsBehind_append {base : Nat} {bs more : List UInt8} (h : lineFeed ∉ bs) :
    startsBehind base (bs ++ more) = startsBehind (base + bs.length) more := by
  induction bs generalizing base with
  | nil => rfl
  | cons b bs ih =>
    obtain ⟨hb, hbs⟩ : lineFeed ≠ b ∧ lineFeed ∉ bs := by simpa using h
    rw [List.cons_append, startsBehind, if_neg (Ne.symm hb), ih hbs, List.length_cons]
    congr 1
    omega

theorem lineStarts_go_eq (base : Nat) (cs : List Char) :
    lineStarts.go base cs = startsBehind base (cs.flatMap String.utf8EncodeChar) := by
  induction cs generalizing base with
  | nil => rfl
  | cons c cs ih =>
    simp only [lineStarts.go, List.flatMap_cons, ih]
    split_ifs with hc
    · subst hc
      rfl
    · rw [startsBehind_append (lineFeed_notMem_encode hc), String.length_utf8EncodeChar]

theorem lineStarts_eq (text : String) :
    lineStarts text.toList = 0 :: startsBehind 0 (bytesOfText text) := by
  rw [lineStarts, lineStarts_go_eq, bytesOfText_eq]

section StartsBehind

variable {base start : Nat} {bs : List UInt8}

theorem mem_startsBehind :
    start ∈ startsBehind base bs ↔ ∃ k, start = base + k + 1 ∧ bs[k]? = some lineFeed := by
  induction bs generalizing base with
  | nil => simp [startsBehind]
  | cons b bs ih =>
    have hfirst : (∃ k, start = base + k + 1 ∧ (b :: bs)[k]? = some lineFeed) ↔
        (start = base + 1 ∧ b = lineFeed) ∨
          ∃ k, start = base + 1 + k + 1 ∧ bs[k]? = some lineFeed := by
      constructor
      · rintro ⟨_ | k, hstart, hk⟩
        · exact Or.inl ⟨hstart, by simpa using hk⟩
        · exact Or.inr ⟨k, by omega, by simpa using hk⟩
      · rintro (⟨hstart, hb⟩ | ⟨k, hstart, hk⟩)
        · exact ⟨0, hstart, by simpa using hb⟩
        · exact ⟨k + 1, by omega, by simpa using hk⟩
    rw [hfirst, ← ih, startsBehind]
    split_ifs with hb <;> simp [hb]

theorem lt_of_mem_startsBehind (h : start ∈ startsBehind base bs) : base < start := by
  obtain ⟨k, rfl, _⟩ := mem_startsBehind.mp h
  omega

theorem startsBehind_pairwise (base : Nat) (bs : List UInt8) :
    (startsBehind base bs).Pairwise (· < ·) := by
  induction bs generalizing base with
  | nil => exact .nil
  | cons b bs ih =>
    rw [startsBehind]
    split_ifs
    · exact List.pairwise_cons.mpr ⟨fun _ => lt_of_mem_startsBehind, ih (base + 1)⟩
    · exact ih (base + 1)

/-- As many lines start up to an offset as line feeds stand before it. -/
theorem length_takeWhile_startsBehind (base : Nat) (bs : List UInt8) (n : Nat) :
    ((startsBehind base bs).takeWhile (· ≤ base + n)).length = (bs.take n).count lineFeed := by
  induction bs generalizing base n with
  | nil => simp [startsBehind]
  | cons b bs ih =>
    cases n with
    | zero =>
      cases hstarts : startsBehind base (b :: bs) with
      | nil => simp
      | cons start starts =>
        have hlt : base < start := lt_of_mem_startsBehind (hstarts ▸ List.mem_cons_self)
        simp [hlt]
    | succ n =>
      have hnext := ih (base + 1) n
      rw [show base + 1 + n = base + (n + 1) by omega] at hnext
      rw [startsBehind, List.take_succ_cons, List.count_cons, ← hnext]
      split_ifs with hb <;> simp_all

end StartsBehind

/-! ### The position of an offset -/

namespace Position

/-- The search has found the line numbered `line`. It goes on over as many lines as start up to the
offset, and ends at the last of them. -/
theorem locate_exact {offset start : Nat} (hstart : start ≤ offset) (line : Nat)
    (starts : List Nat) : ∃ found column,
      locate offset ⟨offset, line, offset - start⟩ (line + 1) starts =
        ⟨offset, line + (starts.takeWhile (· ≤ offset)).length, column⟩ ∧
      (start :: starts)[(starts.takeWhile (· ≤ offset)).length]? = some found ∧
      found + column = offset := by
  induction starts generalizing start line with
  | nil => exact ⟨start, offset - start, rfl, rfl, by omega⟩
  | cons next starts ih =>
    by_cases hnext : offset < next
    · refine ⟨start, offset - start, ?_, ?_, by omega⟩ <;> simp [locate, hnext]
    · obtain ⟨found, column, hlocate, hfound, hcolumn⟩ := ih (Nat.le_of_not_lt hnext) (line + 1)
      refine ⟨found, column, ?_, ?_, hcolumn⟩
      · simp [locate, hnext, hlocate, Nat.le_of_not_lt hnext]
        omega
      · simpa [Nat.le_of_not_lt hnext] using hfound

theorem order_ne_gt {p q : Position} (hoffset : p.offset ≤ q.offset) (hline : p.line ≤ q.line)
    (hcolumn : p.line = q.line → p.column ≤ q.column) : order p q ≠ .gt := by
  simp only [order, ne_eq, Ordering.then_eq_gt, Nat.compare_eq_gt, Nat.compare_eq_eq]
  omega

/-- The line and the column of an offset, both told by the bytes of the text. -/
theorem ofOffset_lineStarts (text : String) (offset : Nat) :
    let starts := lineStarts text.toList
    (ofOffset starts offset).line = ((bytesOfText text).take offset).count lineFeed ∧
      ∃ start, starts[(ofOffset starts offset).line]? = some start ∧
        start + (ofOffset starts offset).column = offset := by
  obtain ⟨start, column, hlocate, hstart, hcolumn⟩ :=
    locate_exact (Nat.zero_le offset) 0 (startsBehind 0 (bytesOfText text))
  have hcount := length_takeWhile_startsBehind 0 (bytesOfText text) offset
  rw [Nat.zero_add] at hcount
  have hposition : ofOffset (lineStarts text.toList) offset =
      ⟨offset, ((bytesOfText text).take offset).count lineFeed, column⟩ := by
    rw [lineStarts_eq, ofOffset, locate, if_neg (Nat.not_lt_zero offset), hlocate, hcount,
      Nat.zero_add]
  refine ⟨by rw [hposition], start, ?_, by rw [hposition, hcolumn]⟩
  rw [hposition, lineStarts_eq, ← hcount, hstart]

theorem line_le_of_le (text : String) {a b : Nat} (h : a ≤ b) :
    (ofOffset (lineStarts text.toList) a).line ≤ (ofOffset (lineStarts text.toList) b).line := by
  rw [(ofOffset_lineStarts text a).1, (ofOffset_lineStarts text b).1]
  exact (List.take_sublist_take_left h).count_le lineFeed

/-- On one line columns differ as offsets do. -/
theorem column_le_of_le (text : String) {a b : Nat} (h : a ≤ b)
    (hline : (ofOffset (lineStarts text.toList) a).line =
      (ofOffset (lineStarts text.toList) b).line) :
    (ofOffset (lineStarts text.toList) a).column ≤
      (ofOffset (lineStarts text.toList) b).column := by
  obtain ⟨start, hstart, ha⟩ := (ofOffset_lineStarts text a).2
  obtain ⟨start', hstart', hb⟩ := (ofOffset_lineStarts text b).2
  rw [← hline, hstart, Option.some.injEq] at hstart'
  omega

end Position

open Position in
/-- Lines start at zero and behind every line feed, and nowhere else. An offset stands on the line
whose number is that of the line feeds before it, and its column counts from the start of that line.
Positions are ordered as their offsets are. -/
theorem positions_exact_and_monotone (text : String) :
    let starts := lineStarts text.toList
    (∀ start, start ∈ starts ↔
      start = 0 ∨ ∃ k, start = k + 1 ∧ (bytesOfText text)[k]? = some lineFeed) ∧
    starts.Pairwise (· < ·) ∧
    (∀ offset, (ofOffset starts offset).offset = offset ∧
      (ofOffset starts offset).line = ((bytesOfText text).take offset).count lineFeed ∧
      ∃ start, starts[(ofOffset starts offset).line]? = some start ∧
        start + (ofOffset starts offset).column = offset) ∧
    ∀ a b, a ≤ b →
      order (ofOffset starts a) (ofOffset starts b) ≠ .gt ∧
      (ofOffset starts a).line ≤ (ofOffset starts b).line ∧
      ((ofOffset starts a).line = (ofOffset starts b).line →
        (ofOffset starts a).column ≤ (ofOffset starts b).column) := by
  refine ⟨fun start => ?_, ?_, fun offset => ⟨?_, ofOffset_lineStarts text offset⟩,
    fun a b hab => ?_⟩
  · rw [lineStarts_eq, List.mem_cons, mem_startsBehind]
    simp only [Nat.zero_add]
  · rw [lineStarts_eq]
    exact List.pairwise_cons.mpr ⟨fun _ => lt_of_mem_startsBehind, startsBehind_pairwise _ _⟩
  · exact offset_ofOffset _ offset
  · have hline := line_le_of_le text hab
    have hcolumn := column_le_of_le text hab
    exact ⟨order_ne_gt (by simpa using hab) hline hcolumn, hline, hcolumn⟩

open Position in
/-- The offsets 3 and 4 are the starts of an empty line and of the line behind it. -/
theorem positions_exact_and_monotone_emptyLine :
    let starts := lineStarts "é\n\nb".toList
    3 ≤ 4 ∧ ofOffset starts 3 = ⟨3, 1, 0⟩ ∧ ofOffset starts 4 = ⟨4, 2, 0⟩ ∧
      order (ofOffset starts 3) (ofOffset starts 4) ≠ .gt ∧
      (ofOffset starts 3).line ≤ (ofOffset starts 4).line ∧
      ((ofOffset starts 3).line = (ofOffset starts 4).line →
        (ofOffset starts 3).column ≤ (ofOffset starts 4).column) :=
  ⟨by decide, by decide, by decide,
    (positions_exact_and_monotone "é\n\nb").2.2.2 3 4 (by decide)⟩

end WireRecords
