import Mathlib.Data.List.Basic
import Mathlib.Data.List.TakeWhile
import WireRecords.Text.Blank

/-!
# Trimming and lines

What is trimmed is what stands between white space. A text that is put together from lines is
divided into them again, each without the carriage return that may be its last character.
-/
namespace WireRecords.Text

/-! ### Trimming -/

def AllBlank (cs : List Char) : Prop := ∀ c ∈ cs, isBlank c = true

instance (cs : List Char) : Decidable (AllBlank cs) :=
  decidable_of_iff (cs.all isBlank = true) List.all_eq_true

/-- White space stands neither first nor last. -/
structure Trimmed (cs : List Char) : Prop where
  first : ∀ c ∈ cs.head?, isBlank c = false
  last : ∀ c ∈ cs.getLast?, isBlank c = false

instance (cs : List Char) : Decidable (Trimmed cs) :=
  decidable_of_iff (cs.head?.any isBlank = false ∧ cs.getLast?.any isBlank = false) <| by
    simp only [Option.any_eq_false]
    exact ⟨fun h => ⟨h.1, h.2⟩, fun h => ⟨h.first, h.last⟩⟩

theorem AllBlank.reverse {cs : List Char} (h : AllBlank cs) : AllBlank cs.reverse :=
  fun c hc => h c (List.mem_reverse.mp hc)

theorem trimStart_append {blank cs : List Char} (hblank : AllBlank blank)
    (hfirst : ∀ c ∈ cs.head?, isBlank c = false) : trimStart (blank ++ cs) = cs := by
  rw [trimStart, List.dropWhile_append_of_pos hblank]
  cases cs with
  | nil => rfl
  | cons c rest => rw [List.dropWhile_cons_of_neg (by simp [hfirst c rfl])]

theorem trimStart_split (cs : List Char) : ∃ blank, cs = blank ++ trimStart cs ∧ AllBlank blank :=
  ⟨cs.takeWhile isBlank, List.takeWhile_append_dropWhile.symm, fun _ => List.mem_takeWhile_imp⟩

theorem trimStart_first (cs : List Char) : ∀ c ∈ (trimStart cs).head?, isBlank c = false := by
  intro c hc
  have hfirst := List.head?_dropWhile_not isBlank cs
  rwa [← trimStart, hc] at hfirst

theorem trimEnd_eq (cs : List Char) : trimEnd cs = (trimStart cs.reverse).reverse := rfl

theorem trimEnd_append {cs blank : List Char} (hblank : AllBlank blank)
    (hlast : ∀ c ∈ cs.getLast?, isBlank c = false) : trimEnd (cs ++ blank) = cs := by
  rw [trimEnd_eq, List.reverse_append, trimStart_append hblank.reverse (by simpa using hlast),
    List.reverse_reverse]

theorem trimEnd_split (cs : List Char) : ∃ blank, cs = trimEnd cs ++ blank ∧ AllBlank blank := by
  obtain ⟨blank, hcs, hblank⟩ := trimStart_split cs.reverse
  refine ⟨blank.reverse, ?_, hblank.reverse⟩
  rw [trimEnd_eq, ← List.reverse_append, ← hcs, List.reverse_reverse]

theorem trimEnd_last (cs : List Char) : ∀ c ∈ (trimEnd cs).getLast?, isBlank c = false := by
  simpa [trimEnd_eq] using trimStart_first cs.reverse

theorem trimmed_trim (cs : List Char) : Trimmed (trim cs) := by
  refine ⟨fun c hc => trimStart_first cs c ?_, trimEnd_last (trimStart cs)⟩
  obtain ⟨blank, hsplit, _⟩ := trimEnd_split (trimStart cs)
  rw [hsplit, List.head?_append, ← trim, hc]
  rfl

theorem trim_eq_iff {cs text : List Char} (hne : text ≠ []) :
    trim cs = text ↔ Trimmed text ∧
      ∃ before after, cs = before ++ text ++ after ∧ AllBlank before ∧ AllBlank after := by
  constructor
  · rintro rfl
    obtain ⟨before, hbefore, hblank⟩ := trimStart_split cs
    obtain ⟨after, hafter, hblank'⟩ := trimEnd_split (trimStart cs)
    refine ⟨trimmed_trim cs, before, after, ?_, hblank, hblank'⟩
    rw [List.append_assoc, trim, ← hafter, ← hbefore]
  · rintro ⟨htext, before, after, rfl, hbefore, hafter⟩
    have hfirst : ∀ c ∈ (text ++ after).head?, isBlank c = false := by
      rw [List.head?_append_of_ne_nil _ hne]
      exact htext.first
    rw [trim, List.append_assoc, trimStart_append hbefore hfirst,
      trimEnd_append hafter htext.last]

theorem dropPrefix?_eq_some {pre cs rest : List Char} :
    dropPrefix? pre cs = some rest ↔ cs = pre ++ rest := by
  induction pre generalizing cs with
  | nil => simp [dropPrefix?]
  | cons p pre ih =>
    cases cs with
    | nil => simp [dropPrefix?]
    | cons c cs =>
      by_cases hpc : p = c
      · simp [dropPrefix?, hpc, ih]
      · simp [dropPrefix?, hpc, Ne.symm hpc]

/-! ### Lines -/

theorem lines_go_feed {line : List Char} (h : '\n' ∉ line) (seen rest : List Char) :
    lines.go seen (line ++ '\n' :: rest) =
      dropReturn (seen.reverse ++ line) :: lines rest := by
  induction line generalizing seen with
  | nil => simp [lines.go, lines]
  | cons c line ih =>
    obtain ⟨hc, hline⟩ : '\n' ≠ c ∧ '\n' ∉ line := by simpa using h
    simp [lines.go, Ne.symm hc, ih hline]

theorem lines_append_feed {line : List Char} (h : '\n' ∉ line) (rest : List Char) :
    lines (line ++ '\n' :: rest) = dropReturn line :: lines rest :=
  lines_go_feed h [] rest

theorem lines_go_open {line : List Char} (h : '\n' ∉ line) (seen : List Char) :
    lines.go seen line = if seen.reverse ++ line = [] then [] else [seen.reverse ++ line] := by
  induction line generalizing seen with
  | nil => cases seen <;> simp [lines.go]
  | cons c line ih =>
    obtain ⟨hc, hline⟩ : '\n' ≠ c ∧ '\n' ∉ line := by simpa using h
    simp [lines.go, Ne.symm hc, ih hline]

/-- Text without a line feed is a line, unless it is empty. -/
theorem lines_open {line : List Char} (h : '\n' ∉ line) :
    lines line = if line = [] then [] else [line] :=
  lines_go_open h []

theorem dropReturn_append (line : List Char) : dropReturn (line ++ ['\r']) = line := by
  simp [dropReturn]

theorem dropReturn_cases (line : List Char) :
    dropReturn line = line ∨ line = dropReturn line ++ ['\r'] := by
  rw [dropReturn]
  split_ifs with h
  · exact Or.inr (List.dropLast_append_getLast? '\r' h).symm
  · exact Or.inl rfl

end WireRecords.Text
