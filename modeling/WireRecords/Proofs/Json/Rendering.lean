import WireRecords.Proofs.Json.Grammar

/-!
# Rendered documents are JSON

The text of a document spells the document. Numbers have no leading zeros, every character of a
string is kept or escaped, and what stands between tokens is blank.
-/
namespace WireRecords.Json

/-! ### Documents as values -/

mutual

/-- The value of a document, with its numbers in decimal digits. -/
def tree : Json → Tree
  | null => .null
  | number n => .number (Nat.toDigits 10 n)
  | string s => .string s
  | array items => .array (trees items)
  | object entries => .object (members entries)

def trees : List Json → List Tree
  | [] => []
  | j :: js => j.tree :: trees js

def members : List (String × Json) → List (String × Tree)
  | [] => []
  | (key, j) :: entries => (key, j.tree) :: members entries

end

theorem trees_eq_map (items : List Json) : trees items = items.map tree := by
  induction items with
  | nil => rfl
  | cons j js ih => simp [trees, ih]

/-! ### Tokens -/

theorem blanks_newline (level : Nat) (rest : List Char) : Blanks (newline level ++ rest) rest := by
  refine ⟨newline level, fun c hc => ?_, rfl⟩
  rw [newline, List.mem_cons, List.mem_replicate] at hc
  obtain rfl | ⟨_, rfl⟩ := hc <;> rfl

theorem blanks_refl (rest : List Char) : Blanks rest rest := ⟨[], by simp, rfl⟩

theorem blanks_space (rest : List Char) : Blanks (' ' :: rest) rest :=
  ⟨[' '], by simp [isSpace], rfl⟩

/-- The digits of a positive number start with no zero. -/
theorem exists_toDigits {n : Nat} (h : 0 < n) : ∃ d ds, Nat.toDigits 10 n = d :: ds ∧ d ≠ '0' := by
  induction n using Nat.strongRecOn with
  | ind n ih =>
    rcases Nat.lt_or_ge n 10 with hlt | hge
    · refine ⟨Nat.digitChar n, [], Nat.toDigits_of_lt_base hlt, ?_⟩
      interval_cases n <;> decide
    · obtain ⟨d, ds, hds, hd⟩ := ih (n / 10) (by omega) (by omega)
      refine ⟨d, ds ++ [Nat.digitChar (n % 10)], ?_, hd⟩
      rw [Nat.toDigits_of_base_le (by decide) hge, hds, List.cons_append]

theorem integer_toDigits (n : Nat) : Integer (Nat.toDigits 10 n) := by
  rcases Nat.eq_zero_or_pos n with rfl | hpos
  · exact .zero
  · have hdigit : ∀ d ∈ Nat.toDigits 10 n, d.isDigit = true := fun d hd =>
      Nat.isDigit_of_mem_toDigits (by decide) (by decide) hd
    obtain ⟨d, ds, hds, hd⟩ := exists_toDigits hpos
    rw [hds] at hdigit ⊢
    exact .positive (hdigit d (by simp)) hd fun e he => hdigit e (by simp [he])

theorem number_toDigits (n : Nat) : Number (Nat.toDigits 10 n) := by
  have h := Number.intro (Or.inl rfl) (integer_toDigits n) Fraction.absent Exponent.absent
  simpa using h

theorem hexValue?_hexDigit : ∀ n < 16, hexValue? (Text.hexDigit n) = some n := by decide

theorem codeUnit?_hexDigit {n : Nat} (h : n < 256) :
    codeUnit? '0' '0' (Text.hexDigit (n / 16)) (Text.hexDigit (n % 16)) = some n := by
  have hzero : hexValue? '0' = some 0 := rfl
  rw [codeUnit?, hzero, hexValue?_hexDigit (n / 16) (by omega),
    hexValue?_hexDigit (n % 16) (Nat.mod_lt n (by decide))]
  simp only [Option.some.injEq]
  omega

/-- A character below the blank, written in hexadecimal. -/
theorem Content.control {c : Char} {cs s : List Char} (hc : c.toNat < 0x20) (h : Content cs s) :
    Content ('\\' :: 'u' :: '0' :: '0' :: Text.hexDigit (c.toNat / 16) ::
      Text.hexDigit (c.toNat % 16) :: cs) (c :: s) := by
  have hspelled := codeUnit?_hexDigit (by omega : c.toNat < 256)
  have hhigh : isHighSurrogate c.toNat = false := by
    have hlt : ¬ 0xd800 ≤ c.toNat := by omega
    simp [isHighSurrogate, hlt]
  have hlow : isLowSurrogate c.toNat = false := by
    have hlt : ¬ 0xdc00 ≤ c.toNat := by omega
    simp [isLowSurrogate, hlt]
  have hunit := Content.unit hspelled hhigh hlow h
  rwa [Char.ofNat_toNat] at hunit

theorem Content.escape (c : Char) {cs s : List Char} (h : Content cs s) :
    Content (escape c ++ cs) (c :: s) := by
  unfold Json.escape
  split_ifs with hquote hbackslash hbackspace htab hline hfeed hreturn hcontrol
  · rw [hquote]
    exact .short rfl h
  · rw [hbackslash]
    exact .short rfl h
  · rw [hbackspace]
    exact .short rfl h
  · rw [htab]
    exact .short rfl h
  · rw [hline]
    exact .short rfl h
  · rw [hfeed]
    exact .short rfl h
  · rw [hreturn]
    exact .short rfl h
  · exact .control hcontrol h
  · exact .plain (by omega) hquote hbackslash h

theorem content_escapes (s : List Char) : Content (s.flatMap escape) s := by
  induction s with
  | nil => exact .nil
  | cons c cs ih => exact .escape c ih

theorem quoted_quote (s : String) (rest : List Char) : Quoted (quote s ++ rest) s rest := by
  have h : Quoted ('"' :: (s.toList.flatMap escape ++ '"' :: rest)) (String.ofList s.toList) rest :=
    .intro (content_escapes s.toList)
  simpa [quote] using h

/-! ### Values -/

mutual

theorem value_render (level : Nat) (rest : List Char) :
    ∀ j : Json, Value (render level j ++ rest) j.tree rest
  | null => .null
  | number n => .number (number_toDigits n)
  | string s => .string (quoted_quote s rest)
  | array [] => .emptyArray (blanks_refl _)
  | array (j :: js) => by
    have h := Value.array (items_render (level + 1) level rest j js)
    simpa [render, tree] using h
  | object [] => .emptyObject (blanks_refl _)
  | object ((key, j) :: entries) => by
    have h := Value.object (members_render (level + 1) level rest key j entries)
    simpa [render, tree] using h
termination_by j => sizeOf j

theorem items_render (level outer : Nat) (rest : List Char) (j : Json) : ∀ js : List Json,
    Items (newline level ++ (render level j ++ (renderItems level js ++
      (newline outer ++ ']' :: rest)))) (trees (j :: js)) rest
  | [] => .last (blanks_newline level _) (value_render level _ j) (blanks_newline outer _)
  | k :: ks => by
    have h := Items.more (blanks_newline level _) (value_render level _ j) (blanks_refl _)
      (items_render level outer rest k ks)
    simpa [renderItems, trees] using h
termination_by js => sizeOf j + sizeOf js

theorem members_render (level outer : Nat) (rest : List Char) (key : String) (j : Json) :
    ∀ entries : List (String × Json),
      Members (newline level ++ (quote key ++ (':' :: ' ' :: (render level j ++
        (renderEntries level entries ++ (newline outer ++ '\x7d' :: rest))))))
        (members ((key, j) :: entries)) rest
  | [] => .last (blanks_newline level _) (quoted_quote key _) (blanks_refl _) (blanks_space _)
      (value_render level _ j) (blanks_newline outer _)
  | (next, k) :: entries => by
    have h := Members.more (blanks_newline level _) (quoted_quote key _) (blanks_refl _)
      (blanks_space _) (value_render level _ j) (blanks_refl _)
      (members_render level outer rest next k entries)
    simpa [renderEntries, members] using h
termination_by entries => sizeOf j + sizeOf entries

end

/-- The text of a document spells it. -/
theorem spells_text (j : Json) : Spells j.text.toList j.tree := by
  have h := value_render 0 [] j
  rw [List.append_nil] at h
  exact ⟨_, [], blanks_refl _, by simpa [text] using h, blanks_refl _⟩

end WireRecords.Json
