import Mathlib
import WireRecords.Directive.Parser

/-!
# Tokens of directives

How a text divides into tokens, without a reader: a token takes the longest start of the text that
spells one, and spaces and tabs may stand before, between and after tokens. The readers of names,
numbers, texts and marks find just these tokens.
-/
namespace WireRecords.Directive

inductive Token where
  | name (id : String)
  | number (value : Nat)
  /-- A text between double quotes. -/
  | text (value : String)
  | mark (symbol : Char)
  /-- The mark `::`. -/
  | scope
deriving DecidableEq, Repr

/-- The tokens of one character. -/
def marks : List Char := ['[', ']', '(', ')', ',', ';', '.', '+', '-', '*', '/', '%']

/-- The value of digits, the most significant first. -/
def positional (base : Nat) (digits : List Char) : Nat :=
  Nat.ofDigits base (digits.reverse.map digitValue)

/-- The spellings of tokens. -/
inductive Spells : List Char → Token → Prop
  | name {c : Char} {cs : List Char} (first : isAlpha c = true)
      (others : ∀ d ∈ cs, isAlphanumeric d = true) :
      Spells (c :: cs) (.name (String.ofList (c :: cs)))
  | decimal {ds : List Char} (nonempty : ds ≠ []) (digits : ∀ d ∈ ds, isDigit d = true) :
      Spells ds (.number (positional 10 ds))
  | hexadecimal {x : Char} {ds : List Char} (base : x = 'x' ∨ x = 'X') (nonempty : ds ≠ [])
      (digits : ∀ d ∈ ds, isHexDigit d = true) :
      Spells ('0' :: x :: ds) (.number (positional 16 ds))
  | text {cs : List Char} (unquoted : '"' ∉ cs) :
      Spells ('"' :: (cs ++ ['"'])) (.text (String.ofList cs))
  | mark {c : Char} (h : c ∈ marks) : Spells [c] (.mark c)
  | scope : Spells [':', ':'] .scope

/-- The longest start of `cs` that spells a token spells `t`, and `rest` is left. -/
structure Munch (cs : List Char) (t : Token) (rest : List Char) : Prop where
  spelled : ∃ lexeme, cs = lexeme ++ rest ∧ Spells lexeme t
  longest : ∀ {lexeme t' rest'}, cs = lexeme ++ rest' → Spells lexeme t' →
    rest.length ≤ rest'.length

/-- A text and its tokens. -/
inductive Lexes : List Char → List Token → Prop
  | blank {cs : List Char} (spacing : ∀ c ∈ cs, isSpacing c = true) : Lexes cs []
  | token {blank cs rest : List Char} {t : Token} {ts : List Token}
      (spacing : ∀ c ∈ blank, isSpacing c = true) (munch : Munch cs t rest)
      (tail : Lexes rest ts) : Lexes (blank ++ cs) (t :: ts)

/-- What the first character of a token tells about the token. -/
inductive Lead where
  | name
  | number
  | text
  | mark
  | scope
  | other
deriving DecidableEq

def lead (c : Char) : Lead :=
  if isAlpha c then .name
  else if isDigit c then .number
  else if c = '"' then .text
  else if c ∈ marks then .mark
  else if c = ':' then .scope
  else .other

def Token.lead : Token → Lead
  | name _ => .name
  | number _ => .number
  | text _ => .text
  | mark _ => .mark
  | scope => .scope

theorem isAlpha_of_isDigit {c : Char} (h : isDigit c = true) : isAlpha c = false := by
  simp only [isDigit, isAlpha, Bool.and_eq_true, Bool.or_eq_false_iff, Bool.and_eq_false_iff,
    decide_eq_true_eq, decide_eq_false_iff_not, beq_eq_false_iff_ne, Char.le_def,
    UInt32.le_iff_toNat_le] at h ⊢
  obtain ⟨hl, hu⟩ := h
  have hlo : ('0' : Char).val.toNat = 48 := rfl
  have hhi : ('9' : Char).val.toNat = 57 := rfl
  have ha : ('a' : Char).val.toNat = 97 := rfl
  have hA : ('A' : Char).val.toNat = 65 := rfl
  refine ⟨⟨Or.inl (by omega), Or.inl (by omega)⟩, ?_⟩
  rintro rfl
  have hx : ('_' : Char).val.toNat = 95 := rfl
  omega

theorem lead_digit {c : Char} (h : isDigit c = true) : lead c = .number := by
  simp [lead, isAlpha_of_isDigit h, h]

theorem lead_mark {c : Char} (h : c ∈ marks) : lead c = .mark := by
  simp only [marks, List.mem_cons, List.not_mem_nil, or_false] at h
  rcases h with rfl | rfl | rfl | rfl | rfl | rfl | rfl | rfl | rfl | rfl | rfl | rfl <;> decide

theorem lead_spacing {c : Char} (h : isSpacing c = true) : lead c = .other := by
  have hc : c = ' ' ∨ c = '\t' := by simpa [isSpacing] using h
  rcases hc with rfl | rfl <;> decide

/-- The first character of a spelling shows what kind of token it spells. -/
theorem Spells.lead_eq {lexeme : List Char} {t : Token} (h : Spells lexeme t) :
    ∃ c cs, lexeme = c :: cs ∧ lead c = t.lead := by
  cases h with
  | name first others => exact ⟨_, _, rfl, by simp [lead, first, Token.lead]⟩
  | @decimal ds nonempty digits =>
    obtain ⟨c, cs, rfl⟩ := List.exists_cons_of_ne_nil nonempty
    exact ⟨c, cs, rfl, lead_digit (digits c (by simp))⟩
  | hexadecimal base nonempty digits => exact ⟨_, _, rfl, lead_digit (by decide)⟩
  | text unquoted => exact ⟨_, _, rfl, (by decide : lead '"' = .text)⟩
  | mark h => exact ⟨_, _, rfl, lead_mark h⟩
  | scope => exact ⟨_, _, rfl, by decide⟩

/-- All spellings at the start of one text spell the same kind of token. -/
theorem Spells.lead_eq_of_append {c : Char} {cs lexeme rest : List Char} {t : Token}
    (h : Spells lexeme t) (hcs : c :: cs = lexeme ++ rest) : t.lead = lead c := by
  obtain ⟨d, ds, rfl, hlead⟩ := h.lead_eq
  obtain rfl : c = d := by simpa using congrArg List.head? hcs
  exact hlead.symm

/-- Characters of a class at the start of a text are among those that are dropped. -/
theorem dropWhile_length_le {p : Char → Bool} {w rest : List Char} (h : ∀ d ∈ w, p d = true) :
    ((w ++ rest).dropWhile p).length ≤ rest.length := by
  rw [List.dropWhile_append_of_pos h]
  exact (List.dropWhile_suffix p).length_le

theorem mem_takeWhile {p : Char → Bool} {cs : List Char} :
    ∀ d ∈ cs.takeWhile p, p d = true := fun _ h => List.mem_takeWhile_imp h

/-! ### What the readers find -/

theorem identifier_munch {cs rest : List Char} {id : String}
    (h : identifier cs = some (id, rest)) : Munch cs (.name id) rest := by
  cases cs with
  | nil => simp [identifier] at h
  | cons c cs =>
    simp only [identifier] at h
    split at h
    · rename_i hc
      simp only [Option.some.injEq, Prod.mk.injEq] at h
      obtain ⟨rfl, rfl⟩ := h
      refine ⟨⟨_, by simp, .name hc mem_takeWhile⟩, fun {lexeme t' rest'} hcs hs => ?_⟩
      have hlead := hs.lead_eq_of_append hcs
      simp only [lead, hc, if_true] at hlead
      cases hs with
      | name first others =>
        simp only [List.cons_append, List.cons.injEq] at hcs
        rw [hcs.2]
        exact dropWhile_length_le others
      | _ => simp [Token.lead] at hlead
    · simp at h

theorem run_eq_some {p : Char → Bool} {cs word rest : List Char} :
    run p cs = some (word, rest) ↔ word = cs.takeWhile p ∧ rest = cs.dropWhile p ∧ word ≠ [] := by
  unfold run
  split
  · rename_i hnil
    simp only [hnil, reduceCtorEq, false_iff]
    rintro ⟨rfl, _, hne⟩
    exact hne rfl
  · rename_i c w hcons
    simp only [hcons, Option.some.injEq, Prod.mk.injEq]
    constructor
    · rintro ⟨rfl, rfl⟩
      simp
    · rintro ⟨rfl, rfl, _⟩
      simp

theorem hexNumber_eq_some {cs digits rest : List Char} (h : hexNumber cs = some (digits, rest)) :
    ∃ x tail, (x = 'x' ∨ x = 'X') ∧ cs = '0' :: x :: tail ∧
      digits = '0' :: x :: tail.takeWhile isHexDigit ∧ rest = tail.dropWhile isHexDigit ∧
      tail.takeWhile isHexDigit ≠ [] := by
  unfold hexNumber at h
  split at h
  · rename_i x tail
    split at h
    · rename_i hx
      split at h
      · rename_i word rest' hrun
        obtain ⟨rfl, rfl, hne⟩ := run_eq_some.mp hrun
        simp only [Option.some.injEq, Prod.mk.injEq] at h
        exact ⟨x, tail, hx, rfl, h.1.symm, h.2.symm, hne⟩
      · simp at h
    · simp at h
  · simp at h

theorem hexNumber_of_digits {x : Char} {ds : List Char} (rest : List Char)
    (hx : x = 'x' ∨ x = 'X') (hne : ds ≠ []) (hds : ∀ d ∈ ds, isHexDigit d = true) :
    (hexNumber ('0' :: x :: (ds ++ rest))).isSome = true := by
  have htake : (ds ++ rest).takeWhile isHexDigit ≠ [] := by
    obtain ⟨d, ds, rfl⟩ := List.exists_cons_of_ne_nil hne
    simp [hds d (by simp)]
  have hrun := (run_eq_some (p := isHexDigit)).mpr ⟨rfl, rfl, htake⟩
  simp [hexNumber, hx, hrun]

theorem ofDigits_eq_positional (base : Nat) (digits : List Char) :
    ofDigits base digits = positional base digits := by
  induction digits using List.reverseRecOn with
  | nil => rfl
  | append_singleton ds d ih =>
    rw [ofDigits, List.foldl_append]
    simp only [List.foldl_cons, List.foldl_nil]
    rw [← ofDigits, ih, positional, positional, List.reverse_append, List.reverse_singleton,
      List.singleton_append, List.map_cons, Nat.ofDigits_cons]
    ring

theorem isDigit_base {x : Char} (h : x = 'x' ∨ x = 'X') : isDigit x = false := by
  rcases h with rfl | rfl <;> decide

theorem numberValue_hexadecimal {x : Char} (h : x = 'x' ∨ x = 'X') (ds : List Char) :
    numberValue ('0' :: x :: ds) = positional 16 ds := by
  rcases h with rfl | rfl <;> exact ofDigits_eq_positional 16 ds

theorem numberValue_decimal {ds : List Char} (h : ∀ d ∈ ds, isDigit d = true) :
    numberValue ds = positional 10 ds := by
  rw [← ofDigits_eq_positional]
  unfold numberValue
  split
  · exact absurd (h 'x' (by simp)) (by decide)
  · exact absurd (h 'X' (by simp)) (by decide)
  · rfl

/-- The digits in front of the letter of a hexadecimal number are not more than one. -/
theorem tail_length_le {x : Char} {tail ds rest : List Char} (hx : x = 'x' ∨ x = 'X')
    (hne : ds ≠ []) (hds : ∀ d ∈ ds, isDigit d = true) (h : '0' :: x :: tail = ds ++ rest) :
    tail.length ≤ rest.length := by
  obtain ⟨d, ds, rfl⟩ := List.exists_cons_of_ne_nil hne
  cases ds with
  | nil =>
    simp only [List.cons_append, List.nil_append, List.cons.injEq] at h
    simp [← h.2]
  | cons e ds =>
    simp only [List.cons_append, List.cons.injEq] at h
    have hdigit := hds e (by simp)
    simp [← h.2.1, isDigit_base hx] at hdigit

theorem number_munch {cs digits rest : List Char} (h : number cs = some (digits, rest)) :
    Munch cs (.number (numberValue digits)) rest := by
  unfold number at h
  split at h
  · rename_i r hhex
    obtain rfl := Option.some.inj h
    obtain ⟨x, tail, hx, rfl, rfl, rfl, hne⟩ := hexNumber_eq_some hhex
    rw [numberValue_hexadecimal hx]
    refine ⟨⟨_, by simp, .hexadecimal hx hne mem_takeWhile⟩, fun {lexeme t' rest'} hcs hs => ?_⟩
    have hlead := hs.lead_eq_of_append hcs
    rw [lead_digit (by decide)] at hlead
    cases hs with
    | decimal nonempty digits =>
      exact (List.dropWhile_suffix _).length_le.trans (tail_length_le hx nonempty digits hcs)
    | hexadecimal base nonempty digits =>
      simp only [List.cons_append, List.cons.injEq] at hcs
      rw [hcs.2.2]
      exact dropWhile_length_le digits
    | _ => simp [Token.lead] at hlead
  · rename_i hhex
    obtain ⟨rfl, rfl, hne⟩ := run_eq_some.mp h
    rw [numberValue_decimal mem_takeWhile]
    obtain ⟨c, tail, rfl, hc⟩ : ∃ c tail, cs = c :: tail ∧ isDigit c = true := by
      cases cs with
      | nil => simp at hne
      | cons c tail =>
        refine ⟨c, tail, rfl, ?_⟩
        by_contra hc
        simp [hc] at hne
    refine ⟨⟨_, by simp, .decimal hne mem_takeWhile⟩, fun {lexeme t' rest'} hcs hs => ?_⟩
    have hlead := hs.lead_eq_of_append hcs
    rw [lead_digit hc] at hlead
    cases hs with
    | decimal nonempty digits =>
      rw [hcs]
      exact dropWhile_length_le digits
    | hexadecimal base nonempty digits =>
      have hsome := hexNumber_of_digits rest' base nonempty digits
      simp only [List.cons_append] at hcs
      rw [← hcs, hhex] at hsome
      simp at hsome
    | _ => simp [Token.lead] at hlead

theorem number_isSome_of_lead {c : Char} {cs : List Char} (h : isDigit c = true) :
    ∃ digits rest, number (c :: cs) = some (digits, rest) := by
  unfold number
  split
  · exact ⟨_, _, rfl⟩
  · exact ⟨_, _, run_eq_some.mpr ⟨rfl, rfl, by simp [h]⟩⟩

theorem quotedText_eq_some {cs rest : List Char} {value : String} :
    quotedText cs = some (value, rest) ↔
      ∃ body, '"' ∉ body ∧ cs = '"' :: (body ++ '"' :: rest) ∧ value = String.ofList body := by
  constructor
  · intro h
    unfold quotedText at h
    split at h
    · rename_i tail
      cases hdrop : tail.dropWhile (· != '"') with
      | nil => simp [hdrop] at h
      | cons q after =>
        have hq : q = '"' := by
          have hne : tail.dropWhile (· != '"') ≠ [] := by simp [hdrop]
          simpa [hdrop] using List.head_dropWhile_not (· != '"') hne
        subst hq
        simp only [hdrop, Option.some.injEq, Prod.mk.injEq] at h
        obtain ⟨rfl, rfl⟩ := h
        refine ⟨_, fun hmem => ?_, ?_, rfl⟩
        · simpa using mem_takeWhile _ hmem
        · rw [← hdrop, List.takeWhile_append_dropWhile]
    · simp at h
  · rintro ⟨body, hbody, rfl, rfl⟩
    have hall : ∀ d ∈ body, (d != '"') = true := by
      intro d hd
      simpa using fun he : d = '"' => hbody (he ▸ hd)
    simp [quotedText, List.takeWhile_append_of_pos hall, List.dropWhile_append_of_pos hall]

theorem quotedText_munch {cs rest : List Char} {value : String}
    (h : quotedText cs = some (value, rest)) : Munch cs (.text value) rest := by
  obtain ⟨body, hbody, rfl, rfl⟩ := quotedText_eq_some.mp h
  refine ⟨⟨'"' :: (body ++ ['"']), by simp, .text hbody⟩, fun {lexeme t' rest'} hcs hs => ?_⟩
  have hlead := hs.lead_eq_of_append hcs
  rw [(by decide : lead '"' = .text)] at hlead
  cases hs with
  | @text other unquoted =>
    have h' : quotedText ('"' :: (body ++ '"' :: rest)) = some (String.ofList other, rest') :=
      quotedText_eq_some.mpr ⟨other, unquoted, by simpa using hcs, rfl⟩
    rw [h, Option.some.injEq, Prod.mk.injEq] at h'
    rw [h'.2]
  | _ => simp [Token.lead] at hlead

theorem mark_munch {c : Char} (h : c ∈ marks) (rest : List Char) :
    Munch (c :: rest) (.mark c) rest := by
  refine ⟨⟨[c], rfl, .mark h⟩, fun {lexeme t' rest'} hcs hs => ?_⟩
  have hlead := hs.lead_eq_of_append hcs
  rw [lead_mark h] at hlead
  cases hs with
  | mark h' =>
    simp only [List.cons_append, List.nil_append, List.cons.injEq] at hcs
    rw [hcs.2]
  | _ => simp [Token.lead] at hlead

theorem scope_munch (rest : List Char) : Munch (':' :: ':' :: rest) .scope rest := by
  refine ⟨⟨[':', ':'], rfl, .scope⟩, fun {lexeme t' rest'} hcs hs => ?_⟩
  have hlead := hs.lead_eq_of_append hcs
  rw [(by decide : lead ':' = .scope)] at hlead
  cases hs with
  | scope =>
    simp only [List.cons_append, List.nil_append, List.cons.injEq, true_and] at hcs
    rw [hcs]
  | _ => simp [Token.lead] at hlead

/-! ### Tokens are determined by the text -/

/-- A spelling spells one token. -/
theorem Spells.unique {lexeme lexeme' : List Char} {t t' : Token} (h : Spells lexeme t)
    (h' : Spells lexeme' t') (heq : lexeme = lexeme') : t = t' := by
  have hlead : t.lead = t'.lead := by
    obtain ⟨c, cs, rfl, hc⟩ := h.lead_eq
    obtain ⟨c', cs', rfl, hc'⟩ := h'.lead_eq
    simp only [List.cons.injEq] at heq
    rw [← hc, ← hc', heq.1]
  cases h with
  | name first others =>
    cases h' with
    | name first' others' => rw [heq]
    | _ => simp [Token.lead] at hlead
  | decimal nonempty digits =>
    cases h' with
    | decimal nonempty' digits' => rw [heq]
    | hexadecimal base nonempty' digits' =>
      have hx := digits _ (heq ▸ List.mem_cons_of_mem _ List.mem_cons_self)
      simp [isDigit_base base] at hx
    | _ => simp [Token.lead] at hlead
  | hexadecimal base nonempty digits =>
    cases h' with
    | decimal nonempty' digits' =>
      have hx := digits' _ (heq ▸ List.mem_cons_of_mem _ List.mem_cons_self)
      simp [isDigit_base base] at hx
    | hexadecimal base' nonempty' digits' =>
      simp only [List.cons.injEq] at heq
      rw [heq.2.2]
    | _ => simp [Token.lead] at hlead
  | text unquoted =>
    cases h' with
    | text unquoted' =>
      simp only [List.cons.injEq, true_and, List.append_cancel_right_eq] at heq
      rw [heq]
    | _ => simp [Token.lead] at hlead
  | mark hm =>
    cases h' with
    | mark hm' =>
      simp only [List.cons.injEq, and_true] at heq
      rw [heq]
    | _ => simp [Token.lead] at hlead
  | scope =>
    cases h' with
    | scope => rfl
    | _ => simp [Token.lead] at hlead

theorem Munch.unique {cs rest rest' : List Char} {t t' : Token} (h : Munch cs t rest)
    (h' : Munch cs t' rest') : t = t' ∧ rest = rest' := by
  obtain ⟨lexeme, hcs, hs⟩ := h.spelled
  obtain ⟨lexeme', hcs', hs'⟩ := h'.spelled
  have hlen : rest.length = rest'.length :=
    Nat.le_antisymm (h.longest hcs' hs') (h'.longest hcs hs)
  obtain ⟨rfl, rfl⟩ := List.append_inj' (hcs.symm.trans hcs') hlen
  exact ⟨hs.unique hs' rfl, rfl⟩

theorem Munch.length_lt {cs rest : List Char} {t : Token} (h : Munch cs t rest) :
    rest.length < cs.length := by
  obtain ⟨lexeme, rfl, hs⟩ := h.spelled
  obtain ⟨c, lexeme, rfl, _⟩ := hs.lead_eq
  simp

theorem Munch.lead_eq {cs rest : List Char} {t : Token} (h : Munch cs t rest) :
    ∃ c tail, cs = c :: tail ∧ lead c = t.lead := by
  obtain ⟨lexeme, rfl, hs⟩ := h.spelled
  obtain ⟨c, lexeme, rfl, hlead⟩ := hs.lead_eq
  exact ⟨c, lexeme ++ rest, rfl, hlead⟩

theorem isAlpha_of_lead {c : Char} (h : lead c = .name) : isAlpha c = true := by
  by_contra hc
  unfold lead at h
  rw [if_neg hc] at h
  split_ifs at h

theorem isDigit_of_lead {c : Char} (h : lead c = .number) : isDigit c = true := by
  by_contra hc
  unfold lead at h
  rw [if_neg hc] at h
  split_ifs at h

theorem identifier_of_munch {cs rest : List Char} {id : String}
    (h : Munch cs (.name id) rest) : identifier cs = some (id, rest) := by
  obtain ⟨c, tail, rfl, hlead⟩ := h.lead_eq
  have hsome : ∃ q, identifier (c :: tail) = some q := by
    simp [identifier, isAlpha_of_lead hlead]
  obtain ⟨⟨id', rest'⟩, hid⟩ := hsome
  obtain ⟨hname, rfl⟩ := (identifier_munch hid).unique h
  rw [hid, Token.name.inj hname]

theorem number_of_munch {cs rest : List Char} {n : Nat} (h : Munch cs (.number n) rest) :
    ∃ digits, number cs = some (digits, rest) ∧ numberValue digits = n := by
  obtain ⟨c, tail, rfl, hlead⟩ := h.lead_eq
  obtain ⟨digits, rest', hnumber⟩ := number_isSome_of_lead (isDigit_of_lead hlead)
  obtain ⟨hvalue, rfl⟩ := (number_munch hnumber).unique h
  exact ⟨digits, hnumber, Token.number.inj hvalue⟩

theorem quotedText_of_munch {cs rest : List Char} {value : String}
    (h : Munch cs (.text value) rest) : quotedText cs = some (value, rest) := by
  obtain ⟨lexeme, rfl, hs⟩ := h.spelled
  cases hs with
  | text unquoted => exact quotedText_eq_some.mpr ⟨_, unquoted, by simp, rfl⟩

theorem eq_cons_of_munch {c : Char} {cs rest : List Char} (h : Munch cs (.mark c) rest) :
    cs = c :: rest := by
  obtain ⟨lexeme, rfl, hs⟩ := h.spelled
  cases hs with
  | mark _ => rfl

theorem eq_scope_of_munch {cs rest : List Char} (h : Munch cs .scope rest) :
    cs = ':' :: ':' :: rest := by
  obtain ⟨lexeme, rfl, hs⟩ := h.spelled
  cases hs with
  | scope => rfl

theorem identifier_eq_none {c : Char} {cs : List Char} (h : lead c ≠ .name) :
    identifier (c :: cs) = none := by
  cases hid : identifier (c :: cs) with
  | none => rfl
  | some q =>
    obtain ⟨d, tail, heq, hlead⟩ := (identifier_munch hid).lead_eq
    obtain ⟨rfl, _⟩ := List.cons.inj heq
    exact absurd hlead h

theorem number_eq_none {c : Char} {cs : List Char} (h : lead c ≠ .number) :
    number (c :: cs) = none := by
  cases hnumber : number (c :: cs) with
  | none => rfl
  | some q =>
    obtain ⟨d, tail, heq, hlead⟩ := (number_munch hnumber).lead_eq
    obtain ⟨rfl, _⟩ := List.cons.inj heq
    exact absurd hlead h

/-! ### Spacing -/

@[simp] theorem skip_skip (cs : List Char) : skip (skip cs) = skip cs := by
  rw [skip, skip, List.dropWhile_idempotent]

theorem skip_length_le (cs : List Char) : (skip cs).length ≤ cs.length :=
  (List.dropWhile_suffix _).length_le

/-- No token starts with spacing. -/
theorem Munch.skip_eq {cs rest : List Char} {t : Token} (h : Munch cs t rest) : skip cs = cs := by
  obtain ⟨c, tail, rfl, hlead⟩ := h.lead_eq
  have hc : ¬ isSpacing c = true := by
    intro hs
    rw [lead_spacing hs] at hlead
    cases t <;> simp [Token.lead] at hlead
  simp [skip, hc]

/-- The tokens at the start of a text, and what is left behind them. -/
inductive Reads : List Char → List Token → List Char → Prop
  | nil {cs : List Char} : Reads cs [] cs
  | cons {cs mid rest : List Char} {t : Token} {ts : List Token} (head : Munch (skip cs) t mid)
      (tail : Reads mid ts rest) : Reads cs (t :: ts) rest

theorem Reads.append {cs mid rest : List Char} {ts us : List Token} (h : Reads cs ts mid)
    (h' : Reads mid us rest) : Reads cs (ts ++ us) rest := by
  induction h with
  | nil => exact h'
  | cons head _ ih => exact .cons head (ih h')

theorem Reads.split {cs rest : List Char} {ts us : List Token} (h : Reads cs (ts ++ us) rest) :
    ∃ mid, Reads cs ts mid ∧ Reads mid us rest := by
  induction ts generalizing cs with
  | nil => exact ⟨cs, .nil, h⟩
  | cons t ts ih =>
    cases h with
    | cons head tail =>
      obtain ⟨mid, hts, hus⟩ := ih tail
      exact ⟨mid, .cons head hts, hus⟩

/-- Spacing before the first token does not matter. -/
theorem Reads.of_skip {cs cs' rest : List Char} {ts : List Token} (hcs : skip cs = skip cs')
    (hts : ts ≠ []) (h : Reads cs ts rest) : Reads cs' ts rest := by
  cases h with
  | nil => exact absurd rfl hts
  | cons head tail => exact .cons (hcs ▸ head) tail

theorem Reads.length_le {cs rest : List Char} {ts : List Token} (h : Reads cs ts rest) :
    rest.length + ts.length ≤ cs.length := by
  induction h with
  | nil => simp
  | @cons cs mid rest t ts head tail ih =>
    have hlt := head.length_lt
    have hle := skip_length_le cs
    rw [List.length_cons]
    omega

/-- A text divides into tokens when the tokens are read and only spacing is left. -/
theorem lexes_iff {cs : List Char} {ts : List Token} :
    Lexes cs ts ↔ ∃ rest, Reads cs ts rest ∧ skip rest = [] := by
  constructor
  · intro h
    induction h with
    | @blank cs spacing => exact ⟨cs, .nil, List.dropWhile_eq_nil_iff.mpr spacing⟩
    | @token blank cs rest t ts spacing munch _ ih =>
      obtain ⟨last, hreads, hlast⟩ := ih
      have hskip : skip (blank ++ cs) = cs := by
        rw [skip, List.dropWhile_append_of_pos spacing]
        exact munch.skip_eq
      refine ⟨last, .cons ?_ hreads, hlast⟩
      rw [hskip]
      exact munch
  · rintro ⟨rest, hreads, hrest⟩
    induction hreads with
    | nil => exact .blank (List.dropWhile_eq_nil_iff.mp hrest)
    | @cons cs mid rest t ts head _ ih =>
      rw [← List.takeWhile_append_dropWhile (p := isSpacing) (l := cs)]
      exact .token mem_takeWhile head (ih hrest)

end WireRecords.Directive
