import WireRecords.Proofs.Json.Grammar

/-!
# Reading JSON

A reader for the whole grammar. `Spells.parse` says that it reads every JSON text and finds the
value that the text spells, so no text spells two values.
-/
namespace WireRecords.Json

/-! ### Blanks -/

def skip (cs : List Char) : List Char := cs.dropWhile isSpace

theorem skip_append {blanks rest : List Char} (h : ∀ c ∈ blanks, isSpace c = true) :
    skip (blanks ++ rest) = skip rest :=
  List.dropWhile_append_of_pos h

theorem Blanks.skip_cons {c : Char} {cs rest : List Char} (h : Blanks cs (c :: rest))
    (hc : isSpace c = false) : skip cs = c :: rest := by
  obtain ⟨blanks, hblanks, rfl⟩ := h
  rw [skip_append hblanks]
  simp [skip, hc]

theorem Blanks.skip_nil {cs : List Char} (h : Blanks cs []) : skip cs = [] := by
  obtain ⟨blanks, hblanks, rfl⟩ := h
  rw [skip_append hblanks]
  rfl

theorem Blanks.length_le {cs rest : List Char} (h : Blanks cs rest) : rest.length ≤ cs.length := by
  obtain ⟨blanks, _, rfl⟩ := h
  simp

/-! ### Strings -/

/-- Puts a character before what has been read. -/
def withFirst (c : Char) (read : Option (List Char × List Char)) :
    Option (List Char × List Char) :=
  read.map fun (s, rest) => (c :: s, rest)

/-- The characters of a string up to the quote that closes it. -/
def readContent : List Char → Option (List Char × List Char)
  | [] => none
  | c :: cs =>
    if c = '"' then some ([], cs)
    else if c = '\\' then
      match cs with
      | 'u' :: p :: q :: r :: s :: tail =>
        match codeUnit? p q r s with
        | some m =>
          if isHighSurrogate m then
            match tail with
            | '\\' :: 'u' :: p :: q :: r :: s :: tail =>
              match codeUnit? p q r s with
              | some n =>
                if isLowSurrogate n then withFirst (ofSurrogates m n) (readContent tail) else none
              | none => none
            | _ => none
          else if isLowSurrogate m then none
          else withFirst (Char.ofNat m) (readContent tail)
        | none => none
      | mark :: tail =>
        match shortEscape? mark with
        | some e => withFirst e (readContent tail)
        | none => none
      | [] => none
    else if c.toNat < 0x20 then none
    else withFirst c (readContent cs)

theorem shortEscape?_ne {mark c : Char} (h : shortEscape? mark = some c) : mark ≠ 'u' := by
  rintro rfl
  simp [shortEscape?] at h

theorem readContent_short {mark : Char} (h : mark ≠ 'u') (tail : List Char) :
    readContent ('\\' :: mark :: tail) =
      match shortEscape? mark with
      | some e => withFirst e (readContent tail)
      | none => none := by
  rw [readContent]
  · simp
  · simp [h]

theorem Content.read {body s : List Char} (h : Content body s) (rest : List Char) :
    readContent (body ++ '"' :: rest) = some (s, rest) := by
  induction h with
  | nil =>
    unfold readContent
    simp
  | @plain c cs s printable unquoted unescaped _ ih =>
    have hprintable : ¬ c.toNat < 0x20 := by omega
    unfold readContent
    simp [unquoted, unescaped, hprintable, withFirst, ih]
  | short escape _ ih =>
    simp only [List.cons_append]
    rw [readContent_short (shortEscape?_ne escape), escape]
    simp [withFirst, ih]
  | unit spelled high low _ ih => simp [readContent, spelled, high, low, withFirst, ih]
  | pair first second high low _ ih => simp [readContent, first, second, high, low, withFirst, ih]

theorem Quoted.lead {cs rest : List Char} {s : String} (h : Quoted cs s rest) :
    ∃ tail, cs = '"' :: tail ∧ rest.length < tail.length := by
  cases h with
  | @intro body _ _ _ =>
    refine ⟨_, rfl, ?_⟩
    rw [List.length_append, List.length_cons]
    omega

theorem Quoted.length_lt {cs rest : List Char} {s : String} (h : Quoted cs s rest) :
    rest.length < cs.length := by
  obtain ⟨tail, rfl, hlt⟩ := h.lead
  rw [List.length_cons]
  omega

/-- A string with its quotes. -/
def readQuoted : List Char → Option (String × List Char)
  | '"' :: cs => (readContent cs).map fun (s, rest) => (String.ofList s, rest)
  | _ => none

theorem Quoted.read {cs rest : List Char} {s : String} (h : Quoted cs s rest) :
    readQuoted cs = some (s, rest) := by
  cases h with
  | intro h => simp [readQuoted, h.read rest]

/-! ### Numbers -/

/-- Digits, at least one. -/
def readDigits (cs : List Char) : Option (List Char × List Char) :=
  match cs.takeWhile Char.isDigit with
  | [] => none
  | d :: ds => some (d :: ds, cs.dropWhile Char.isDigit)

def readSign : List Char → List Char × List Char
  | '-' :: cs => (['-'], cs)
  | cs => ([], cs)

def readInteger : List Char → Option (List Char × List Char)
  | '0' :: cs => some (['0'], cs)
  | cs => readDigits cs

def readFraction : List Char → Option (List Char × List Char)
  | '.' :: cs => (readDigits cs).map fun (ds, rest) => ('.' :: ds, rest)
  | cs => some ([], cs)

def readExponentSign : List Char → List Char × List Char
  | '+' :: cs => (['+'], cs)
  | '-' :: cs => (['-'], cs)
  | cs => ([], cs)

def readExponent : List Char → Option (List Char × List Char)
  | mark :: cs =>
    if mark = 'e' ∨ mark = 'E' then
      let (sign, cs) := readExponentSign cs
      (readDigits cs).map fun (ds, rest) => (mark :: (sign ++ ds), rest)
    else some ([], mark :: cs)
  | [] => some ([], [])

def readNumber (cs : List Char) : Option (List Char × List Char) :=
  let (sign, cs) := readSign cs
  match readInteger cs with
  | some (integer, cs) =>
    match readFraction cs with
    | some (fraction, cs) =>
      match readExponent cs with
      | some (exponent, rest) => some (sign ++ (integer ++ (fraction ++ exponent)), rest)
      | none => none
    | none => none
  | none => none

/-- A text whose first character, if there is one, is in the class. -/
def Starts (p : Char → Prop) (cs : List Char) : Prop := ∀ c ∈ cs.head?, p c

/-- No number goes on here. -/
def EndsNumber (c : Char) : Prop := c.isDigit = false ∧ c ≠ '.' ∧ c ≠ 'e' ∧ c ≠ 'E'

theorem Digits.read {ds rest : List Char} (h : Digits ds)
    (hrest : Starts (·.isDigit = false) rest) : readDigits (ds ++ rest) = some (ds, rest) := by
  obtain ⟨hne, hall⟩ := h
  have htake : rest.takeWhile Char.isDigit = [] := by
    cases rest with
    | nil => rfl
    | cons c cs => simp [hrest c rfl]
  have hdrop : rest.dropWhile Char.isDigit = rest := by
    cases rest with
    | nil => rfl
    | cons c cs => simp [hrest c rfl]
  obtain ⟨d, tail, rfl⟩ := List.exists_cons_of_ne_nil hne
  rw [readDigits, List.takeWhile_append_of_pos hall, List.dropWhile_append_of_pos hall, htake,
    hdrop, List.append_nil]

theorem Exponent.read {exponent rest : List Char} (h : Exponent exponent)
    (hrest : Starts EndsNumber rest) : readExponent (exponent ++ rest) = some (exponent, rest) := by
  cases h with
  | absent =>
    cases rest with
    | nil => rfl
    | cons c cs =>
      obtain ⟨_, _, he, hE⟩ := hrest c rfl
      simp [readExponent, he, hE]
  | @present mark sign ds marked signed digits =>
    have hdigits : readDigits (ds ++ rest) = some (ds, rest) :=
      digits.read fun c hc => (hrest c hc).1
    have hsign : readExponentSign (sign ++ (ds ++ rest)) = (sign, ds ++ rest) := by
      rcases signed with rfl | rfl | rfl
      · obtain ⟨d, tail, rfl⟩ := List.exists_cons_of_ne_nil digits.1
        have hd := digits.2 d (by simp)
        simp only [List.nil_append, List.cons_append]
        unfold readExponentSign
        split
        · simp_all
        · simp_all
        · rfl
      · rfl
      · rfl
    simp [readExponent, marked, List.append_assoc, hsign, hdigits]

/-- What follows the integer of a number, or what follows its fraction, is no digit. -/
theorem starts_fraction {fraction rest : List Char} (h : Fraction fraction)
    (hrest : Starts (·.isDigit = false) rest) : Starts (·.isDigit = false) (fraction ++ rest) := by
  cases h with
  | absent => exact hrest
  | present _ =>
    rintro c ⟨rfl⟩
    rfl

theorem starts_exponent {exponent rest : List Char} (h : Exponent exponent)
    (hrest : Starts EndsNumber rest) :
    Starts (fun c => c.isDigit = false ∧ c ≠ '.') (exponent ++ rest) := by
  cases h with
  | absent => exact fun c hc => ⟨(hrest c hc).1, (hrest c hc).2.1⟩
  | present marked _ _ =>
    rintro c ⟨rfl⟩
    rcases marked with rfl | rfl <;> decide

theorem Fraction.read {fraction rest : List Char} (h : Fraction fraction)
    (hrest : Starts (fun c => c.isDigit = false ∧ c ≠ '.') rest) :
    readFraction (fraction ++ rest) = some (fraction, rest) := by
  cases h with
  | absent =>
    cases rest with
    | nil => rfl
    | cons c cs =>
      have hc := (hrest c rfl).2
      simp only [List.nil_append]
      unfold readFraction
      split
      · simp_all
      · rfl
  | @present ds digits =>
    have hdigits : readDigits (ds ++ rest) = some (ds, rest) :=
      digits.read fun c hc => (hrest c hc).1
    simp [readFraction, hdigits]

theorem Integer.read {integer rest : List Char} (h : Integer integer)
    (hrest : Starts (·.isDigit = false) rest) :
    readInteger (integer ++ rest) = some (integer, rest) := by
  cases h with
  | zero => rfl
  | @positive d ds first ne others =>
    have hdigits : Digits (d :: ds) := ⟨by simp, by simpa [first] using others⟩
    have hread := hdigits.read hrest
    simp only [List.cons_append] at hread ⊢
    unfold readInteger
    split
    · simp_all
    · exact hread

/-- A number starts with a sign or a digit. -/
theorem Integer.lead {integer : List Char} (h : Integer integer) :
    ∃ d ds, integer = d :: ds ∧ d.isDigit = true := by
  cases h with
  | zero => exact ⟨'0', [], rfl, rfl⟩
  | positive first _ _ => exact ⟨_, _, rfl, first⟩

theorem Number.read {lexeme rest : List Char} (h : Number lexeme)
    (hrest : Starts EndsNumber rest) : readNumber (lexeme ++ rest) = some (lexeme, rest) := by
  cases h with
  | @intro sign integer fraction exponent signed whole part power =>
    have hexponent := power.read hrest
    have hafter := starts_exponent power hrest
    have hfraction := part.read hafter
    have hinteger := whole.read (starts_fraction part fun c hc => (hafter c hc).1)
    have hsign : readSign (sign ++ (integer ++ (fraction ++ (exponent ++ rest)))) =
        (sign, integer ++ (fraction ++ (exponent ++ rest))) := by
      rcases signed with rfl | rfl
      · obtain ⟨d, ds, rfl, hd⟩ := whole.lead
        simp only [List.nil_append, List.cons_append]
        unfold readSign
        split
        · simp_all
        · rfl
      · rfl
    simp only [List.append_assoc, readNumber, hsign, hinteger, hfraction, hexponent]

theorem Number.lead {lexeme : List Char} (h : Number lexeme) :
    ∃ c cs, lexeme = c :: cs ∧ (c = '-' ∨ c.isDigit = true) := by
  cases h with
  | intro signed whole _ _ =>
    rcases signed with rfl | rfl
    · obtain ⟨d, ds, rfl, hd⟩ := whole.lead
      exact ⟨d, _, rfl, Or.inr hd⟩
    · exact ⟨'-', _, rfl, Or.inl rfl⟩

/-! ### Values -/

mutual

/-- A value without blanks before it; `depth` bounds the nesting of readers. -/
def readValue : Nat → List Char → Option (Tree × List Char)
  | 0, _ => none
  | depth + 1, cs =>
    match cs with
    | '"' :: _ => (readQuoted cs).map fun (s, rest) => (.string s, rest)
    | '[' :: cs =>
      match skip cs with
      | ']' :: rest => some (.array [], rest)
      | _ => (readItems depth cs).map fun (items, rest) => (.array items, rest)
    | '\x7b' :: cs =>
      match skip cs with
      | '\x7d' :: rest => some (.object [], rest)
      | _ => (readMembers depth cs).map fun (members, rest) => (.object members, rest)
    | 'n' :: cs => (Text.dropPrefix? ['u', 'l', 'l'] cs).map fun rest => (.null, rest)
    | 't' :: cs => (Text.dropPrefix? ['r', 'u', 'e'] cs).map fun rest => (.bool true, rest)
    | 'f' :: cs => (Text.dropPrefix? ['a', 'l', 's', 'e'] cs).map fun rest => (.bool false, rest)
    | _ => (readNumber cs).map fun (lexeme, rest) => (.number lexeme, rest)

def readItems : Nat → List Char → Option (List Tree × List Char)
  | 0, _ => none
  | depth + 1, cs =>
    match readValue depth (skip cs) with
    | some (v, rest) =>
      match skip rest with
      | ']' :: rest => some ([v], rest)
      | ',' :: rest => (readItems depth rest).map fun (items, rest) => (v :: items, rest)
      | _ => none
    | none => none

def readMembers : Nat → List Char → Option (List (String × Tree) × List Char)
  | 0, _ => none
  | depth + 1, cs =>
    match readQuoted (skip cs) with
    | some (key, rest) =>
      match skip rest with
      | ':' :: rest =>
        match readValue depth (skip rest) with
        | some (v, rest) =>
          match skip rest with
          | '\x7d' :: rest => some ([(key, v)], rest)
          | ',' :: rest =>
            (readMembers depth rest).map fun (members, rest) => ((key, v) :: members, rest)
          | _ => none
        | none => none
      | _ => none
    | none => none

end

/-- Reads a whole text. -/
def parse (cs : List Char) : Option Tree :=
  match readValue (cs.length + 1) (skip cs) with
  | some (v, rest) => if (skip rest).isEmpty then some v else none
  | none => none

/-! ### Every text is read -/

theorem isSpace_of_lead {c : Char} (h : c = '-' ∨ c.isDigit = true) : isSpace c = false := by
  rcases h with rfl | h
  · rfl
  · have hne : ∀ d : Char, d.isDigit = false → c ≠ d := by
      rintro d hd rfl
      simp [hd] at h
    simp [isSpace, hne ' ' rfl, hne '\t' rfl, hne '\n' rfl, hne '\r' rfl]

/-- A value starts with no blank and with nothing that closes an array. -/
theorem Value.lead {cs rest : List Char} {v : Tree} (h : Value cs v rest) :
    ∃ c tail, cs = c :: tail ∧ isSpace c = false ∧ c ≠ ']' := by
  cases h with
  | null => exact ⟨_, _, rfl, rfl, by decide⟩
  | trueWord => exact ⟨_, _, rfl, rfl, by decide⟩
  | falseWord => exact ⟨_, _, rfl, rfl, by decide⟩
  | number h =>
    obtain ⟨c, tail, rfl, hc⟩ := h.lead
    refine ⟨c, _, rfl, isSpace_of_lead hc, ?_⟩
    rintro rfl
    simp at hc
  | string h =>
    obtain ⟨tail, rfl, _⟩ := h.lead
    exact ⟨_, _, rfl, rfl, by decide⟩
  | emptyArray _ => exact ⟨_, _, rfl, rfl, by decide⟩
  | array _ => exact ⟨_, _, rfl, rfl, by decide⟩
  | emptyObject _ => exact ⟨_, _, rfl, rfl, by decide⟩
  | object _ => exact ⟨_, _, rfl, rfl, by decide⟩

theorem Value.skip_eq {cs a rest : List Char} {v : Tree} (h : Value a v rest) (hb : Blanks cs a) :
    skip cs = a := by
  obtain ⟨c, tail, rfl, hc, _⟩ := h.lead
  exact hb.skip_cons hc

theorem Quoted.skip_eq {cs a rest : List Char} {s : String} (h : Quoted a s rest)
    (hb : Blanks cs a) : skip cs = a := by
  obtain ⟨tail, rfl, _⟩ := h.lead
  exact hb.skip_cons rfl

theorem Items.skip_ne {cs rest : List Char} {items : List Tree} (h : Items cs items rest)
    (tail : List Char) : skip cs ≠ ']' :: tail := by
  have hvalue : ∀ {a b v}, Blanks cs a → Value a v b → skip cs ≠ ']' :: tail := by
    intro a b v hb hv
    obtain ⟨c, tail', rfl, hc, hne⟩ := hv.lead
    rw [hb.skip_cons hc]
    simp [hne]
  cases h with
  | last before value _ => exact hvalue before value
  | more before value _ _ => exact hvalue before value

theorem Members.skip_ne {cs rest : List Char} {members : List (String × Tree)}
    (h : Members cs members rest) (tail : List Char) : skip cs ≠ '\x7d' :: tail := by
  have hname : ∀ {a b key}, Blanks cs a → Quoted a key b → skip cs ≠ '\x7d' :: tail := by
    intro a b key hb hq
    obtain ⟨tail', rfl, _⟩ := hq.lead
    rw [hb.skip_cons rfl]
    simp
  cases h with
  | last before name _ _ _ _ => exact hname before name
  | more before name _ _ _ _ _ => exact hname before name

mutual

theorem Value.length_lt {cs rest : List Char} {v : Tree} :
    Value cs v rest → rest.length < cs.length
  | .null => by simp only [List.length_cons]; omega
  | .trueWord => by simp only [List.length_cons]; omega
  | .falseWord => by simp only [List.length_cons]; omega
  | .number h => by
    obtain ⟨c, tail, rfl, _⟩ := h.lead
    simp
  | .string h => h.length_lt
  | .emptyArray h => by
    have hle := h.length_le
    simp only [List.length_cons] at hle ⊢
    omega
  | .array h => by
    have hlt := h.length_lt
    simp only [List.length_cons]
    omega
  | .emptyObject h => by
    have hle := h.length_le
    simp only [List.length_cons] at hle ⊢
    omega
  | .object h => by
    have hlt := h.length_lt
    simp only [List.length_cons]
    omega

theorem Items.length_lt {cs rest : List Char} {items : List Tree} :
    Items cs items rest → rest.length < cs.length
  | .last before value after => by
    have hvalue := value.length_lt
    have hbefore := before.length_le
    have hafter := after.length_le
    simp only [List.length_cons] at hafter
    omega
  | .more before value after others => by
    have hvalue := value.length_lt
    have hothers := others.length_lt
    have hbefore := before.length_le
    have hafter := after.length_le
    simp only [List.length_cons] at hafter
    omega

theorem Members.length_lt {cs rest : List Char} {members : List (String × Tree)} :
    Members cs members rest → rest.length < cs.length
  | .last before name colon gap value after => by
    have hvalue := value.length_lt
    have hname := name.length_lt
    have hbefore := before.length_le
    have hcolon := colon.length_le
    have hgap := gap.length_le
    have hafter := after.length_le
    simp only [List.length_cons] at hcolon hafter
    omega
  | .more before name colon gap value after others => by
    have hvalue := value.length_lt
    have hname := name.length_lt
    have hothers := others.length_lt
    have hbefore := before.length_le
    have hcolon := colon.length_le
    have hgap := gap.length_le
    have hafter := after.length_le
    simp only [List.length_cons] at hcolon hafter
    omega

end

instance (c : Char) : Decidable (EndsNumber c) :=
  inferInstanceAs (Decidable (_ ∧ _))

theorem endsNumber_of_isSpace {c : Char} (h : isSpace c = true) : EndsNumber c := by
  simp only [isSpace, Bool.or_eq_true, beq_iff_eq] at h
  obtain ((rfl | rfl) | rfl) | rfl := h <;> decide

theorem starts_of_blanks {blanks : List Char} (h : ∀ c ∈ blanks, isSpace c = true) :
    Starts EndsNumber blanks :=
  fun c hc => endsNumber_of_isSpace (h c (List.mem_of_mem_head? hc))

theorem Blanks.starts {b rest : List Char} {c : Char} (h : Blanks b (c :: rest))
    (hc : EndsNumber c) : Starts EndsNumber b := by
  obtain ⟨blanks, hblanks, rfl⟩ := h
  cases blanks with
  | nil =>
    rintro d ⟨rfl⟩
    exact hc
  | cons d blanks =>
    rintro e ⟨rfl⟩
    exact endsNumber_of_isSpace (hblanks d (by simp))

theorem readValue_array {cs : List Char} (h : ∀ rest, skip cs ≠ ']' :: rest) (depth : Nat) :
    readValue (depth + 1) ('[' :: cs) =
      (readItems depth cs).map fun (items, rest) => (.array items, rest) := by
  simp only [readValue]

theorem readValue_object {cs : List Char} (h : ∀ rest, skip cs ≠ '\x7d' :: rest) (depth : Nat) :
    readValue (depth + 1) ('\x7b' :: cs) =
      (readMembers depth cs).map fun (members, rest) => (.object members, rest) := by
  simp only [readValue]

theorem readValue_number {c : Char} (hc : c = '-' ∨ c.isDigit = true) (depth : Nat)
    (cs : List Char) : readValue (depth + 1) (c :: cs) =
      (readNumber (c :: cs)).map fun (lexeme, rest) => (.number lexeme, rest) := by
  have hne : ∀ d : Char, d ≠ '-' → d.isDigit = false → c ≠ d := by
    rintro d hd hdigit rfl
    simp [hd, hdigit] at hc
  unfold readValue
  split
  · exact absurd (List.cons.inj ‹_›).1 (hne '"' (by decide) rfl)
  · exact absurd (List.cons.inj ‹_›).1 (hne '[' (by decide) rfl)
  · exact absurd (List.cons.inj ‹_›).1 (hne '\x7b' (by decide) rfl)
  · exact absurd (List.cons.inj ‹_›).1 (hne 'n' (by decide) rfl)
  · exact absurd (List.cons.inj ‹_›).1 (hne 't' (by decide) rfl)
  · exact absurd (List.cons.inj ‹_›).1 (hne 'f' (by decide) rfl)
  · rfl

/-- With enough depth the readers read what the grammar derives. -/
structure ReadsAll (depth : Nat) : Prop where
  value : ∀ {cs v rest}, Value cs v rest → Starts EndsNumber rest →
    cs.length ≤ depth + rest.length → readValue depth cs = some (v, rest)
  items : ∀ {cs items rest}, Items cs items rest → cs.length ≤ depth + rest.length →
    readItems depth cs = some (items, rest)
  members : ∀ {cs members rest}, Members cs members rest → cs.length ≤ depth + rest.length →
    readMembers depth cs = some (members, rest)

theorem ReadsAll.value_succ {depth : Nat} (h : ReadsAll depth) {cs rest : List Char} {v : Tree}
    (hv : Value cs v rest) (hrest : Starts EndsNumber rest)
    (hlen : cs.length ≤ depth + 1 + rest.length) :
    readValue (depth + 1) cs = some (v, rest) := by
  cases hv with
  | null => simp [readValue, Text.dropPrefix?]
  | trueWord => simp [readValue, Text.dropPrefix?]
  | falseWord => simp [readValue, Text.dropPrefix?]
  | number hnumber =>
    obtain ⟨c, tail, rfl, hc⟩ := hnumber.lead
    have hread := hnumber.read hrest
    rw [List.cons_append] at hread ⊢
    rw [readValue_number hc, hread]
    rfl
  | string hquoted =>
    obtain ⟨tail, rfl, _⟩ := hquoted.lead
    simp [readValue, hquoted.read]
  | emptyArray hb => simp [readValue, hb.skip_cons rfl]
  | array hitems =>
    have hread := h.items hitems (by simp only [List.length_cons] at hlen; omega)
    rw [readValue_array hitems.skip_ne, hread]
    rfl
  | emptyObject hb => simp [readValue, hb.skip_cons rfl]
  | object hmembers =>
    have hread := h.members hmembers (by simp only [List.length_cons] at hlen; omega)
    rw [readValue_object hmembers.skip_ne, hread]
    rfl

theorem ReadsAll.items_succ {depth : Nat} (h : ReadsAll depth) {cs rest : List Char}
    {items : List Tree} (hitems : Items cs items rest)
    (hlen : cs.length ≤ depth + 1 + rest.length) :
    readItems (depth + 1) cs = some (items, rest) := by
  cases hitems with
  | last before value after =>
    have hbefore := before.length_le
    have hafter := after.length_le
    simp only [List.length_cons] at hafter
    -- the bracket behind the value makes up for the depth that is lost
    have hread := h.value value (after.starts (by decide)) (by omega)
    simp [readItems, value.skip_eq before, hread, after.skip_cons rfl]
  | more before value after others =>
    have hbefore := before.length_le
    have hvalue := value.length_lt
    have hothers := others.length_lt
    have hafter := after.length_le
    simp only [List.length_cons] at hafter
    have hread := h.value value (after.starts (by decide)) (by omega)
    have hreadOthers := h.items others (by omega)
    simp [readItems, value.skip_eq before, hread, after.skip_cons rfl, hreadOthers]

theorem ReadsAll.members_succ {depth : Nat} (h : ReadsAll depth) {cs rest : List Char}
    {members : List (String × Tree)} (hmembers : Members cs members rest)
    (hlen : cs.length ≤ depth + 1 + rest.length) :
    readMembers (depth + 1) cs = some (members, rest) := by
  cases hmembers with
  | last before name colon gap value after =>
    have hbefore := before.length_le
    have hname := name.length_lt
    have hcolon := colon.length_le
    have hgap := gap.length_le
    have hafter := after.length_le
    simp only [List.length_cons] at hcolon hafter
    have hread := h.value value (after.starts (by decide)) (by omega)
    simp [readMembers, name.skip_eq before, name.read, colon.skip_cons rfl, value.skip_eq gap,
      hread, after.skip_cons rfl]
  | more before name colon gap value after others =>
    have hbefore := before.length_le
    have hname := name.length_lt
    have hcolon := colon.length_le
    have hgap := gap.length_le
    have hvalue := value.length_lt
    have hothers := others.length_lt
    have hafter := after.length_le
    simp only [List.length_cons] at hcolon hafter
    have hread := h.value value (after.starts (by decide)) (by omega)
    have hreadOthers := h.members others (by omega)
    simp [readMembers, name.skip_eq before, name.read, colon.skip_cons rfl, value.skip_eq gap,
      hread, after.skip_cons rfl, hreadOthers]

/-- A text of the grammar is longer than what stands behind it, so no depth is too small for a
text that it bounds. -/
theorem readsAll (depth : Nat) : ReadsAll depth := by
  induction depth with
  | zero =>
    refine ⟨fun h _ hlen => ?_, fun h hlen => ?_, fun h hlen => ?_⟩
    · have := h.length_lt
      omega
    · have := h.length_lt
      omega
    · have := h.length_lt
      omega
  | succ depth ih => exact ⟨ih.value_succ, ih.items_succ, ih.members_succ⟩

/-- The reader finds the value that a text spells. -/
theorem Spells.parse {cs : List Char} {v : Tree} (h : Spells cs v) : parse cs = some v := by
  obtain ⟨a, b, before, value, after⟩ := h
  have hbefore := before.length_le
  have hends : Starts EndsNumber b := by
    obtain ⟨blanks, hblanks, rfl⟩ := after
    rw [List.append_nil]
    exact starts_of_blanks hblanks
  have hread := (readsAll (cs.length + 1)).value value hends (by omega)
  rw [Json.parse, value.skip_eq before, hread]
  simp [after.skip_nil]

/-- No text spells two values. -/
theorem Spells.unique {cs : List Char} {v w : Tree} (hv : Spells cs v) (hw : Spells cs w) :
    v = w :=
  Option.some.inj (hv.parse.symm.trans hw.parse)

end WireRecords.Json
