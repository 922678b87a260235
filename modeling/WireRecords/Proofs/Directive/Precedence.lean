import WireRecords.Proofs.Names

/-!
# Widths as they are written

A width can be written in many ways: with spaces, with numbers in either base, and with more
parentheses than it needs. `Formula.Sufficient` says where parentheses are needed, which is the
usual precedence with operators associating to the left. Every such spelling is read as the width it
writes, wherever the field stands in a directive.
-/
namespace WireRecords

/-- References are identifiers and numbers are words. -/
def Width.Writable : Width → Prop
  | literal n => n < wordCount
  | field id => IsIdentifier id
  | binary _ lhs rhs => lhs.Writable ∧ rhs.Writable

/-- How tightly an operator binds. -/
def Operator.strength : Operator → Nat
  | add | sub => 0
  | mul | div | rem => 1

theorem Operator.strength_cases (op : Operator) :
    ((op = .add ∨ op = .sub) ∧ op.strength = 0) ∨
      ((op = .mul ∨ op = .div ∨ op = .rem) ∧ op.strength = 1) := by
  cases op <;> decide

/-- A width with the parentheses that someone has written. -/
inductive Formula where
  | literal (value : Nat)
  | field (id : String)
  | binary (op : Operator) (lhs rhs : Formula)
  | parentheses (inner : Formula)

namespace Formula

def width : Formula → Width
  | literal n => .literal n
  | field id => .field id
  | binary op lhs rhs => .binary op lhs.width rhs.width
  | parentheses inner => inner.width

/-- How tightly a formula holds together: as its last operation, or more than any. -/
def strength : Formula → Nat
  | binary op _ _ => op.strength
  | literal _ | field _ | parentheses _ => 2

/-- Parentheses stand where they are needed. The left operand of an operation holds together at
least as tightly as the operation, and the right operand more tightly. -/
def Sufficient : Formula → Prop
  | literal _ | field _ => True
  | binary op lhs rhs => op.strength ≤ lhs.strength ∧ op.strength < rhs.strength ∧
      lhs.Sufficient ∧ rhs.Sufficient
  | parentheses inner => inner.Sufficient

/-- Parentheses around every operation. -/
def ofWidth : Width → Formula
  | .literal n => literal n
  | .field id => field id
  | .binary op lhs rhs => parentheses (binary op (ofWidth lhs) (ofWidth rhs))

def tokens : Formula → List Directive.Token
  | literal n => [.number n]
  | field id => [.name id]
  | binary op lhs rhs => lhs.tokens ++ .mark op.mark :: rhs.tokens
  | parentheses inner => .mark '(' :: (inner.tokens ++ [.mark ')'])

theorem tokens_ne_nil (f : Formula) : f.tokens ≠ [] := by
  cases f <;> simp [tokens]

end Formula

namespace Directive

/-- The spellings of a formula. -/
inductive FormulaSpells : Formula → List Char → Prop
  | literal {n : Nat} {digits : List Char} (h : Spells digits (.number n)) :
      FormulaSpells (.literal n) digits
  | field (id : String) : FormulaSpells (.field id) id.toList
  | binary {op : Operator} {lhs rhs : Formula} {cs ds : List Char} (left : FormulaSpells lhs cs)
      (right : FormulaSpells rhs ds) : FormulaSpells (.binary op lhs rhs) (cs ++ op.mark :: ds)
  | parentheses {inner : Formula} {cs : List Char} (h : FormulaSpells inner cs) :
      FormulaSpells (.parentheses inner) ('(' :: (cs ++ [')']))
  | spaced {f : Formula} {before cs behind : List Char} (hbefore : ∀ c ∈ before, isSpacing c = true)
      (h : FormulaSpells f cs) (hbehind : ∀ c ∈ behind, isSpacing c = true) :
      FormulaSpells f (before ++ (cs ++ behind))

/-- A directive but for the width of one field. -/
structure Surroundings where
  name : String
  earlier : List FieldSyntax
  id : String
  type : Option TypeExpr
  endian : Endian
  later : List FieldSyntax

/-- The directive when the field has the width `w`, but for where it and the field stand. -/
def Surroundings.filled (s : Surroundings) (w : Width) : Directive :=
  ⟨default, s.name, s.earlier ++ ⟨default, s.id, some w, s.type, s.endian⟩ :: s.later⟩

/-- `text` writes the directive, with `cs` in the place of the width. -/
inductive Surroundings.Write (s : Surroundings) (cs : List Char) (text : String) : Prop
  | intro {ns fs us gs stop : List Token} {behind last : List Char} (name : NameForm ns s.name)
      (earlier : FieldsForm fs s.earlier) (tail : TailForm us s.type s.endian)
      (later : FieldsForm gs s.later) (hstop : stop = [] ∨ stop = [.mark ';'])
      (readsBefore : Reads text.toList (ns ++ (fs ++ [.name s.id, .mark '['])) (cs ++ behind))
      (readsBehind : Reads behind ((us ++ [.mark ']']) ++ (gs ++ stop)) last)
      (complete : skip last = [])

/-! ### Where tokens end -/

/-- No token of letters and digits goes on here. -/
def Stops (cs : List Char) : Prop := ∀ c ∈ cs.head?, isAlphanumeric c = false

theorem isAlphanumeric_of_isHexDigit {c : Char} (h : isHexDigit c = true) :
    isAlphanumeric c = true := by
  have hf : c ≤ 'f' → c ≤ 'z' := fun hc => hc.trans (by decide)
  have hF : c ≤ 'F' → c ≤ 'Z' := fun hc => hc.trans (by decide)
  simp only [isHexDigit, Bool.or_eq_true, Bool.and_eq_true, decide_eq_true_eq] at h
  simp only [isAlphanumeric, isAlpha, Bool.or_eq_true, Bool.and_eq_true, decide_eq_true_eq]
  tauto

theorem Spells.alphanumeric {lexeme : List Char} {t : Token} (h : Spells lexeme t)
    (ht : t.lead = .name ∨ t.lead = .number) : ∀ c ∈ lexeme, isAlphanumeric c = true := by
  cases h with
  | name first others => simpa [isAlphanumeric, first] using others
  | decimal nonempty digits => exact fun c hc => by simp [isAlphanumeric, digits c hc]
  | @hexadecimal x ds base nonempty digits =>
    have hbase : isAlphanumeric x = true := by rcases base with rfl | rfl <;> decide
    have hzero : isAlphanumeric '0' = true := by decide
    simpa [hbase, hzero] using fun c hc => isAlphanumeric_of_isHexDigit (digits c hc)
  | _ => simp [Token.lead] at ht

theorem Stops.dropWhile_eq {rest : List Char} (h : Stops rest) :
    rest.dropWhile isAlphanumeric = rest := by
  cases rest with
  | nil => rfl
  | cons c rest => simp [h c rfl]

/-- Names and numbers end where the next character is neither letter nor digit. -/
theorem Spells.munch {lexeme rest : List Char} {t : Token} (h : Spells lexeme t)
    (ht : t.lead = .name ∨ t.lead = .number) (hrest : Stops rest) :
    Munch (lexeme ++ rest) t rest := by
  refine ⟨⟨lexeme, rfl, h⟩, fun {lexeme' t' rest'} hcs hs => ?_⟩
  obtain ⟨c, cs, rfl, hlead⟩ := h.lead_eq
  have ht' : t'.lead = .name ∨ t'.lead = .number := by
    rwa [hs.lead_eq_of_append hcs, hlead]
  have hdrop : ((c :: cs) ++ rest).dropWhile isAlphanumeric = rest := by
    rw [List.dropWhile_append_of_pos (h.alphanumeric ht), hrest.dropWhile_eq]
  rw [← hdrop, hcs]
  exact dropWhile_length_le (hs.alphanumeric ht')

theorem stops_cons {c : Char} (hname : lead c ≠ .name) (hnumber : lead c ≠ .number)
    (rest : List Char) : Stops (c :: rest) := by
  intro d hd
  obtain rfl : c = d := by simpa using hd
  rw [isAlphanumeric, Bool.or_eq_false_iff]
  constructor
  · by_contra halpha
    simp [lead, halpha] at hname
  · by_contra hdigit
    exact hnumber (lead_digit (by simpa using hdigit))

theorem stops_mark {c : Char} (hc : c ∈ marks) (rest : List Char) : Stops (c :: rest) :=
  stops_cons (by simp [lead_mark hc]) (by simp [lead_mark hc]) rest

theorem Stops.append {blank rest : List Char} (hblank : ∀ c ∈ blank, isSpacing c = true)
    (h : Stops rest) : Stops (blank ++ rest) := by
  cases blank with
  | nil => exact h
  | cons c blank =>
    have hlead := lead_spacing (hblank c (by simp))
    exact stops_cons (by simp [hlead]) (by simp [hlead]) _

theorem Closes.stops {cs : List Char} (h : Closes cs) : Stops cs := by
  obtain ⟨c, tail, hskip, hc⟩ := h
  rw [← List.takeWhile_append_dropWhile (p := isSpacing) (l := cs)]
  refine Stops.append mem_takeWhile ?_
  rw [← skip, hskip]
  exact stops_mark (by rcases hc with rfl | rfl <;> decide) tail

theorem skip_append {blank : List Char} (h : ∀ c ∈ blank, isSpacing c = true) (rest : List Char) :
    skip (blank ++ rest) = skip rest := List.dropWhile_append_of_pos h

theorem skip_mark {c : Char} (hc : c ∈ marks) (rest : List Char) : skip (c :: rest) = c :: rest :=
  (mark_munch hc rest).skip_eq

end Directive

open Directive

/-! ### The tokens of a formula -/

theorem IsIdentifier.spells {id : String} (h : IsIdentifier id) : Spells id.toList (.name id) := by
  obtain ⟨c, cs, hid, hc, hcs⟩ := h
  have hname := Spells.name hc hcs
  rwa [← hid, String.ofList_toList] at hname

namespace Directive

/-- A spelling of a formula has the tokens of the formula. -/
theorem FormulaSpells.reads {f : Formula} {cs : List Char} (h : FormulaSpells f cs)
    (hf : f.width.Writable) {rest : List Char} (hrest : Stops rest) :
    ∃ mid, Reads (cs ++ rest) f.tokens mid ∧ skip mid = skip rest := by
  induction h generalizing rest with
  | literal h => exact ⟨rest, (h.munch (Or.inr rfl) hrest).reads, rfl⟩
  | field id => exact ⟨rest, (IsIdentifier.spells hf |>.munch (Or.inl rfl) hrest).reads, rfl⟩
  | @binary op lhs rhs cs ds left right ihl ihr =>
    have hop := Operator.mark_mem op
    obtain ⟨behind, hleft, hbehind⟩ := ihl hf.1 (stops_mark hop (ds ++ rest))
    obtain ⟨mid, hright, hmid⟩ := ihr hf.2 hrest
    rw [skip_mark hop] at hbehind
    refine ⟨mid, ?_, hmid⟩
    rw [List.append_assoc]
    exact hleft.append ((reads_mark hop hbehind).append hright)
  | @parentheses inner cs h ih =>
    obtain ⟨behind, hinner, hbehind⟩ := ih hf (stops_mark (c := ')') (by decide) rest)
    rw [skip_mark (by decide)] at hbehind
    refine ⟨rest, ?_, rfl⟩
    have hopen : Reads ('(' :: (cs ++ [')'] ++ rest)) [.mark '('] (cs ++ ')' :: rest) :=
      reads_mark (by decide) (by rw [skip_mark (by decide)]; simp)
    exact hopen.append (hinner.append (reads_mark (by decide) hbehind))
  | @spaced f before cs behind hbefore h hbehind ih =>
    obtain ⟨mid, hreads, hmid⟩ := ih hf (hrest.append hbehind)
    refine ⟨mid, hreads.of_skip ?_ f.tokens_ne_nil, ?_⟩
    · simp only [List.append_assoc, skip_append hbefore]
    · rw [hmid, skip_append hbehind]

end Directive

/-! ### Precedence -/

/-- What a formula with enough parentheses is in the grammar of directives. -/
theorem Formula.Sufficient.widthForm {f : Formula} (h : f.Sufficient) (hf : f.width.Writable) :
    (2 ≤ f.strength → WidthForm .atom f.tokens f.width) ∧
      (1 ≤ f.strength → WidthForm .product f.tokens f.width) ∧
      WidthForm .sum f.tokens f.width := by
  have hatom : ∀ {f : Formula}, WidthForm .atom f.tokens f.width →
      (2 ≤ f.strength → WidthForm .atom f.tokens f.width) ∧
        (1 ≤ f.strength → WidthForm .product f.tokens f.width) ∧
        WidthForm .sum f.tokens f.width :=
    fun h => ⟨fun _ => h, fun _ => .ofAtom h, .ofProduct (.ofAtom h)⟩
  induction f with
  | literal n => exact hatom (.literal hf)
  | field id => exact hatom (.field id)
  | parentheses inner ih => exact hatom (.parentheses (ih h hf).2.2)
  | binary op lhs rhs ihl ihr =>
    obtain ⟨hleft, hright, hlhs, hrhs⟩ := h
    obtain ⟨_, hproduct, hsum⟩ := ihl hlhs hf.1
    obtain ⟨hatom', hproduct', _⟩ := ihr hrhs hf.2
    obtain ⟨hop, hzero⟩ | ⟨hop, hone⟩ := op.strength_cases
    · have hform := WidthForm.term hop hsum (hproduct' (by omega))
      exact ⟨fun hlow => absurd hlow (by simp [strength, hzero]),
        fun hlow => absurd hlow (by simp [strength, hzero]), hform⟩
    · have hform := WidthForm.factor hop (hproduct (by omega)) (hatom' (by omega))
      exact ⟨fun hlow => absurd hlow (by simp [strength, hone]), fun _ => hform, .ofProduct hform⟩

/-! ### The display of a width -/

theorem Formula.width_ofWidth (w : Width) : (ofWidth w).width = w := by
  induction w with
  | literal _ => rfl
  | field _ => rfl
  | binary op lhs rhs ihl ihr => rw [ofWidth, width, width, ihl, ihr]

theorem Formula.sufficient_ofWidth (w : Width) : (ofWidth w).Sufficient := by
  have hstrength : ∀ w, (ofWidth w).strength = 2 := by
    intro w
    cases w <;> rfl
  induction w with
  | literal _ => trivial
  | field _ => trivial
  | binary op lhs rhs ihl ihr =>
    refine ⟨?_, ?_, ihl, ihr⟩ <;> rw [hstrength] <;> cases op <;> decide

namespace Directive

theorem isDigit_of_mem_toDigits {n : Nat} {c : Char} (h : c ∈ Nat.toDigits 10 n) :
    isDigit c = true :=
  Nat.isDigit_of_mem_toDigits (by decide) (by decide) h

/-- The decimal digits of a number spell it. -/
theorem spells_toDigits (n : Nat) : Spells (Nat.toDigits 10 n) (.number n) := by
  have hvalue : positional 10 (Nat.toDigits 10 n) = n :=
    calc positional 10 (Nat.toDigits 10 n)
      _ = ofDigits 10 (Nat.toDigits 10 n) := (ofDigits_eq_positional 10 _).symm
      _ = Nat.ofDigitChars 10 (Nat.toDigits 10 n) 0 :=
        List.foldl_ext _ _ 0 fun a c hc => by rw [digitValue, if_pos (isDigit_of_mem_toDigits hc)]
      _ = n := Nat.ofDigitChars_ten_toDigits
  have hspells := Spells.decimal (Nat.toDigits_ne_nil (n := n) (b := 10)) fun c hc =>
    isDigit_of_mem_toDigits hc
  rwa [hvalue] at hspells

/-- A width is displayed with parentheses around every operation. -/
theorem formulaSpells_text (w : Width) : FormulaSpells (.ofWidth w) w.text.toList := by
  induction w with
  | literal n =>
    rw [Width.text, Nat.toString_eq_repr, Nat.toList_repr]
    exact .literal (spells_toDigits n)
  | field id => exact .field id
  | binary op lhs rhs ihl ihr =>
    have hsymbol : op.symbol.toList = [op.mark] := by cases op <;> rfl
    have htext : (Width.binary op lhs rhs).text.toList =
        '(' :: (lhs.text.toList ++ op.mark :: rhs.text.toList ++ [')']) := by
      simp [Width.text, hsymbol]
    rw [htext]
    exact .parentheses (.binary ihl ihr)

theorem FieldsForm.append {ts us : List Token} {fs gs : List FieldSyntax} (h : FieldsForm ts fs)
    (h' : FieldsForm us gs) : FieldsForm (ts ++ us) (fs ++ gs) := by
  induction h with
  | nil => exact h'
  | cons head _ ih =>
    rw [List.append_assoc]
    exact .cons head ih

/-- A text with the spelling of a width in it writes the directive with this width. -/
theorem Surroundings.Write.renders {s : Surroundings} {text : String} {f : Formula}
    {cs : List Char} (h : s.Write cs text) (hspells : FormulaSpells f cs) (hf : f.Sufficient)
    (hwritable : f.width.Writable) :
    Renders text (s.filled f.width) := by
  cases h with
  | @intro ns fs us gs stop behind last name earlier tail later hstop readsBefore readsBehind
      complete =>
    obtain ⟨close, hclose, _⟩ := readsBehind.split
    obtain ⟨mid, hwidth, hmid⟩ := hspells.reads hwritable (tail.closing.closes hclose).stops
    have hbehind : Reads mid ((us ++ [.mark ']']) ++ (gs ++ stop)) last :=
      readsBehind.of_skip hmid.symm (by simp)
    have hfield := FieldForm.intro (f := ⟨default, s.id, some f.width, s.type, s.endian⟩)
      (.present (hf.widthForm hwritable).2.2) tail (Or.inl rfl)
    refine ⟨_, lexes_iff.mpr ⟨last, ?_, complete⟩,
      .intro name (earlier.append (.cons hfield later)) hstop⟩
    simpa using readsBefore.append (hwidth.append hbehind)

/-- Widths are read with the usual precedence, operators of one strength from left to right. However
a width is spelled, with parentheses where they are needed and maybe more, and wherever its field
stands, the directive has just this width. The display of a width is such a spelling. -/
theorem width_read_as_written {w : Width} (hw : w.Writable) :
    (∃ f : Formula, f.width = w ∧ f.Sufficient ∧ FormulaSpells f w.text.toList) ∧
      ∀ (f : Formula) (cs : List Char), f.width = w → f.Sufficient → FormulaSpells f cs →
        ∀ (s : Surroundings) (file : Nat) (text : String), s.Write cs text →
          ∃ d, Directive.parse file text = .ok d ∧ d.content = (s.filled w).content := by
  refine ⟨⟨.ofWidth w, Formula.width_ofWidth w, Formula.sufficient_ofWidth w,
    formulaSpells_text w⟩, ?_⟩
  rintro f cs rfl hf hspells s file text hwrite
  exact parse_of_renders file (hwrite.renders hspells hf hw)

/-- The width `a*2+(a-1)%8`. -/
def unevenWidth : Width :=
  .binary .add (.binary .mul (.field "a") (.literal 2))
    (.binary .rem (.binary .sub (.field "a") (.literal 1)) (.literal 8))

theorem unevenWidth_writable : unevenWidth.Writable := by
  have ha : IsIdentifier "a" := ⟨'a', [], by decide, by decide, by simp⟩
  have hword : ∀ n, n ≤ 8 → (Width.literal n).Writable := fun n hn =>
    Nat.lt_of_le_of_lt hn (by decide)
  exact ⟨⟨ha, hword 2 (by decide)⟩, ⟨ha, hword 1 (by decide)⟩, hword 8 (by decide)⟩

/-- The same width with more parentheses than it needs. -/
def unevenFormula : Formula :=
  .binary .add (.binary .mul (.field "a") (.parentheses (.literal 2)))
    (.binary .rem (.parentheses (.binary .sub (.field "a") (.literal 1))) (.literal 8))

theorem unevenFormula_spells : FormulaSpells unevenFormula "a*(2)+ (a-1)%0x8".toList := by
  have hcs : "a*(2)+ (a-1)%0x8".toList =
      ("a".toList ++ '*' :: ('(' :: (['2'] ++ [')']))) ++ '+' :: ([' '] ++
        (('(' :: (("a".toList ++ '-' :: ['1']) ++ [')'])) ++ '%' :: ['0', 'x', '8'] ++ [])) := by
    decide
  rw [hcs]
  refine .binary (.binary (.field "a") (.parentheses (.literal (spells_toDigits 2))))
    (.spaced (by simp [isSpacing])
      (.binary (.parentheses (.binary (.field "a") (.literal (spells_toDigits 1)))) (.literal ?_))
      (by simp))
  exact .hexadecimal (Or.inl rfl) (by simp) (by simp [isHexDigit, isDigit])

theorem uneven_write : Surroundings.Write ⟨anonymous, [], "b", none, .little, []⟩
    "a*(2)+ (a-1)%0x8".toList "b[a*(2)+ (a-1)%0x8]" := by
  have hbehind : Reads [']'] (([] ++ [.mark ']']) ++ ([] ++ [])) [] :=
    .cons (mark_munch (by decide) []) .nil
  refine .intro .absent .nil .absent .nil (Or.inl rfl) ?_ hbehind rfl
  have htext : "b[a*(2)+ (a-1)%0x8]".toList =
      'b' :: '[' :: ("a*(2)+ (a-1)%0x8".toList ++ [']']) := by decide
  rw [htext]
  exact .cons (identifier_munch rfl) (.cons (mark_munch (by decide) _) .nil)

theorem width_read_as_written_uneven :
    unevenWidth.Writable ∧ ∃ d, Directive.parse 0 "b[a*(2)+ (a-1)%0x8]" = .ok d ∧
      d.fields.map (·.width) = [some unevenWidth] := by
  refine ⟨unevenWidth_writable, ?_⟩
  obtain ⟨d, hparse, hcontent⟩ := (width_read_as_written unevenWidth_writable).2 unevenFormula _ rfl
    (by simp [unevenFormula, Formula.Sufficient, Formula.strength, Operator.strength])
    unevenFormula_spells _ 0 _ uneven_write
  refine ⟨d, hparse, ?_⟩
  have hfields := congrArg (List.map (·.2.1)) (congrArg Prod.snd hcontent)
  simpa [content, FieldSyntax.content, Surroundings.filled, Function.comp_def] using hfields

end Directive

end WireRecords
