import WireRecords.Proofs.Directive.Readers

/-!
# Where the readers are in the text

What a reader leaves is an end of what it was given, and the numbers that it returns stand there as
they are written. So every stretch that is made of what readers leave lies in the text, whether the
text is a directive or not.
-/
namespace WireRecords.Directive

/-- The numbers in a width, as written. -/
def WidthTree.numbers : WidthTree → List (List Char)
  | number digits => [digits]
  | field _ => []
  | binary _ lhs rhs => lhs.numbers ++ rhs.numbers

/-- The numbers in a type, as written. -/
def TypeTree.numbers : TypeTree → List (List Char)
  | slice type | pointer type => type.numbers
  | array digits type => digits :: type.numbers
  | named _ | constant _ => []

/-! ### Tokens -/

theorem skip_suffix (cs : List Char) : skip cs <:+ cs := List.dropWhile_suffix _

/-- A character behind spacing. -/
theorem suffix_of_skip {c : Char} {cs rest : List Char} (h : skip cs = c :: rest) :
    rest <:+ cs := by
  have hcons : c :: rest <:+ cs := h ▸ skip_suffix cs
  exact (List.suffix_cons c rest).trans hcons

theorem Munch.suffix {cs rest : List Char} {t : Token} (h : Munch cs t rest) : rest <:+ cs := by
  obtain ⟨lexeme, rfl, _⟩ := h.spelled
  exact List.suffix_append lexeme rest

theorem number_append {cs digits rest : List Char} (h : number cs = some (digits, rest)) :
    cs = digits ++ rest := by
  unfold number at h
  split at h
  · rename_i hhex
    obtain rfl := Option.some.inj h
    obtain ⟨x, tail, _, rfl, rfl, rfl, _⟩ := hexNumber_eq_some hhex
    simp
  · obtain ⟨rfl, rfl, _⟩ := run_eq_some.mp h
    simp

/-! ### Widths -/

/-- What is left is an end of the text, and the numbers of what is read stand in it. -/
structure Leaves (cs : List Char) (numbers : List (List Char)) (rest : List Char) : Prop where
  suffix : rest <:+ cs
  written : ∀ digits ∈ numbers, digits <:+: cs

variable {cs mid rest : List Char} {numbers more : List (List Char)}

theorem Leaves.refl (cs : List Char) : Leaves cs [] cs := ⟨List.suffix_rfl, by simp⟩

theorem Leaves.trans (h : Leaves cs numbers mid) (g : Leaves mid more rest) :
    Leaves cs (numbers ++ more) rest := by
  refine ⟨g.suffix.trans h.suffix, fun digits hd => ?_⟩
  rcases List.mem_append.mp hd with hd | hd
  · exact h.written digits hd
  · exact (g.written digits hd).trans h.suffix.isInfix

/-- Nothing that is read stands before the text. -/
theorem Leaves.within (h : Leaves cs numbers rest) {text : List Char} (hcs : cs <:+ text) :
    Leaves text numbers rest :=
  ⟨h.suffix.trans hcs, fun digits hd => (h.written digits hd).trans hcs.isInfix⟩

/-- What is left loses characters at its start. -/
theorem Leaves.drop (h : Leaves cs numbers mid) (hrest : rest <:+ mid) : Leaves cs numbers rest :=
  ⟨hrest.trans h.suffix, h.written⟩

theorem number_leaves {digits : List Char} (h : number cs = some (digits, rest)) :
    Leaves cs [digits] rest := by
  rw [number_append h]
  refine ⟨List.suffix_append _ _, fun ds hds => ?_⟩
  obtain rfl : ds = digits := by simpa using hds
  exact (List.prefix_append _ _).isInfix

def OperandLeaves (operand : List Char → Option (WidthTree × List Char)) : Prop :=
  ∀ ⦃cs tree rest⦄, operand cs = some (tree, rest) → Leaves cs tree.numbers rest

/-- The numbers of the first operand come before those that are read. -/
def ChainLeaves (next : WidthTree → List Char → Option (WidthTree × List Char)) : Prop :=
  ∀ ⦃lhs cs tree rest⦄, next lhs cs = some (tree, rest) →
    ∃ numbers, tree.numbers = lhs.numbers ++ numbers ∧ Leaves cs numbers rest

theorem chain_leaves {operator : Char → Option Operator}
    {operand : List Char → Option (WidthTree × List Char)}
    {next : WidthTree → List Char → Option (WidthTree × List Char)}
    (hoperand : OperandLeaves operand) (hnext : ChainLeaves next) :
    ChainLeaves (chain operator operand next) := by
  intro lhs cs tree rest h
  have hstop : some (lhs, cs) = some (tree, rest) →
      ∃ numbers, tree.numbers = lhs.numbers ++ numbers ∧ Leaves cs numbers rest := by
    rintro ⟨rfl, rfl⟩
    exact ⟨[], by simp, .refl cs⟩
  unfold chain at h
  split at h
  · rename_i c inner hskip
    split at h
    · split at h
      · rename_i rhs mid hrhs
        have hread := (hoperand hrhs).within ((skip_suffix inner).trans (suffix_of_skip hskip))
        obtain ⟨numbers, hnumbers, hleaves⟩ := hnext h
        exact ⟨rhs.numbers ++ numbers, by simp [hnumbers, WidthTree.numbers], hread.trans hleaves⟩
      · exact hstop h
    · exact hstop h
  · exact hstop h

/-- A first operand and what follows it. -/
theorem operand_leaves {operand : List Char → Option (WidthTree × List Char)}
    {next : WidthTree → List Char → Option (WidthTree × List Char)}
    (hoperand : OperandLeaves operand) (hnext : ChainLeaves next) {first tree : WidthTree}
    (hfirst : operand cs = some (first, mid)) (h : next first mid = some (tree, rest)) :
    Leaves cs tree.numbers rest := by
  obtain ⟨numbers, hnumbers, hleaves⟩ := hnext h
  rw [hnumbers]
  exact (hoperand hfirst).trans hleaves

theorem widthAtom_leaves {n : Nat} (hsum : OperandLeaves (widthSum n)) :
    OperandLeaves (widthAtom (n + 1)) := by
  intro cs tree rest h
  simp only [widthAtom] at h
  split at h
  · rename_i digits rest' hnumber
    simp only [Option.some.injEq, Prod.mk.injEq] at h
    obtain ⟨rfl, rfl⟩ := h
    exact number_leaves hnumber
  · split at h
    · rename_i id rest' hid
      simp only [Option.some.injEq, Prod.mk.injEq] at h
      obtain ⟨rfl, rfl⟩ := h
      exact ⟨(identifier_munch hid).suffix, by simp [WidthTree.numbers]⟩
    · split at h
      · rename_i inner _ _
        split at h
        · rename_i sum mid hinner
          split at h
          · rename_i after hclose
            simp only [Option.some.injEq, Prod.mk.injEq] at h
            obtain ⟨rfl, rfl⟩ := h
            have hread := (hsum hinner).within
              ((skip_suffix inner).trans (List.suffix_cons '(' inner))
            exact hread.drop (suffix_of_skip hclose)
          · simp at h
        · simp at h
      · simp at h

structure WidthLeaves (n : Nat) : Prop where
  atom : OperandLeaves (widthAtom n)
  product : OperandLeaves (widthProduct n)
  factors : ChainLeaves (widthFactors n)
  sum : OperandLeaves (widthSum n)
  terms : ChainLeaves (widthTerms n)

theorem widthLeaves (n : Nat) : WidthLeaves n := by
  induction n with
  | zero =>
    refine ⟨?_, ?_, ?_, ?_, ?_⟩
    · intro cs tree rest h
      simp [widthAtom] at h
    · intro cs tree rest h
      simp [widthProduct] at h
    · intro lhs cs tree rest h
      simp [widthFactors] at h
    · intro cs tree rest h
      simp [widthSum] at h
    · intro lhs cs tree rest h
      simp [widthTerms] at h
  | succ n ih =>
    refine ⟨widthAtom_leaves ih.sum, ?_, ?_, ?_, ?_⟩
    · intro cs tree rest h
      simp only [widthProduct] at h
      split at h
      · rename_i hfirst
        exact operand_leaves ih.atom ih.factors hfirst h
      · simp at h
    · intro lhs cs tree rest h
      rw [widthFactors_succ] at h
      exact chain_leaves ih.atom ih.factors h
    · intro cs tree rest h
      simp only [widthSum] at h
      split at h
      · rename_i hfirst
        exact operand_leaves ih.product ih.terms hfirst h
      · simp at h
    · intro lhs cs tree rest h
      rw [widthTerms_succ] at h
      exact chain_leaves ih.product ih.terms h

/-! ### Types -/

theorem pathSegments_suffix (n : Nat) (cs : List Char) : (pathSegments n cs).2 <:+ cs := by
  induction n generalizing cs with
  | zero => exact List.suffix_rfl
  | succ n ih =>
    simp only [pathSegments]
    split
    · rename_i after hseparator
      split
      · rename_i id mid hid
        have hafter : after <:+ skip cs := by
          unfold pathSeparator at hseparator
          split at hseparator
          · rename_i tail hskip
            obtain rfl := Option.some.inj hseparator
            rw [hskip]
            exact (List.suffix_cons _ _).trans (List.suffix_cons _ _)
          · rename_i tail hskip
            obtain rfl := Option.some.inj hseparator
            rw [hskip]
            exact List.suffix_cons _ _
          · simp at hseparator
        calc (pathSegments n mid).2
          _ <:+ mid := ih mid
          _ <:+ skip after := (identifier_munch hid).suffix
          _ <:+ after := skip_suffix after
          _ <:+ skip cs := hafter
          _ <:+ cs := skip_suffix cs
      · exact List.suffix_rfl
    · exact List.suffix_rfl

theorem typeTree_leaves {n : Nat} {tree : TypeTree} (h : typeTree n cs = some (tree, rest)) :
    Leaves cs tree.numbers rest := by
  induction n generalizing cs tree rest with
  | zero => simp [typeTree] at h
  | succ n ih =>
    simp only [typeTree] at h
    split at h
    · rename_i inner
      split at h
      · rename_i after hclose
        obtain ⟨⟨element, _⟩, helement, heq⟩ := Option.map_eq_some_iff.mp h
        simp only [Prod.mk.injEq] at heq
        obtain ⟨rfl, rfl⟩ := heq
        exact (ih helement).within ((skip_suffix after).trans
          ((suffix_of_skip hclose).trans (List.suffix_cons '[' inner)))
      · split at h
        · rename_i digits mid hnumber
          split at h
          · rename_i after hclose
            obtain ⟨⟨element, _⟩, helement, heq⟩ := Option.map_eq_some_iff.mp h
            simp only [Prod.mk.injEq] at heq
            obtain ⟨rfl, rfl⟩ := heq
            have hinner := (number_leaves hnumber).within
              ((skip_suffix inner).trans (List.suffix_cons '[' inner))
            exact hinner.trans
              ((ih helement).within ((skip_suffix after).trans (suffix_of_skip hclose)))
          · simp at h
        · simp at h
    · rename_i inner
      obtain ⟨⟨target, _⟩, htarget, heq⟩ := Option.map_eq_some_iff.mp h
      simp only [Prod.mk.injEq] at heq
      obtain ⟨rfl, rfl⟩ := heq
      exact (ih htarget).within ((skip_suffix inner).trans (List.suffix_cons '*' inner))
    · obtain ⟨⟨value, _⟩, hvalue, heq⟩ := Option.map_eq_some_iff.mp h
      simp only [Prod.mk.injEq] at heq
      obtain ⟨rfl, rfl⟩ := heq
      exact ⟨(quotedText_munch hvalue).suffix, by simp [TypeTree.numbers]⟩
    · split at h
      · rename_i id mid hid
        simp only [Option.some.injEq, Prod.mk.injEq] at h
        obtain ⟨rfl, rfl⟩ := h
        exact ⟨(pathSegments_suffix n mid).trans (identifier_munch hid).suffix,
          by simp [TypeTree.numbers]⟩
      · simp at h

/-! ### Fields -/

theorem attempt_leaves {α : Type} {read : List Char → Option (α × List Char)}
    {numbers : α → List (List Char)}
    (h : ∀ {a rest}, read cs = some (a, rest) → Leaves cs (numbers a) rest) :
    Leaves cs ((attempt read cs).1.elim [] numbers) (attempt read cs).2 := by
  unfold attempt
  cases hread : read cs with
  | none => exact .refl cs
  | some q => exact h hread

theorem typeBehind_leaves (cs : List Char) :
    Leaves cs ((typeBehind cs).1.elim [] TypeTree.numbers) (typeBehind cs).2 :=
  (attempt_leaves typeTree_leaves).within (skip_suffix cs)

theorem widthBehind_leaves (cs : List Char) :
    Leaves cs ((widthBehind cs).1.elim [] WidthTree.numbers) (widthBehind cs).2 :=
  (attempt_leaves fun h => (widthLeaves _).sum h).within (skip_suffix cs)

theorem run_append {p : Char → Bool} {word : List Char} (h : run p cs = some (word, rest)) :
    word ++ rest = cs := by
  obtain ⟨rfl, rfl, _⟩ := run_eq_some.mp h
  simp

/-- What is read of the type, and where the byte order stands. -/
theorem typePart_leaves (cs : List Char) :
    Leaves cs ((typePart cs).1.elim [] TypeTree.numbers) (typePart cs).2.2 ∧
      ∀ {word rest}, (typePart cs).2.1 = some (word, rest) → word ++ rest <:+ cs := by
  by_cases hcomma : ∃ inner, cs = ',' :: inner
  · obtain ⟨inner, rfl⟩ := hcomma
    have htype := (typeBehind_leaves inner).within (List.suffix_cons ',' inner)
    by_cases hmark : ∃ mid, skip (typeBehind inner).2 = ',' :: mid
    · obtain ⟨mid, hmid⟩ := hmark
      have hbehind : mid <:+ (typeBehind inner).2 := suffix_of_skip hmid
      cases hrun : run isAlphanumeric (skip mid) with
      | none =>
        rw [typePart_bare hmid hrun]
        exact ⟨htype.drop hbehind, by simp⟩
      | some q =>
        obtain ⟨word, rest⟩ := q
        rw [typePart_endian hmid hrun]
        have hword : word ++ rest <:+ mid := run_append hrun ▸ skip_suffix mid
        have hrest : rest <:+ mid := (List.suffix_append word rest).trans hword
        refine ⟨htype.drop (hrest.trans hbehind), ?_⟩
        rintro _ _ ⟨rfl, rfl⟩
        exact hword.trans (hbehind.trans htype.suffix)
    · rw [typePart_type fun rest hrest => hmark ⟨rest, hrest⟩]
      exact ⟨htype, by simp⟩
  · rw [typePart_absent fun rest hrest => hcomma ⟨rest, hrest⟩]
    exact ⟨.refl cs, by simp⟩

/-- The parts of a field lie in the text. -/
structure FieldTree.Within (tree : FieldTree) (cs : List Char) : Prop where
  start : tree.start <:+ cs
  rest : tree.rest <:+ tree.start
  endian : ∀ {word rest}, tree.endian = some (word, rest) → word ++ rest <:+ cs
  width : ∀ digits ∈ tree.width.elim [] WidthTree.numbers, digits <:+: cs
  type : ∀ digits ∈ tree.type.elim [] TypeTree.numbers, digits <:+: cs

theorem FieldTree.Within.mono {tree : FieldTree} (h : tree.Within cs) {text : List Char}
    (hcs : cs <:+ text) : tree.Within text :=
  ⟨h.start.trans hcs, h.rest, fun he => (h.endian he).trans hcs,
    fun digits hd => (h.width digits hd).trans hcs.isInfix,
    fun digits hd => (h.type digits hd).trans hcs.isInfix⟩

theorem fieldTree_within {tree : FieldTree} (h : fieldTree cs = some (tree, rest)) :
    rest <:+ cs ∧ tree.Within cs := by
  obtain ⟨id, mid, inner, hid, hopen, hclose, rfl⟩ := fieldTree_eq_some.mp h
  have hinner : inner <:+ cs := (suffix_of_skip hopen).trans (identifier_munch hid).suffix
  have hwidth := (widthBehind_leaves inner).within hinner
  have hpart : skip (widthBehind inner).2 <:+ cs := (skip_suffix _).trans hwidth.suffix
  obtain ⟨htype, hendian⟩ := typePart_leaves (skip (widthBehind inner).2)
  have hrest : rest <:+ cs := (suffix_of_skip hclose).trans (htype.suffix.trans hpart)
  exact ⟨hrest, List.suffix_rfl, hrest, fun he => (hendian he).trans hpart, hwidth.written,
    (htype.within hpart).written⟩

theorem fieldTrees_within (n : Nat) (cs : List Char) :
    (fieldTrees n cs).2 <:+ cs ∧ ∀ tree ∈ (fieldTrees n cs).1, tree.Within cs := by
  induction n generalizing cs with
  | zero => exact ⟨List.suffix_rfl, by simp [fieldTrees]⟩
  | succ n ih =>
    simp only [fieldTrees]
    split
    · rename_i tree rest hfield
      obtain ⟨hrest, htree⟩ := fieldTree_within hfield
      obtain ⟨hlast, htrees⟩ := ih rest
      have hskip := skip_suffix cs
      refine ⟨hlast.trans (hrest.trans hskip), fun t ht => ?_⟩
      rcases List.mem_cons.mp ht with rfl | ht
      · exact htree.mono hskip
      · exact (htrees t ht).mono (hrest.trans hskip)
    · exact ⟨List.suffix_rfl, by simp⟩

/-- The name of a record is an identifier. -/
theorem identifier_of_recordName {q : String × List Char} (h : recordName cs = some q) :
    identifier cs = some q := by
  unfold recordName at h
  split at h
  · rename_i hid
    split at h
    · simp at h
    · rw [hid]
      exact h
  · simp at h

theorem attempt_recordName_suffix (cs : List Char) :
    (attempt recordName (skip cs)).2 <:+ cs := by
  unfold attempt
  cases hname : recordName (skip cs) with
  | none => exact skip_suffix cs
  | some q =>
    exact (identifier_munch (identifier_of_recordName hname)).suffix.trans (skip_suffix cs)

/-- The fields that are read, and what is left behind them, lie in the text. -/
theorem Head.read_within (cs : List Char) :
    (Head.read cs).rest <:+ cs ∧ ∀ tree ∈ (Head.read cs).fields, tree.Within cs := by
  have hname := attempt_recordName_suffix cs
  obtain ⟨hrest, htrees⟩ := fieldTrees_within cs.length (attempt recordName (skip cs)).2
  exact ⟨hrest.trans hname, fun tree ht => (htrees tree ht).mono hname⟩

end WireRecords.Directive
