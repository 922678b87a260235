import WireRecords.Proofs.Directive.Complete

/-!
# Exactly the grammar is accepted

Each reader, where it succeeds and its numbers and byte orders are good, has read the tokens of what
it returns. With what `Complete` shows, a text is accepted if and only if it writes a directive.
-/
namespace WireRecords.Directive

/-! ### Single tokens -/

theorem Munch.reads {cs rest : List Char} {t : Token} (h : Munch cs t rest) :
    Reads cs [t] rest := by
  refine .cons ?_ .nil
  rw [h.skip_eq]
  exact h

theorem reads_mark {c : Char} {cs rest : List Char} (hc : c ∈ marks) (h : skip cs = c :: rest) :
    Reads cs [.mark c] rest := by
  refine .cons ?_ .nil
  rw [h]
  exact mark_munch hc rest

/-! ### Widths -/

/-- The reader has read what it returns. -/
def OperandSound (k : Rank) (operand : List Char → Option (WidthTree × List Char)) : Prop :=
  ∀ ⦃cs tree rest w⦄, operand cs = some (tree, rest) → tree.resolve = .ok w →
    ∃ ts, Reads cs ts rest ∧ WidthForm k ts w

/-- The reader has read what makes its first operand the width it returns. -/
def ChainSound (k : Rank)
    (next : WidthTree → List Char → Option (WidthTree × List Char)) : Prop :=
  ∀ ⦃lhs cs tree rest w⦄, next lhs cs = some (tree, rest) → tree.resolve = .ok w →
    ∃ v ts, lhs.resolve = .ok v ∧ Reads cs ts rest ∧
      ∀ us, WidthForm k us v → WidthForm k (us ++ ts) w

theorem chain_sound {low high : Rank} {operator : Char → Option Operator}
    {operand : List Char → Option (WidthTree × List Char)}
    {next : WidthTree → List Char → Option (WidthTree × List Char)}
    (hmark : ∀ {c op}, operator c = some op → c = op.mark)
    (hjoin : ∀ {c op ts us lhs rhs}, operator c = some op → WidthForm high ts lhs →
      WidthForm low us rhs → WidthForm high (ts ++ .mark op.mark :: us) (.binary op lhs rhs))
    (hoperand : OperandSound low operand) (hnext : ChainSound high next) :
    ChainSound high (chain operator operand next) := by
  intro lhs cs tree rest w h hw
  -- Where no operand follows, nothing is read.
  have hstop : some (lhs, cs) = some (tree, rest) → ∃ v ts, lhs.resolve = .ok v ∧
      Reads cs ts rest ∧ ∀ us, WidthForm high us v → WidthForm high (us ++ ts) w := by
    intro heq
    simp only [Option.some.injEq, Prod.mk.injEq] at heq
    obtain ⟨rfl, rfl⟩ := heq
    exact ⟨w, [], hw, .nil, by simp⟩
  unfold chain at h
  split at h
  · rename_i c inner hc
    split at h
    · rename_i op hop
      split at h
      · rename_i rhs mid hrhs
        obtain ⟨v, us, hv, hus, hform⟩ := hnext h hw
        obtain ⟨a, b, ha, hb, rfl⟩ := WidthTree.resolve_binary.mp hv
        obtain ⟨ts, hts, hlow⟩ := hoperand hrhs hb
        obtain rfl := hmark hop
        have hinner := (hts.of_skip (skip_skip inner) hlow.ne_nil).append hus
        refine ⟨a, .mark op.mark :: (ts ++ us), ha,
          (reads_mark (Operator.mark_mem op) hc).append hinner, fun ls hls => ?_⟩
        simpa using hform _ (hjoin hop hls hlow)
      · exact hstop h
    · exact hstop h
  · exact hstop h

/-- The readers of widths with at most `n` levels have read what they return. -/
structure WidthSound (n : Nat) : Prop where
  atom : OperandSound .atom (widthAtom n)
  product : OperandSound .product (widthProduct n)
  factors : ChainSound .product (widthFactors n)
  sum : OperandSound .sum (widthSum n)
  terms : ChainSound .sum (widthTerms n)

theorem widthAtom_sound {n : Nat} (hsum : OperandSound .sum (widthSum n)) :
    OperandSound .atom (widthAtom (n + 1)) := by
  intro cs tree rest w h hw
  simp only [widthAtom] at h
  split at h
  · rename_i digits rest' hnumber
    simp only [Option.some.injEq, Prod.mk.injEq] at h
    obtain ⟨rfl, rfl⟩ := h
    obtain ⟨n, rfl, hlt, rfl⟩ := WidthTree.resolve_number.mp hw
    exact ⟨_, (number_munch hnumber).reads, .literal hlt⟩
  · split at h
    · rename_i id rest' hid
      simp only [Option.some.injEq, Prod.mk.injEq] at h
      obtain ⟨rfl, rfl⟩ := h
      obtain rfl : Width.field id = w := by simpa [WidthTree.resolve] using hw
      exact ⟨_, (identifier_munch hid).reads, .field id⟩
    · split at h
      · rename_i inner _ _
        split at h
        · rename_i sum mid hinner
          split at h
          · rename_i after hclose
            simp only [Option.some.injEq, Prod.mk.injEq] at h
            obtain ⟨rfl, rfl⟩ := h
            obtain ⟨ts, hreads, hform⟩ := hsum hinner hw
            have hopen : Reads ('(' :: inner) [.mark '('] inner :=
              (mark_munch (by simp [marks]) inner).reads
            have hbetween : Reads inner ts mid := hreads.of_skip (skip_skip inner) hform.ne_nil
            exact ⟨_, hopen.append (hbetween.append (reads_mark (by simp [marks]) hclose)),
              .parentheses hform⟩
          · simp at h
        · simp at h
      · simp at h

/-- A first operand and what follows it. -/
theorem operand_sound {low high : Rank} {operand : List Char → Option (WidthTree × List Char)}
    {next : WidthTree → List Char → Option (WidthTree × List Char)}
    (hlift : ∀ {ts w}, WidthForm low ts w → WidthForm high ts w)
    (hoperand : OperandSound low operand) (hnext : ChainSound high next) {cs rest : List Char}
    {tree : WidthTree} {w : Width}
    (h : ∃ first mid, operand cs = some (first, mid) ∧ next first mid = some (tree, rest))
    (hw : tree.resolve = .ok w) : ∃ ts, Reads cs ts rest ∧ WidthForm high ts w := by
  obtain ⟨first, mid, hfirst, hmore⟩ := h
  obtain ⟨v, us, hv, hus, hform⟩ := hnext hmore hw
  obtain ⟨ts, hts, hlow⟩ := hoperand hfirst hv
  exact ⟨ts ++ us, hts.append hus, hform ts (hlift hlow)⟩

theorem widthSound (n : Nat) : WidthSound n := by
  induction n with
  | zero =>
    refine ⟨?_, ?_, ?_, ?_, ?_⟩
    · intro cs tree rest w h
      simp [widthAtom] at h
    · intro cs tree rest w h
      simp [widthProduct] at h
    · intro lhs cs tree rest w h
      simp [widthFactors] at h
    · intro cs tree rest w h
      simp [widthSum] at h
    · intro lhs cs tree rest w h
      simp [widthTerms] at h
  | succ n ih =>
    refine ⟨widthAtom_sound ih.sum, ?_, ?_, ?_, ?_⟩
    · intro cs tree rest w h hw
      simp only [widthProduct] at h
      split at h
      · exact operand_sound .ofAtom ih.atom ih.factors ⟨_, _, by assumption, h⟩ hw
      · simp at h
    · intro lhs cs tree rest w h
      rw [widthFactors_succ] at h
      exact chain_sound (fun hop => (productOperator_eq_some hop).1)
        (fun hop => .factor (productOperator_eq_some hop).2) ih.atom ih.factors h
    · intro cs tree rest w h hw
      simp only [widthSum] at h
      split at h
      · exact operand_sound .ofProduct ih.product ih.terms ⟨_, _, by assumption, h⟩ hw
      · simp at h
    · intro lhs cs tree rest w h
      rw [widthTerms_succ] at h
      exact chain_sound (fun hop => (sumOperator_eq_some hop).1)
        (fun hop => .term (sumOperator_eq_some hop).2) ih.product ih.terms h

/-! ### Types -/

theorem pathSeparator_eq_some {cs rest : List Char} (h : pathSeparator (skip cs) = some rest) :
    ∃ separator, (separator = .mark '.' ∨ separator = .scope) ∧ Reads cs [separator] rest := by
  unfold pathSeparator at h
  split at h
  · rename_i tail hcs
    obtain rfl := Option.some.inj h
    refine ⟨.scope, Or.inr rfl, .cons ?_ .nil⟩
    rw [hcs]
    exact scope_munch tail
  · rename_i tail hcs
    obtain rfl := Option.some.inj h
    exact ⟨.mark '.', Or.inl rfl, reads_mark (by simp [marks]) hcs⟩
  · simp at h

/-- What the reader of further segments has read makes a longer path of any first segment. -/
def SegmentsSound (cs : List Char) (ids : List String) (rest : List Char) : Prop :=
  ∃ ts, Reads cs ts rest ∧ ∀ id, PathForm (.name id :: ts) (id :: ids)

theorem segmentsSound_nil (cs : List Char) : SegmentsSound cs [] cs := ⟨[], .nil, .single⟩

theorem pathSegments_sound (n : Nat) (cs : List Char) :
    SegmentsSound cs (pathSegments n cs).1 (pathSegments n cs).2 := by
  induction n generalizing cs with
  | zero => exact segmentsSound_nil cs
  | succ n ih =>
    simp only [pathSegments]
    split
    · rename_i mid hseparator
      split
      · rename_i id after hid
        obtain ⟨separator, hkind, hread⟩ := pathSeparator_eq_some hseparator
        obtain ⟨ts, hts, hform⟩ := ih after
        have hname : Reads mid [.name id] after := .cons (identifier_munch hid) .nil
        exact ⟨separator :: .name id :: ts, hread.append (hname.append hts), fun first =>
          .segment first hkind (hform id)⟩
      · exact segmentsSound_nil cs
    · exact segmentsSound_nil cs

theorem typeTree_sound {n : Nat} {cs rest : List Char} {tree : TypeTree} {t : TypeExpr}
    (h : typeTree n cs = some (tree, rest)) (ht : tree.resolve = .ok t) :
    ∃ ts, Reads cs ts rest ∧ TypeForm ts t := by
  induction n generalizing cs tree rest t with
  | zero => simp [typeTree] at h
  | succ n ih =>
    simp only [typeTree] at h
    split at h
    · rename_i inner
      have hopen : Reads ('[' :: inner) [.mark '['] inner :=
        (mark_munch (by simp [marks]) inner).reads
      split at h
      · rename_i after hclose
        obtain ⟨⟨element, rest'⟩, helement, heq⟩ := Option.map_eq_some_iff.mp h
        simp only [Prod.mk.injEq] at heq
        obtain ⟨rfl, rfl⟩ := heq
        obtain ⟨e, he, rfl⟩ := TypeTree.resolve_slice.mp ht
        obtain ⟨ts, hts, hform⟩ := ih helement he
        have hclosed := reads_mark (by simp [marks]) hclose
        exact ⟨_, hopen.append (hclosed.append (hts.of_skip (skip_skip after) hform.ne_nil)),
          .slice hform⟩
      · split at h
        · rename_i digits mid hnumber
          split at h
          · rename_i after hclose
            obtain ⟨⟨element, rest'⟩, helement, heq⟩ := Option.map_eq_some_iff.mp h
            simp only [Prod.mk.injEq] at heq
            obtain ⟨rfl, rfl⟩ := heq
            obtain ⟨m, e, rfl, hlt, he, rfl⟩ := TypeTree.resolve_array.mp ht
            obtain ⟨ts, hts, hform⟩ := ih helement he
            have hlength : Reads inner [.number (numberValue digits)] mid :=
              .cons (number_munch hnumber) .nil
            have hclosed := reads_mark (by simp [marks]) hclose
            exact ⟨_, hopen.append (hlength.append (hclosed.append
              (hts.of_skip (skip_skip after) hform.ne_nil))), .array hlt hform⟩
          · simp at h
        · simp at h
    · rename_i inner
      obtain ⟨⟨target, rest'⟩, htarget, heq⟩ := Option.map_eq_some_iff.mp h
      simp only [Prod.mk.injEq] at heq
      obtain ⟨rfl, rfl⟩ := heq
      obtain ⟨e, he, rfl⟩ := TypeTree.resolve_pointer.mp ht
      obtain ⟨ts, hts, hform⟩ := ih htarget he
      have hstar : Reads ('*' :: inner) [.mark '*'] inner :=
        (mark_munch (by simp [marks]) inner).reads
      exact ⟨_, hstar.append (hts.of_skip (skip_skip inner) hform.ne_nil), .pointer hform⟩
    · obtain ⟨⟨value, rest'⟩, htext, heq⟩ := Option.map_eq_some_iff.mp h
      simp only [Prod.mk.injEq] at heq
      obtain ⟨rfl, rfl⟩ := heq
      obtain rfl : TypeExpr.constant value = t := by simpa [TypeTree.resolve] using ht
      exact ⟨_, (quotedText_munch htext).reads, .constant value⟩
    · split at h
      · rename_i id after hid
        simp only [Option.some.injEq, Prod.mk.injEq] at h
        obtain ⟨rfl, rfl⟩ := h
        obtain rfl : TypeExpr.named _ = t := by simpa [TypeTree.resolve] using ht
        obtain ⟨ts, hts, hform⟩ := pathSegments_sound n after
        exact ⟨_, (identifier_munch hid).reads.append hts, .named (hform id)⟩
      · simp at h

/-! ### Fields -/

/-- An optional part has been read, or is not there; what is read next comes right behind it. -/
theorem attempt_sound {α β : Type} {read : List Char → Option (α × List Char)}
    {resolve : α → Except SyntaxError β} {form : List Token → β → Prop}
    (hread : ∀ {cs a rest b}, read cs = some (a, rest) → resolve a = .ok b →
      ∃ ts, Reads cs ts rest ∧ form ts b)
    (hne : ∀ {ts b}, form ts b → ts ≠ []) {cs : List Char} {ob : Option β}
    (h : (attempt read (skip cs)).1.mapM resolve = .ok ob) :
    ∃ ts, Optional form ts ob ∧ ∀ {us after}, us ≠ [] →
      Reads (attempt read (skip cs)).2 us after → Reads cs (ts ++ us) after := by
  unfold attempt at h ⊢
  cases hcs : read (skip cs) with
  | none =>
    simp only [hcs] at h ⊢
    rcases option_mapM_eq_ok.mp h with ⟨_, rfl⟩ | ⟨a, b, ha, _⟩
    · exact ⟨[], .absent, fun hus hreads => hreads.of_skip (skip_skip cs) hus⟩
    · simp at ha
  | some q =>
    obtain ⟨a, rest⟩ := q
    simp only [hcs] at h ⊢
    rcases option_mapM_eq_ok.mp h with ⟨ha, _⟩ | ⟨a', b, ha, hb, rfl⟩
    · simp at ha
    · obtain rfl := Option.some.inj ha
      obtain ⟨ts, hts, hform⟩ := hread hcs hb
      exact ⟨ts, .present hform, fun _ hreads =>
        (hts.of_skip (skip_skip cs) (hne hform)).append hreads⟩

/-- A good byte order is a name. -/
theorem endian_sound {p : Place} {cs word rest : List Char} {e : Endian}
    (h : run isAlphanumeric (skip cs) = some (word, rest))
    (he : resolveEndian p (some (word, rest)) = .ok e) :
    ∃ us, EndianForm us e ∧ Reads cs us rest := by
  obtain ⟨hword, rfl, _⟩ := run_eq_some.mp h
  -- Both marks start with a letter, so the word is an identifier.
  have hname : ∀ c w, word = c :: w → isAlpha c = true →
      Reads cs [.name (String.ofList word)] ((skip cs).dropWhile isAlphanumeric) := by
    rintro c w rfl hc
    refine .cons (identifier_munch ?_) .nil
    cases hcs : skip cs with
    | nil => simp [hcs] at hword
    | cons d tail =>
      have halnum : isAlphanumeric c = true := by simp [isAlphanumeric, hc]
      rw [hcs, List.takeWhile_cons] at hword
      split at hword
      · simp only [List.cons.injEq] at hword
        obtain ⟨rfl, rfl⟩ := hword
        simp [identifier, hc, halnum]
      · simp at hword
  simp only [resolveEndian, Endian.ofMark?] at he
  by_cases hl : String.ofList word = "LE"
  · obtain rfl : Endian.little = e := by simpa [hl] using he
    have hw : word = ['L', 'E'] := by simpa using congrArg String.toList hl
    exact ⟨_, .little, hl ▸ hname 'L' ['E'] hw (by decide)⟩
  · by_cases hb : String.ofList word = "BE"
    · obtain rfl : Endian.big = e := by simpa [hl, hb] using he
      have hw : word = ['B', 'E'] := by simpa using congrArg String.toList hb
      exact ⟨_, .big, hb ▸ hname 'B' ['E'] hw (by decide)⟩
    · simp [hl, hb] at he

/-- Type and byte order have been read where the bracket behind them closes. -/
theorem typePart_sound {p : Place} {cs after : List Char} {type : Option TypeExpr} {e : Endian}
    (htype : (typePart (skip cs)).1.mapM TypeTree.resolve = .ok type)
    (hendian : resolveEndian p (typePart (skip cs)).2.1 = .ok e)
    (hclose : skip (typePart (skip cs)).2.2 = ']' :: after) :
    ∃ us, TailForm us type e ∧ Reads cs (us ++ [.mark ']']) after := by
  have hbracket : ∀ {rest}, skip rest = ']' :: after → Reads rest [.mark ']'] after :=
    reads_mark (by simp [marks])
  by_cases hcomma : ∃ inner, skip cs = ',' :: inner
  · obtain ⟨inner, hcomma⟩ := hcomma
    have hfirst : Reads cs [.mark ','] inner := reads_mark (by simp [marks]) hcomma
    rw [hcomma] at htype hendian hclose
    have hsound : ∀ {type}, (typeBehind inner).1.mapM TypeTree.resolve = .ok type →
        ∃ ts, Optional TypeForm ts type ∧ ∀ {us after}, us ≠ [] →
          Reads (typeBehind inner).2 us after → Reads inner (ts ++ us) after :=
      fun h => attempt_sound typeTree_sound TypeForm.ne_nil h
    by_cases hsecond : ∃ mid, skip (typeBehind inner).2 = ',' :: mid
    · obtain ⟨mid, hsecond⟩ := hsecond
      have hnext : Reads (typeBehind inner).2 [.mark ','] mid :=
        reads_mark (by simp [marks]) hsecond
      cases hrun : run isAlphanumeric (skip mid) with
      | none =>
        rw [typePart_bare hsecond hrun] at htype hendian hclose
        obtain rfl := Except.ok.inj hendian
        obtain ⟨ts, hform, hreads⟩ := hsound htype
        refine ⟨_, .endian hform .absent, ?_⟩
        simpa using hfirst.append (hreads (by simp) (hnext.append (hbracket hclose)))
      | some q =>
        obtain ⟨word, rest⟩ := q
        rw [typePart_endian hsecond hrun] at htype hendian hclose
        obtain ⟨us, horder, hus⟩ := endian_sound hrun hendian
        obtain ⟨ts, hform, hreads⟩ := hsound htype
        refine ⟨_, .endian hform horder, ?_⟩
        simpa using hfirst.append
          (hreads (by simp) (hnext.append (hus.append (hbracket hclose))))
    · rw [typePart_type fun rest heq => hsecond ⟨rest, heq⟩] at htype hendian hclose
      obtain rfl := Except.ok.inj hendian
      obtain ⟨ts, hform, hreads⟩ := hsound htype
      refine ⟨_, .type hform, ?_⟩
      simpa using hfirst.append (hreads (by simp) (hbracket hclose))
  · rw [typePart_absent fun rest heq => hcomma ⟨rest, heq⟩] at htype hendian hclose
    obtain rfl : none = type := by simpa [pure, Except.pure] using htype
    obtain rfl := Except.ok.inj hendian
    rw [skip_skip] at hclose
    exact ⟨[], .absent, hbracket hclose⟩

theorem fieldTree_sound {p : Place} {cs rest : List Char} {tree : FieldTree} {f : FieldSyntax}
    (h : fieldTree cs = some (tree, rest)) (hf : tree.resolve p = .ok f) :
    ∃ ts, Reads cs ts rest ∧ FieldForm ts f := by
  obtain ⟨id, mid, inner, hid, hopen, hclose, rfl⟩ := fieldTree_eq_some.mp h
  obtain ⟨_, hname, hwidth, htype, hendian, hgiven⟩ := resolve_field_eq_ok.mp hf
  obtain ⟨us, htail, hus⟩ := typePart_sound htype hendian hclose
  obtain ⟨ws, hform, hws⟩ := attempt_sound
    (fun hread hw => (widthSound _).sum hread hw) WidthForm.ne_nil hwidth
  refine ⟨_, ?_, .intro hform htail hgiven⟩
  have hbracket : Reads mid [.mark '['] inner := reads_mark (by simp [marks]) hopen
  rw [hname]
  exact (identifier_munch hid).reads.append (hbracket.append (hws (by simp) hus))

theorem fieldTrees_sound {p : Place} {n : Nat} {cs : List Char} {fields : List FieldSyntax}
    (h : (fieldTrees n cs).1.mapM (FieldTree.resolve p) = .ok fields) :
    ∃ ts, Reads cs ts (fieldTrees n cs).2 ∧ FieldsForm ts fields := by
  -- Where no field follows, nothing is read.
  have hstop : ∀ {cs fields}, ([] : List FieldTree).mapM (FieldTree.resolve p) = .ok fields →
      ∃ ts, Reads cs ts cs ∧ FieldsForm ts fields := by
    intro cs fields hnil
    obtain rfl : [] = fields := by simpa [pure, Except.pure] using hnil
    exact ⟨[], .nil, .nil⟩
  induction n generalizing cs fields with
  | zero => exact hstop h
  | succ n ih =>
    simp only [fieldTrees] at h ⊢
    split at h
    · rename_i tree mid htree
      obtain ⟨f, fs, hf, hfs, rfl⟩ := mapM_cons_eq_ok.mp h
      obtain ⟨ts, hts, hform⟩ := fieldTree_sound htree hf
      obtain ⟨us, hus, hforms⟩ := ih hfs
      exact ⟨ts ++ us, (hts.of_skip (skip_skip cs) hform.ne_nil).append hus, .cons hform hforms⟩
    · exact hstop h

/-! ### Directives -/

theorem recordName_sound {cs rest : List Char} {id : String}
    (h : recordName cs = some (id, rest)) : Reads cs [.name id] rest := by
  unfold recordName at h
  split at h
  · rename_i hid
    split at h
    · simp at h
    · simp only [Option.some.injEq, Prod.mk.injEq] at h
      obtain ⟨rfl, rfl⟩ := h
      exact (identifier_munch hid).reads
  · simp at h

theorem isComplete_sound {h : Head} (hc : h.isComplete = true) :
    ∃ stop last, (stop = [] ∨ stop = [.mark ';']) ∧ Reads h.rest stop last ∧ skip last = [] := by
  unfold Head.isComplete at hc
  split at hc
  · exact ⟨[], h.rest, Or.inl rfl, .nil, by assumption⟩
  · rename_i tail hsemicolon
    exact ⟨[.mark ';'], tail, Or.inr rfl, reads_mark (by simp [marks]) hsemicolon,
      by simpa using hc⟩
  · simp at hc

theorem lexes_of_skip {cs last : List Char} {ts : List Token} (h : Reads (skip cs) ts last)
    (hlast : skip last = []) : Lexes cs ts := by
  cases h with
  | nil => exact lexes_iff.mpr ⟨cs, .nil, by simpa using hlast⟩
  | cons head tail =>
    exact lexes_iff.mpr ⟨last, (Reads.cons head tail).of_skip (skip_skip cs) (by simp), hlast⟩

/-- The name of the record has been read, or is not there. -/
theorem name_sound (cs : List Char) :
    ∃ ns, NameForm ns ((attempt recordName (skip cs)).1.getD anonymous) ∧ ∀ {us last},
      Reads (attempt recordName (skip cs)).2 us last → skip last = [] → Lexes cs (ns ++ us) := by
  unfold attempt
  cases hname : recordName (skip cs) with
  | none => exact ⟨[], .absent, lexes_of_skip⟩
  | some q =>
    obtain ⟨id, rest⟩ := q
    exact ⟨_, .given id, fun hus hlast => lexes_of_skip ((recordName_sound hname).append hus) hlast⟩

/-- A text that is accepted writes the directive that is returned. -/
theorem renders_of_parse {file : Nat} {text : String} {d : Directive}
    (h : Directive.parse file text = .ok d) : Renders text d := by
  simp only [Directive.parse] at h
  split at h
  · rename_i hcomplete
    obtain ⟨_, hid, hfields⟩ := Head.resolve_eq_ok.mp h
    obtain ⟨stop, last, hstop, hreads, hlast⟩ := isComplete_sound hcomplete
    obtain ⟨fs, hfs, hforms⟩ := fieldTrees_sound hfields
    obtain ⟨ns, hname, hlexes⟩ := name_sound text.toList
    exact ⟨_, hlexes (hfs.append hreads) hlast, .intro (hid ▸ hname) hforms hstop⟩
  · simp at h

/-- The grammar does not look at where a field stands. -/
theorem FieldForm.of_content {ts : List Token} {f g : FieldSyntax} (h : FieldForm ts f)
    (hc : f.content = g.content) : FieldForm ts g := by
  obtain ⟨span, id, width, type, endian⟩ := g
  simp only [FieldSyntax.content, Prod.mk.injEq] at hc
  obtain ⟨rfl, rfl, rfl, rfl⟩ := hc
  cases h with
  | intro hwidth htail hgiven => exact @FieldForm.intro _ _ ⟨span, f.id, f.width, f.type, f.endian⟩ hwidth htail hgiven

theorem FieldsForm.of_content {ts : List Token} {fs gs : List FieldSyntax}
    (h : FieldsForm ts fs) (hc : fs.map (·.content) = gs.map (·.content)) : FieldsForm ts gs := by
  induction h generalizing gs with
  | nil =>
    obtain rfl : gs = [] := by simpa using hc.symm
    exact .nil
  | cons head tail ih =>
    cases gs with
    | nil => simp at hc
    | cons g gs =>
      simp only [List.map_cons, List.cons.injEq] at hc
      exact .cons (head.of_content hc.1) (ih hc.2)

theorem Renders.of_content {text : String} {d d' : Directive} (h : Renders text d)
    (hc : d.content = d'.content) : Renders text d' := by
  obtain ⟨ts, hlexes, hform⟩ := h
  obtain ⟨span, id, fields⟩ := d'
  simp only [content, Prod.mk.injEq] at hc
  obtain ⟨rfl, hfields⟩ := hc
  cases hform with
  | intro hname hforms hstop =>
    exact ⟨_, hlexes, .intro hname (hforms.of_content hfields) hstop⟩

/-- A text is accepted as a directive if and only if its tokens write the directive, up to where
the directive and its fields stand. -/
theorem parse_iff_renders (file : Nat) (text : String) (d : Directive) :
    (∃ d', Directive.parse file text = .ok d' ∧ d'.content = d.content) ↔ Renders text d := by
  constructor
  · rintro ⟨d', hparse, hcontent⟩
    exact (renders_of_parse hparse).of_content hcontent
  · exact parse_of_renders file

example :
    (Directive.parse 0 "Pair lo[0x10] hi [n*(2+n) ,\t[]a.b::C,BE] ;").toOption.map (·.fields.map
      (·.type)) = some [none, some (.slice (.named ["a", "b", "C"]))] := by
  decide +kernel

end WireRecords.Directive
