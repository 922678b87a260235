import WireRecords.Proofs.Directive.Grammar
import WireRecords.Proofs.Sequencing

/-!
# What the readers of directives do

The readers of widths, types and fields in equations, and what it takes for their results to
resolve. The readers of operands behind a first operand are two cases of one `chain`.
-/
namespace WireRecords.Directive

/-! ### Operators -/

theorem productOperator_eq_some {c : Char} {op : Operator} (h : productOperator c = some op) :
    c = op.mark ∧ (op = .mul ∨ op = .div ∨ op = .rem) := by
  unfold productOperator at h
  split at h
  · obtain rfl := Option.some.inj h
    simp [Operator.mark]
  · obtain rfl := Option.some.inj h
    simp [Operator.mark]
  · obtain rfl := Option.some.inj h
    simp [Operator.mark]
  · simp at h

theorem sumOperator_eq_some {c : Char} {op : Operator} (h : sumOperator c = some op) :
    c = op.mark ∧ (op = .add ∨ op = .sub) := by
  unfold sumOperator at h
  split at h
  · obtain rfl := Option.some.inj h
    simp [Operator.mark]
  · obtain rfl := Option.some.inj h
    simp [Operator.mark]
  · simp at h

theorem Operator.mark_mem (op : Operator) : op.mark ∈ marks := by
  cases op <;> simp [Operator.mark, marks]

/-- One round of reading operands behind `lhs`: the next operand joins it, and `next` goes on. -/
def chain (operator : Char → Option Operator)
    (operand : List Char → Option (WidthTree × List Char))
    (next : WidthTree → List Char → Option (WidthTree × List Char)) (lhs : WidthTree)
    (cs : List Char) : Option (WidthTree × List Char) :=
  match skip cs with
  | c :: rest =>
    match operator c with
    | some op =>
      match operand (skip rest) with
      | some (rhs, rest) => next (.binary op lhs rhs) rest
      | none => some (lhs, cs)
    | none => some (lhs, cs)
  | [] => some (lhs, cs)

theorem widthFactors_succ (n : Nat) (lhs : WidthTree) (cs : List Char) :
    widthFactors (n + 1) lhs cs =
      chain productOperator (widthAtom n) (widthFactors n) lhs cs := by
  unfold widthFactors chain
  rfl

theorem widthTerms_succ (n : Nat) (lhs : WidthTree) (cs : List Char) :
    widthTerms (n + 1) lhs cs = chain sumOperator (widthProduct n) (widthTerms n) lhs cs := by
  unfold widthTerms chain
  rfl

/-! ### Resolving -/

theorem word_eq_ok {digits : List Char} {n : Nat} :
    word digits = .ok n ↔ numberValue digits = n ∧ n < wordCount := by
  simp only [word]
  split
  · rename_i h
    simp only [Except.ok.injEq]
    constructor
    · rintro rfl
      exact ⟨rfl, h⟩
    · exact fun hn => hn.1
  · rename_i h
    simp only [reduceCtorEq, false_iff, not_and]
    rintro rfl
    exact h

theorem WidthTree.resolve_number {digits : List Char} {w : Width} :
    (WidthTree.number digits).resolve = .ok w ↔
      ∃ n, numberValue digits = n ∧ n < wordCount ∧ w = .literal n := by
  simp only [resolve, bind, Except.bind, pure, Except.pure]
  cases hword : word digits with
  | error e =>
    simp only [reduceCtorEq, false_iff]
    rintro ⟨n, hn, hlt, _⟩
    rw [word_eq_ok.mpr ⟨hn, hlt⟩] at hword
    simp at hword
  | ok n =>
    obtain ⟨hn, hlt⟩ := word_eq_ok.mp hword
    simp only [Except.ok.injEq]
    constructor
    · rintro rfl
      exact ⟨n, hn, hlt, rfl⟩
    · rintro ⟨m, rfl, _, rfl⟩
      rw [hn]

theorem WidthTree.resolve_binary {op : Operator} {l r : WidthTree} {w : Width} :
    (WidthTree.binary op l r).resolve = .ok w ↔
      ∃ a b, l.resolve = .ok a ∧ r.resolve = .ok b ∧ w = .binary op a b := by
  simp only [resolve, bind, Except.bind, pure, Except.pure]
  cases hl : l.resolve with
  | error e => simp
  | ok a =>
    cases hr : r.resolve with
    | error e => simp
    | ok b =>
      simp only [Except.ok.injEq]
      constructor
      · rintro rfl
        exact ⟨a, b, rfl, rfl, rfl⟩
      · rintro ⟨a', b', rfl, rfl, rfl⟩
        rfl

theorem TypeTree.resolve_slice {tree : TypeTree} {t : TypeExpr} :
    (TypeTree.slice tree).resolve = .ok t ↔ ∃ e, tree.resolve = .ok e ∧ t = .slice e := by
  simp only [resolve, bind, Except.bind, pure, Except.pure]
  cases tree.resolve with
  | error e => simp
  | ok e =>
    simp only [Except.ok.injEq, exists_eq_left']
    exact eq_comm

theorem TypeTree.resolve_pointer {tree : TypeTree} {t : TypeExpr} :
    (TypeTree.pointer tree).resolve = .ok t ↔ ∃ e, tree.resolve = .ok e ∧ t = .pointer e := by
  simp only [resolve, bind, Except.bind, pure, Except.pure]
  cases tree.resolve with
  | error e => simp
  | ok e =>
    simp only [Except.ok.injEq, exists_eq_left']
    exact eq_comm

theorem TypeTree.resolve_array {digits : List Char} {tree : TypeTree} {t : TypeExpr} :
    (TypeTree.array digits tree).resolve = .ok t ↔
      ∃ n e, numberValue digits = n ∧ n < wordCount ∧ tree.resolve = .ok e ∧ t = .array n e := by
  simp only [resolve, bind, Except.bind, pure, Except.pure]
  cases hword : word digits with
  | error e =>
    simp only [reduceCtorEq, false_iff]
    rintro ⟨n, e, hn, hlt, _⟩
    rw [word_eq_ok.mpr ⟨hn, hlt⟩] at hword
    simp at hword
  | ok n =>
    obtain ⟨hn, hlt⟩ := word_eq_ok.mp hword
    cases tree.resolve with
    | error e => simp
    | ok e =>
      simp only [Except.ok.injEq]
      constructor
      · rintro rfl
        exact ⟨n, e, hn, hlt, rfl, rfl⟩
      · rintro ⟨m, e', rfl, _, rfl, rfl⟩
        rw [hn]

/-! ### Parts of fields -/

/-- The type behind the comma before `cs`. -/
def typeBehind (cs : List Char) : Option TypeTree × List Char :=
  attempt (typeTree (depthBound cs)) (skip cs)

theorem typePart_absent {cs : List Char} (h : ∀ rest, cs ≠ ',' :: rest) :
    typePart cs = (none, none, cs) := by
  unfold typePart
  split
  · exact absurd rfl (h _)
  · rfl

theorem typePart_type {cs : List Char} (h : ∀ rest, skip (typeBehind cs).2 ≠ ',' :: rest) :
    typePart (',' :: cs) = ((typeBehind cs).1, none, (typeBehind cs).2) := by
  unfold typePart
  simp only
  split
  · rename_i heq
    exact absurd heq (h _)
  · rfl

theorem typePart_bare {cs mid : List Char} (h : skip (typeBehind cs).2 = ',' :: mid)
    (hrun : run isAlphanumeric (skip mid) = none) :
    typePart (',' :: cs) = ((typeBehind cs).1, none, mid) := by
  unfold typeBehind at h ⊢
  simp only [typePart, h, hrun]

theorem typePart_endian {cs mid word rest : List Char} (h : skip (typeBehind cs).2 = ',' :: mid)
    (hrun : run isAlphanumeric (skip mid) = some (word, rest)) :
    typePart (',' :: cs) = ((typeBehind cs).1, some (word, rest), rest) := by
  unfold typeBehind at h ⊢
  simp only [typePart, h, hrun]

theorem resolve_field_eq_ok {p : Place} {tree : FieldTree} {f : FieldSyntax} :
    tree.resolve p = .ok f ↔ f.span = p.span tree.start tree.rest ∧ f.id = tree.id ∧
      tree.width.mapM WidthTree.resolve = .ok f.width ∧
      tree.type.mapM TypeTree.resolve = .ok f.type ∧
      resolveEndian p tree.endian = .ok f.endian ∧ (f.width.isSome ∨ f.type.isSome) := by
  simp only [FieldTree.resolve, bind, Except.bind]
  cases hw : tree.width.mapM WidthTree.resolve with
  | error e => simp
  | ok width =>
    cases ht : tree.type.mapM TypeTree.resolve with
    | error e => simp
    | ok type =>
      cases he : resolveEndian p tree.endian with
      | error e => simp
      | ok endian =>
        obtain ⟨span, id, width', type', endian'⟩ := f
        simp only [Except.ok.injEq]
        by_cases hgiven : width.isSome = true ∨ type.isSome = true
        · have hif : (width.isNone && type.isNone) = false := by
            cases width <;> cases type <;> simp_all
          simp only [hif, Bool.false_eq_true, if_false, Except.ok.injEq, FieldSyntax.mk.injEq]
          constructor
          · rintro ⟨rfl, rfl, rfl, rfl, rfl⟩
            exact ⟨rfl, rfl, rfl, rfl, rfl, hgiven⟩
          · rintro ⟨rfl, rfl, rfl, rfl, rfl, _⟩
            exact ⟨rfl, rfl, rfl, rfl, rfl⟩
        · have hif : (width.isNone && type.isNone) = true := by
            cases width <;> cases type <;> simp_all
          simp only [hif, if_true, reduceCtorEq, false_iff]
          rintro ⟨_, _, rfl, rfl, _, h⟩
          exact hgiven h

/-- The width behind the bracket before `cs`. -/
def widthBehind (cs : List Char) : Option WidthTree × List Char :=
  attempt (widthSum (depthBound cs)) (skip cs)

theorem fieldTree_eq_some {cs rest : List Char} {tree : FieldTree} :
    fieldTree cs = some (tree, rest) ↔ ∃ id mid inner, identifier cs = some (id, mid) ∧
      skip mid = '[' :: inner ∧
      skip (typePart (skip (widthBehind inner).2)).2.2 = ']' :: rest ∧
      tree = ⟨cs, rest, id, (widthBehind inner).1, (typePart (skip (widthBehind inner).2)).1,
        (typePart (skip (widthBehind inner).2)).2.1⟩ := by
  constructor
  · intro h
    unfold fieldTree at h
    split at h
    · rename_i id mid hid
      split at h
      · rename_i inner hopen
        simp only at h
        split at h
        · rename_i after hclose
          simp only [Option.some.injEq, Prod.mk.injEq] at h
          obtain ⟨rfl, rfl⟩ := h
          exact ⟨id, mid, inner, hid, hopen, hclose, rfl⟩
        · simp at h
      · simp at h
    · simp at h
  · rintro ⟨id, mid, inner, hid, hopen, hclose, rfl⟩
    unfold widthBehind at hclose ⊢
    simp only [fieldTree, hid, hopen, hclose]

theorem Head.resolve_eq_ok {p : Place} {h : Head} {d : Directive} :
    h.resolve p = .ok d ↔ d.span = p.span p.text [] ∧ d.id = h.id.getD anonymous ∧
      h.fields.mapM (FieldTree.resolve p) = .ok d.fields := by
  simp only [Head.resolve, bind, Except.bind, pure, Except.pure]
  cases h.fields.mapM (FieldTree.resolve p) with
  | error e => simp
  | ok fields =>
    obtain ⟨span, id, fields'⟩ := d
    simp only [Except.ok.injEq, Directive.mk.injEq]
    constructor
    · rintro ⟨rfl, rfl, rfl⟩
      exact ⟨rfl, rfl, rfl⟩
    · rintro ⟨rfl, rfl, rfl⟩
      exact ⟨rfl, rfl, rfl⟩

end WireRecords.Directive
