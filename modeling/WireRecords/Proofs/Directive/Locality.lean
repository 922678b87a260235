import WireRecords.Proofs.Directive.Complete
import WireRecords.Proofs.Directive.Extent

/-!
# Fields are read without a look behind them

The bracket that closes a field is the last character that reading the field depends on: with any
other text behind the bracket, the field is read just the same. Widths and names never pass a
closing bracket, so they are read as if the text ended there. Types may pass brackets, but not the
one that closes the field. Nor does it matter how deep the readers may go, as long as it is deep
enough for what stands before the bracket.
-/
namespace WireRecords.Directive

/-! ### Up to a closing bracket -/

theorem takeWhile_bracket {p : Char → Bool} (h : p ']' = false) (pre rest : List Char) :
    (pre ++ ']' :: rest).takeWhile p = pre.takeWhile p := by
  induction pre with
  | nil => simp [h]
  | cons c pre ih => simp [List.takeWhile_cons, ih]

theorem dropWhile_bracket {p : Char → Bool} (h : p ']' = false) (pre rest : List Char) :
    (pre ++ ']' :: rest).dropWhile p = pre.dropWhile p ++ ']' :: rest := by
  induction pre with
  | nil => simp [h]
  | cons c pre ih =>
    simp only [List.cons_append, List.dropWhile_cons, ih]
    split <;> rfl

@[simp] theorem skip_bracket (pre rest : List Char) :
    skip (pre ++ ']' :: rest) = skip pre ++ ']' :: rest :=
  dropWhile_bracket (by decide) pre rest

/-- A first character before which the bracket does not stand is one of `pre`. -/
theorem cons_of_bracket {c : Char} {pre after rest : List Char}
    (h : pre ++ ']' :: rest = c :: after) (hafter : c ≠ ']' ∨ ']' :: rest <:+ after) :
    ∃ mid, pre = c :: mid ∧ after = mid ++ ']' :: rest := by
  cases pre with
  | nil =>
    simp only [List.nil_append, List.cons.injEq] at h
    obtain ⟨rfl, rfl⟩ := h
    have hlen := (hafter.resolve_left (by simp)).length_le
    simp at hlen
  | cons d pre =>
    simp only [List.cons_append, List.cons.injEq] at h
    exact ⟨pre, by rw [h.1], h.2.symm⟩

/-- Reading `pre` with a closing bracket behind it: the outcome is the same for every text behind
the bracket and from `depth` on for every depth, and less than `bound` characters of `pre` are
left. -/
def Local {α : Type} (read : Nat → List Char → Option (α × List Char)) (depth bound : Nat)
    (pre : List Char) : Prop :=
  ∃ found : Option (α × List Char), (∀ q ∈ found, q.2.length < bound) ∧
    ∀ n rest, depth ≤ n →
      read n (pre ++ ']' :: rest) = found.map fun q => (q.1, q.2 ++ ']' :: rest)

variable {α : Type} {read read' : Nat → List Char → Option (α × List Char)}
  {depth bound : Nat} {pre : List Char}

theorem local_none (h : ∀ n rest, depth ≤ n → read n (pre ++ ']' :: rest) = none) :
    Local read depth bound pre :=
  ⟨none, by simp, h⟩

theorem local_some (a : α) (mid : List Char) (hmid : mid.length < bound)
    (h : ∀ n rest, depth ≤ n → read n (pre ++ ']' :: rest) = some (a, mid ++ ']' :: rest)) :
    Local read depth bound pre :=
  ⟨some (a, mid), by simpa using hmid, h⟩

theorem Local.mono {depth' bound' : Nat} (h : Local read depth bound pre) (hdepth : depth ≤ depth')
    (hbound : bound ≤ bound') : Local read depth' bound' pre := by
  obtain ⟨found, hlen, hfound⟩ := h
  exact ⟨found, fun q hq => (hlen q hq).trans_le hbound,
    fun n rest hn => hfound n rest (hdepth.trans hn)⟩

/-- A reader that leaves the rest to another one, one level down. -/
theorem Local.succ {pre' : List Char} (h : Local read' depth bound pre')
    (heq : ∀ n rest, depth ≤ n →
      read (n + 1) (pre ++ ']' :: rest) = read' n (pre' ++ ']' :: rest)) :
    Local read (depth + 1) bound pre := by
  obtain ⟨found, hlen, hfound⟩ := h
  refine ⟨found, hlen, fun n rest hn => ?_⟩
  obtain ⟨n, rfl⟩ : ∃ k, n = k + 1 := ⟨n - 1, by omega⟩
  rw [heq n rest (by omega), hfound n rest (by omega)]

/-- What is read before the bracket is read there with any other text behind it. -/
theorem Local.of_some {n : Nat} {a : α} {after rest : List Char} (h : Local read depth bound pre)
    (hn : depth ≤ n) (hread : read n (pre ++ ']' :: rest) = some (a, after)) :
    ∃ mid, after = mid ++ ']' :: rest ∧ mid.length < bound ∧
      ∀ m rest', depth ≤ m → read m (pre ++ ']' :: rest') = some (a, mid ++ ']' :: rest') := by
  obtain ⟨found, hlen, hfound⟩ := h
  rw [hfound n rest hn] at hread
  obtain ⟨⟨_, mid⟩, rfl, heq⟩ := Option.map_eq_some_iff.mp hread
  simp only [Prod.mk.injEq] at heq
  obtain ⟨rfl, rfl⟩ := heq
  exact ⟨mid, rfl, hlen _ rfl, hfound⟩

theorem skip_cons_length {c : Char} {inner : List Char} (h : skip pre = c :: inner) :
    (skip inner).length < pre.length := by
  have hpre := skip_length_le pre
  have hinner := skip_length_le inner
  rw [h, List.length_cons] at hpre
  omega

/-! ### Tokens -/

theorem identifier_local (pre : List Char) : Local (fun _ => identifier) 0 pre.length pre := by
  cases pre with
  | nil => exact local_none fun _ _ _ => identifier_eq_none (by decide)
  | cons c pre =>
    by_cases hc : isAlpha c = true
    · refine local_some (String.ofList (c :: pre.takeWhile isAlphanumeric))
        (pre.dropWhile isAlphanumeric)
        (Nat.lt_succ_of_le (List.dropWhile_suffix _).length_le) fun _ rest _ => ?_
      simp [identifier, hc, takeWhile_bracket (p := isAlphanumeric) (by decide),
        dropWhile_bracket (p := isAlphanumeric) (by decide)]
    · exact local_none fun _ _ _ => by simp [identifier, hc]

theorem run_local {p : Char → Bool} (h : p ']' = false) (pre : List Char) :
    Local (fun _ => run p) 0 pre.length pre := by
  cases hword : pre.takeWhile p with
  | nil => exact local_none fun _ _ _ => by simp [run, takeWhile_bracket h, hword]
  | cons c word =>
    have hsplit := congrArg List.length (List.takeWhile_append_dropWhile (p := p) (l := pre))
    simp only [hword, List.length_append, List.length_cons] at hsplit
    refine local_some (c :: word) (pre.dropWhile p) (by omega) fun _ rest _ => ?_
    simp [run, takeWhile_bracket h, dropWhile_bracket h, hword]

theorem hexNumber_local (pre : List Char) : Local (fun _ => hexNumber) 0 pre.length pre := by
  by_cases hx : ∃ x tail, (x = 'x' ∨ x = 'X') ∧ pre = '0' :: x :: tail
  · obtain ⟨x, tail, hx, rfl⟩ := hx
    obtain ⟨found, hlen, hfound⟩ := run_local (p := isHexDigit) (by decide) tail
    cases found with
    | none => exact local_none fun n rest hn => by simp [hexNumber, hx, hfound n rest hn]
    | some q =>
      refine local_some ('0' :: x :: q.1) q.2 ?_ fun n rest hn => ?_
      · have := hlen q rfl
        simp only [List.length_cons]
        omega
      · simp [hexNumber, hx, hfound n rest hn]
  · refine local_none fun _ rest _ => ?_
    cases hread : hexNumber (pre ++ ']' :: rest) with
    | none => rfl
    | some q =>
      obtain ⟨digits, after⟩ := q
      obtain ⟨x, tail, hbase, hcs, -⟩ := hexNumber_eq_some hread
      obtain ⟨mid, rfl, hmid⟩ := cons_of_bracket hcs (.inl (by decide))
      obtain ⟨mid', rfl, -⟩ := cons_of_bracket hmid.symm
        (.inl (by rcases hbase with rfl | rfl <;> decide))
      exact absurd ⟨x, mid', hbase, rfl⟩ hx

theorem number_local (pre : List Char) : Local (fun _ => number) 0 pre.length pre := by
  obtain ⟨found, hlen, hfound⟩ := hexNumber_local pre
  cases found with
  | some q =>
    exact local_some q.1 q.2 (hlen q rfl) fun n rest hn => by simp [number, hfound n rest hn]
  | none =>
    obtain ⟨decimal, hlen', hdecimal⟩ := run_local (p := isDigit) (by decide) pre
    refine ⟨decimal, hlen', fun n rest hn => ?_⟩
    simpa [number, hfound n rest hn] using hdecimal n rest hn

/-! ### Widths -/

theorem chain_local {operator : Char → Option Operator}
    {operand : Nat → List Char → Option (WidthTree × List Char)}
    {next : Nat → WidthTree → List Char → Option (WidthTree × List Char)}
    (hbracket : operator ']' = none)
    (hoperand : ∀ p, p.length < pre.length → Local operand depth p.length p)
    (hnext : ∀ lhs p, p.length < pre.length →
      Local (fun n => next n lhs) depth (p.length + 1) p) (lhs : WidthTree) :
    Local (fun n => chain operator (operand n) (next n) lhs) depth (pre.length + 1) pre := by
  cases hskip : skip pre with
  | nil =>
    exact local_some lhs pre pre.length.lt_succ_self fun n rest _ => by
      simp [chain, hskip, hbracket]
  | cons c inner =>
    have hlen := skip_cons_length hskip
    cases hop : operator c with
    | none =>
      exact local_some lhs pre pre.length.lt_succ_self fun n rest _ => by
        simp [chain, hskip, hop]
    | some op =>
      obtain ⟨found, hshort, hfound⟩ := hoperand (skip inner) hlen
      cases found with
      | none =>
        exact local_some lhs pre pre.length.lt_succ_self fun n rest hn => by
          simp [chain, hskip, hop, hfound n rest hn]
      | some q =>
        have hq := (hshort q rfl).trans hlen
        obtain ⟨more, hshort', hmore⟩ := hnext (.binary op lhs q.1) q.2 hq
        refine ⟨more, fun r hr => (hshort' r hr).trans_le (by omega), fun n rest hn => ?_⟩
        simp [chain, hskip, hop, hfound n rest hn, hmore n rest hn]

/-- A first operand and what follows it, one level down. -/
theorem operand_local {operand : Nat → List Char → Option (WidthTree × List Char)}
    {next : Nat → WidthTree → List Char → Option (WidthTree × List Char)}
    {whole : Nat → List Char → Option (WidthTree × List Char)}
    (hwhole : ∀ n cs, whole (n + 1) cs =
      match operand n cs with
      | some (w, rest) => next n w rest
      | none => none)
    (hoperand : Local operand depth pre.length pre)
    (hnext : ∀ lhs p, p.length < pre.length →
      Local (fun n => next n lhs) depth (p.length + 1) p) :
    Local whole (depth + 1) pre.length pre := by
  obtain ⟨found, hlen, hfound⟩ := hoperand
  cases found with
  | none =>
    refine local_none fun n rest hn => ?_
    obtain ⟨n, rfl⟩ : ∃ k, n = k + 1 := ⟨n - 1, by omega⟩
    rw [hwhole, hfound n rest (by omega)]
    rfl
  | some q =>
    refine ((hnext q.1 q.2 (hlen q rfl)).mono le_rfl (hlen q rfl)).succ fun n rest hn => ?_
    rw [hwhole, hfound n rest hn]
    rfl

theorem widthAtom_paren (n : Nat) (inner : List Char) :
    widthAtom (n + 1) ('(' :: inner) = (widthSum n (skip inner)).bind fun q =>
      match skip q.2 with
      | ')' :: rest => some (q.1, rest)
      | _ => none := by
  simp only [widthAtom, number_eq_none (c := '(') (by decide),
    identifier_eq_none (c := '(') (by decide)]
  cases widthSum n (skip inner) <;> rfl

theorem paren_local {inner : List Char} (hsum : Local widthSum depth inner.length (skip inner)) :
    Local widthAtom (depth + 1) (inner.length + 1) ('(' :: inner) := by
  obtain ⟨found, hshort, hfound⟩ := hsum
  cases found with
  | none =>
    refine local_none fun n rest hn => ?_
    obtain ⟨n, rfl⟩ : ∃ k, n = k + 1 := ⟨n - 1, by omega⟩
    simp [widthAtom_paren, hfound n rest (by omega)]
  | some q =>
    have hread : ∀ n rest, depth + 1 ≤ n → widthAtom n ('(' :: inner ++ ']' :: rest) =
        match skip q.2 ++ ']' :: rest with
        | ')' :: rest => some (q.1, rest)
        | _ => none := by
      intro n rest hn
      obtain ⟨n, rfl⟩ : ∃ k, n = k + 1 := ⟨n - 1, by omega⟩
      simp [widthAtom_paren, hfound n rest (by omega)]
    by_cases hclose : ∃ after, skip q.2 = ')' :: after
    · obtain ⟨after, hafter⟩ := hclose
      have hlen := skip_length_le q.2
      have hq := hshort q rfl
      rw [hafter, List.length_cons] at hlen
      refine local_some q.1 after (by omega) fun n rest hn => ?_
      rw [hread n rest hn, hafter]
      rfl
    · refine local_none fun n rest hn => ?_
      rw [hread n rest hn]
      split
      · rename_i after heq
        obtain ⟨mid, hmid, -⟩ := cons_of_bracket heq (.inl (by decide))
        exact absurd ⟨mid, hmid⟩ hclose
      · rfl

theorem widthAtom_local (hsum : ∀ p, p.length < pre.length → Local widthSum depth p.length p) :
    Local widthAtom (depth + 1) pre.length pre := by
  by_cases hopen : ∃ inner, pre = '(' :: inner
  · obtain ⟨inner, rfl⟩ := hopen
    have hinner := skip_length_le inner
    exact paren_local ((hsum (skip inner) (Nat.lt_succ_of_le hinner)).mono le_rfl hinner)
  obtain ⟨digits, hdigits, hnumber⟩ := number_local pre
  obtain ⟨name, hname, hid⟩ := identifier_local pre
  have hread : ∀ n rest, depth + 1 ≤ n → widthAtom n (pre ++ ']' :: rest) =
      match digits, name with
      | some q, _ => some (.number q.1, q.2 ++ ']' :: rest)
      | none, some q => some (.field q.1, q.2 ++ ']' :: rest)
      | none, none => none := by
    intro n rest hn
    obtain ⟨n, rfl⟩ : ∃ k, n = k + 1 := ⟨n - 1, by omega⟩
    simp only [widthAtom, hnumber 0 rest le_rfl, hid 0 rest le_rfl]
    cases digits with
    | some q => rfl
    | none =>
      cases name with
      | some q => rfl
      | none =>
        simp only [Option.map_none]
        split
        · rename_i inner heq
          obtain ⟨mid, hmid, -⟩ := cons_of_bracket heq (.inl (by decide))
          exact absurd ⟨mid, hmid⟩ hopen
        · rfl
  cases digits with
  | some q => exact local_some _ q.2 (hdigits q rfl) hread
  | none =>
    cases name with
    | some q => exact local_some _ q.2 (hname q rfl) hread
    | none => exact local_none hread

/-- The readers of widths look at less than `k` characters before a closing bracket and at nothing
behind it. -/
structure WidthLocal (k : Nat) : Prop where
  atom : ∀ pre : List Char, pre.length < k → Local widthAtom (3 * k) pre.length pre
  product : ∀ pre : List Char, pre.length < k → Local widthProduct (3 * k) pre.length pre
  factors : ∀ lhs (pre : List Char), pre.length < k →
    Local (fun n => widthFactors n lhs) (3 * k) (pre.length + 1) pre
  sum : ∀ pre : List Char, pre.length < k → Local widthSum (3 * k) pre.length pre
  terms : ∀ lhs (pre : List Char), pre.length < k →
    Local (fun n => widthTerms n lhs) (3 * k) (pre.length + 1) pre

theorem widthLocal (k : Nat) : WidthLocal k := by
  induction k with
  | zero => exact ⟨by simp, by simp, by simp, by simp, by simp⟩
  | succ k ih =>
    -- What stands behind the first character is shorter, and read at most `3 * k` levels deep.
    have hatom : ∀ pre : List Char, pre.length < k + 1 →
        Local widthAtom (3 * k + 1) pre.length pre := fun pre hpre =>
      widthAtom_local fun p hp => ih.sum p (by omega)
    have hfactors : ∀ lhs (pre : List Char), pre.length < k + 1 →
        Local (fun n => widthFactors n lhs) (3 * k + 1) (pre.length + 1) pre := fun lhs pre hpre =>
      (chain_local rfl (fun p hp => ih.atom p (by omega))
        (fun lhs p hp => ih.factors lhs p (by omega)) lhs).succ
        fun n rest _ => widthFactors_succ n lhs _
    have hproduct : ∀ pre : List Char, pre.length < k + 1 →
        Local widthProduct (3 * k + 1 + 1) pre.length pre := fun pre hpre =>
      operand_local (fun _ _ => rfl) (hatom pre hpre)
        fun lhs p hp => hfactors lhs p (by omega)
    have hterms : ∀ lhs (pre : List Char), pre.length < k + 1 →
        Local (fun n => widthTerms n lhs) (3 * k + 1) (pre.length + 1) pre := fun lhs pre hpre =>
      (chain_local rfl (fun p hp => ih.product p (by omega))
        (fun lhs p hp => ih.terms lhs p (by omega)) lhs).succ
        fun n rest _ => widthTerms_succ n lhs _
    have hsum : ∀ pre : List Char, pre.length < k + 1 →
        Local widthSum (3 * k + 1 + 1 + 1) pre.length pre := fun pre hpre =>
      operand_local (fun _ _ => rfl) (hproduct pre hpre)
        fun lhs p hp => (hterms lhs p (by omega)).mono (by omega) le_rfl
    exact ⟨fun pre hpre => (hatom pre hpre).mono (by omega) le_rfl,
      fun pre hpre => (hproduct pre hpre).mono (by omega) le_rfl,
      fun lhs pre hpre => (hfactors lhs pre hpre).mono (by omega) le_rfl,
      fun pre hpre => (hsum pre hpre).mono (by omega) le_rfl,
      fun lhs pre hpre => (hterms lhs pre hpre).mono (by omega) le_rfl⟩

/-! ### Types -/

theorem pathSeparator_bracket (pre rest : List Char) :
    pathSeparator (pre ++ ']' :: rest) = (pathSeparator pre).map (· ++ ']' :: rest) := by
  match pre with
  | [] => rfl
  | [c] => by_cases hc : c = '.' <;> simp [pathSeparator, hc]
  | c :: d :: pre =>
    by_cases hscope : c = ':' ∧ d = ':'
    · simp [pathSeparator, hscope.1, hscope.2]
    · by_cases hc : c = '.' <;> simp_all [pathSeparator]

theorem length_lt_of_pathSeparator {cs after : List Char} (h : pathSeparator cs = some after) :
    after.length < cs.length := by
  unfold pathSeparator at h
  split at h
  · obtain rfl := Option.some.inj h
    simp
  · obtain rfl := Option.some.inj h
    simp
  · simp at h

/-- What follows the first segment of a path is read up to the bracket at most. -/
theorem pathSegments_local (pre : List Char) : ∃ ids mid, ∀ n rest, pre.length ≤ n →
    pathSegments n (pre ++ ']' :: rest) = (ids, mid ++ ']' :: rest) := by
  induction hk : pre.length using Nat.strong_induction_on generalizing pre with
  | _ k ih =>
    subst hk
    cases hseparator : pathSeparator (skip pre) with
    | none =>
      refine ⟨[], pre, fun n rest _ => ?_⟩
      cases n <;> simp [pathSegments, pathSeparator_bracket, hseparator]
    | some after =>
      obtain ⟨name, hname, hid⟩ := identifier_local (skip after)
      cases name with
      | none =>
        refine ⟨[], pre, fun n rest _ => ?_⟩
        cases n <;> simp [pathSegments, pathSeparator_bracket, hseparator, hid 0 rest le_rfl]
      | some q =>
        have hlen : q.2.length < pre.length :=
          calc q.2.length
            _ < (skip after).length := hname q rfl
            _ ≤ after.length := skip_length_le after
            _ ≤ (skip pre).length := (length_lt_of_pathSeparator hseparator).le
            _ ≤ pre.length := skip_length_le pre
        obtain ⟨ids, mid, hsegments⟩ := ih q.2.length hlen q.2 rfl
        refine ⟨q.1 :: ids, mid, fun n rest hn => ?_⟩
        obtain ⟨n, rfl⟩ : ∃ k, n = k + 1 := ⟨n - 1, by omega⟩
        simp [pathSegments, pathSeparator_bracket, hseparator, hid 0 rest le_rfl,
          hsegments n rest (by omega)]

/-- How a type is read, one level at a time. -/
inductive TypeStep (n : Nat) (cs rest : List Char) : TypeTree → Prop
  | slice {inner after : List Char} {element : TypeTree} (hopen : cs = '[' :: inner)
      (hclose : skip inner = ']' :: after) (h : typeTree n (skip after) = some (element, rest)) :
      TypeStep n cs rest (.slice element)
  | array {inner digits mid after : List Char} {element : TypeTree} (hopen : cs = '[' :: inner)
      (hnumber : number (skip inner) = some (digits, mid)) (hclose : skip mid = ']' :: after)
      (h : typeTree n (skip after) = some (element, rest)) :
      TypeStep n cs rest (.array digits element)
  | pointer {inner : List Char} {target : TypeTree} (hstar : cs = '*' :: inner)
      (h : typeTree n (skip inner) = some (target, rest)) : TypeStep n cs rest (.pointer target)
  | constant {value : String} (h : quotedText cs = some (value, rest)) :
      TypeStep n cs rest (.constant value)
  | named {id : String} {mid : List Char} {ids : List String}
      (hid : identifier cs = some (id, mid)) (h : pathSegments n mid = (ids, rest)) :
      TypeStep n cs rest (.named (id :: ids))

theorem typeStep_iff {n : Nat} {cs rest : List Char} {tree : TypeTree} :
    typeTree (n + 1) cs = some (tree, rest) ↔ TypeStep n cs rest tree := by
  constructor
  · intro h
    have hmap : ∀ {wrap : TypeTree → TypeTree} {after : List Char},
        ((typeTree n (skip after)).map fun q => (wrap q.1, q.2)) = some (tree, rest) →
        ∃ inner, typeTree n (skip after) = some (inner, rest) ∧ tree = wrap inner := by
      intro wrap after hread
      obtain ⟨⟨inner, _⟩, hinner, heq⟩ := Option.map_eq_some_iff.mp hread
      simp only [Prod.mk.injEq] at heq
      obtain ⟨rfl, rfl⟩ := heq
      exact ⟨inner, hinner, rfl⟩
    simp only [typeTree] at h
    split at h
    · split at h
      · rename_i hclose
        obtain ⟨element, helement, rfl⟩ := hmap h
        exact .slice rfl hclose helement
      · split at h
        · rename_i hnumber
          split at h
          · rename_i hclose
            obtain ⟨element, helement, rfl⟩ := hmap h
            exact .array rfl hnumber hclose helement
          · simp at h
        · simp at h
    · obtain ⟨target, htarget, rfl⟩ := hmap h
      exact .pointer rfl htarget
    · obtain ⟨⟨value, _⟩, hvalue, heq⟩ := Option.map_eq_some_iff.mp h
      simp only [Prod.mk.injEq] at heq
      obtain ⟨rfl, rfl⟩ := heq
      exact .constant hvalue
    · split at h
      · rename_i hid
        simp only [Option.some.injEq, Prod.mk.injEq] at h
        obtain ⟨rfl, rfl⟩ := h
        exact .named hid rfl
      · simp at h
  · intro h
    cases h with
    | slice hopen hclose h => rw [hopen, typeTree_slice hclose, h]; rfl
    | array hopen hnumber hclose h => rw [hopen, typeTree_array hnumber hclose, h]; rfl
    | pointer hstar h => simp [hstar, typeTree, h]
    | constant h =>
      obtain ⟨body, -, hcs, -⟩ := quotedText_eq_some.mp h
      rw [hcs] at h ⊢
      simp [typeTree, h]
    | named hid h => rw [typeTree_named hid, h]

/-- A type that is read up to a place before the bracket. -/
theorem typeTree_local {n : Nat} {mid rest : List Char} {tree : TypeTree}
    (h : typeTree n (pre ++ ']' :: rest) = some (tree, mid ++ ']' :: rest)) (hn : pre.length < n)
    {m : Nat} (hm : pre.length < m) (rest' : List Char) :
    typeTree m (pre ++ ']' :: rest') = some (tree, mid ++ ']' :: rest') := by
  induction n generalizing pre tree m with
  | zero => simp at hn
  | succ n ih =>
    obtain ⟨m, rfl⟩ : ∃ k, m = k + 1 := ⟨m - 1, by omega⟩
    -- What is left of an element holds the bracket, so the element starts before it.
    have hbehind : ∀ {cs t}, typeTree n (skip cs) = some (t, mid ++ ']' :: rest) →
        ']' :: rest <:+ cs := fun h' =>
      (List.suffix_append mid _).trans ((typeTree_leaves h').suffix.trans (skip_suffix _))
    have hinner : ∀ {p t}, p.length < pre.length →
        typeTree n (skip (p ++ ']' :: rest)) = some (t, mid ++ ']' :: rest) →
        typeTree m (skip (p ++ ']' :: rest')) = some (t, mid ++ ']' :: rest') := by
      intro p t hp h'
      have hskip := skip_length_le p
      rw [skip_bracket] at h' ⊢
      exact ih h' (by omega) (by omega)
    apply typeStep_iff.mpr
    cases typeStep_iff.mp h with
    | slice hopen hclose helement =>
      obtain ⟨p, rfl, rfl⟩ := cons_of_bracket hopen (.inl (by decide))
      rw [skip_bracket] at hclose
      obtain ⟨q, hq, rfl⟩ := cons_of_bracket hclose (.inr (hbehind helement))
      have hlen := length_lt_of_skip hq
      exact .slice List.cons_append (by rw [skip_bracket, hq]; rfl)
        (hinner (by simp only [List.length_cons]; omega) helement)
    | array hopen hnumber hclose helement =>
      obtain ⟨p, rfl, rfl⟩ := cons_of_bracket hopen (.inl (by decide))
      rw [skip_bracket] at hnumber
      obtain ⟨q, rfl, hqlen, hnumber'⟩ := (number_local (skip p)).of_some le_rfl hnumber
      rw [skip_bracket] at hclose
      obtain ⟨r, hr, rfl⟩ := cons_of_bracket hclose (.inr (hbehind helement))
      have hlen := length_lt_of_skip hr
      have hp := skip_length_le p
      exact .array List.cons_append (by rw [skip_bracket]; exact hnumber' 0 rest' le_rfl)
        (by rw [skip_bracket, hr]; rfl)
        (hinner (by simp only [List.length_cons]; omega) helement)
    | pointer hstar htarget =>
      obtain ⟨p, rfl, rfl⟩ := cons_of_bracket hstar (.inl (by decide))
      exact .pointer List.cons_append (hinner (by simp) htarget)
    | constant hvalue =>
      obtain ⟨body, hbody, hcs, rfl⟩ := quotedText_eq_some.mp hvalue
      obtain rfl : pre = '"' :: (body ++ '"' :: mid) := by
        apply (List.append_left_inj (']' :: rest)).mp
        simpa using hcs
      exact .constant (quotedText_eq_some.mpr ⟨body, hbody, by simp, rfl⟩)
    | named hid hsegments =>
      obtain ⟨p, rfl, hp, hid'⟩ := (identifier_local pre).of_some le_rfl hid
      obtain ⟨ids, q, hlocal⟩ := pathSegments_local p
      rw [hlocal n rest (by omega), Prod.mk.injEq] at hsegments
      obtain ⟨rfl, hq⟩ := hsegments
      obtain rfl : q = mid := List.append_cancel_right hq
      exact .named (hid' 0 rest' le_rfl) (hlocal m rest' (by omega))

/-! ### Fields -/

/-- What a field declares as it is written, wherever it stands. -/
def FieldTree.content (tree : FieldTree) :
    String × Option WidthTree × Option TypeTree × Option (List Char) :=
  (tree.id, tree.width, tree.type, tree.endian.map (·.1))

/-- Only spacing stands before the bracket. -/
theorem skip_bracket_eq {rest : List Char} (h : skip (pre ++ ']' :: rest) = ']' :: rest)
    (rest' : List Char) : skip (pre ++ ']' :: rest') = ']' :: rest' := by
  have hnil : skip pre = [] := by simpa using h
  rw [skip_bracket, hnil, List.nil_append]

theorem widthBehind_local (pre : List Char) : ∃ width mid, ∀ rest,
    widthBehind (pre ++ ']' :: rest) = (width, mid ++ ']' :: rest) := by
  have hlen := skip_length_le pre
  obtain ⟨found, -, hfound⟩ := (widthLocal (pre.length + 1)).sum (skip pre) (by omega)
  have hread : ∀ rest, widthBehind (pre ++ ']' :: rest) =
      match found with
      | some q => (some q.1, q.2 ++ ']' :: rest)
      | none => (none, skip pre ++ ']' :: rest) := by
    intro rest
    have hdepth : 3 * (pre.length + 1) ≤ depthBound (pre ++ ']' :: rest) := by
      simp only [depthBound, List.length_append, List.length_cons]
      omega
    simp only [widthBehind, attempt, skip_bracket, hfound _ rest hdepth]
    cases found <;> rfl
  cases found with
  | none => exact ⟨none, skip pre, hread⟩
  | some q => exact ⟨some q.1, q.2, hread⟩

theorem typeBehind_local {rest : List Char} (hcloses : Closes (typeBehind (pre ++ ']' :: rest)).2)
    (hend : ']' :: rest <:+ (typeBehind (pre ++ ']' :: rest)).2) :
    ∃ type mid, ∀ rest', typeBehind (pre ++ ']' :: rest') = (type, mid ++ ']' :: rest') := by
  have hdepth : ∀ rest, (skip pre).length < depthBound (pre ++ ']' :: rest) := by
    intro rest
    have hlen := skip_length_le pre
    simp only [depthBound, List.length_append, List.length_cons]
    omega
  cases hread : typeTree (depthBound (pre ++ ']' :: rest)) (skip pre ++ ']' :: rest) with
  | some q =>
    simp only [typeBehind, attempt, skip_bracket, hread] at hend
    obtain ⟨mid, hmid⟩ := hend
    refine ⟨some q.1, mid, fun rest' => ?_⟩
    have hlocal := typeTree_local (by rw [hread, hmid]) (hdepth rest) (hdepth rest') rest'
    simp only [typeBehind, attempt, skip_bracket, hlocal]
  | none =>
    -- No type is there, since the next character closes the part.
    simp only [typeBehind, attempt, skip_bracket, hread, Closes] at hcloses
    obtain ⟨c, tail, hskip, hc⟩ := hcloses
    refine ⟨none, skip pre, fun rest' => ?_⟩
    have hnone : ∀ n, typeTree n (skip pre ++ ']' :: rest') = none := by
      intro n
      cases hpre : skip pre with
      | nil => exact typeTree_closing (.inr rfl) n rest'
      | cons d p =>
        rw [skip_skip, hpre, List.cons_append, List.cons.injEq] at hskip
        rw [List.cons_append, hskip.1]
        exact typeTree_closing hc n _
    simp only [typeBehind, attempt, skip_bracket, hnone]

/-- Behind the type of a field, the part that is closed by the bracket goes on. -/
theorem closes_of_typePart {inner rest : List Char}
    (h : skip (typePart (',' :: inner)).2.2 = ']' :: rest) :
    Closes (typeBehind inner).2 ∧ ']' :: rest <:+ (typeBehind inner).2 := by
  have hend : ∀ {cs}, skip cs = ']' :: rest → ']' :: rest <:+ cs := fun heq => heq ▸ skip_suffix _
  by_cases hmark : ∃ mid, skip (typeBehind inner).2 = ',' :: mid
  · obtain ⟨mid, hmid⟩ := hmark
    refine ⟨⟨',', mid, hmid, .inl rfl⟩, ?_⟩
    cases hrun : run isAlphanumeric (skip mid) with
    | none =>
      rw [typePart_bare hmid hrun] at h
      exact (hend h).trans (suffix_of_skip hmid)
    | some q =>
      rw [typePart_endian hmid hrun] at h
      have hrest : q.2 <:+ skip mid := ⟨q.1, run_append hrun⟩
      exact (hend h).trans (hrest.trans ((skip_suffix mid).trans (suffix_of_skip hmid)))
  · rw [typePart_type fun rest hrest => hmark ⟨rest, hrest⟩] at h
    exact ⟨⟨']', rest, h, .inr rfl⟩, hend h⟩

theorem typePart_local {rest : List Char}
    (h : skip (typePart (pre ++ ']' :: rest)).2.2 = ']' :: rest) :
    ∃ type word, ∀ rest', (typePart (pre ++ ']' :: rest')).1 = type ∧
      (typePart (pre ++ ']' :: rest')).2.1.map (·.1) = word ∧
      skip (typePart (pre ++ ']' :: rest')).2.2 = ']' :: rest' := by
  by_cases hcomma : ∃ inner, pre = ',' :: inner
  · obtain ⟨inner, rfl⟩ := hcomma
    simp only [List.cons_append] at h ⊢
    obtain ⟨hcloses, hend⟩ := closes_of_typePart h
    obtain ⟨type, left, htype⟩ := typeBehind_local hcloses hend
    refine ⟨type, ?_⟩
    by_cases hmark : ∃ mid, skip left = ',' :: mid
    · obtain ⟨mid, hmid⟩ := hmark
      have hbehind : ∀ rest', skip (typeBehind (inner ++ ']' :: rest')).2 =
          ',' :: (mid ++ ']' :: rest') := by simp [htype, hmid]
      obtain ⟨found, -, hfound⟩ := run_local (p := isAlphanumeric) (by decide) (skip mid)
      cases found with
      | none =>
        have hrun : ∀ rest', run isAlphanumeric (skip (mid ++ ']' :: rest')) = none :=
          fun rest' => by simpa using hfound 0 rest' le_rfl
        rw [typePart_bare (hbehind rest) (hrun rest)] at h
        refine ⟨none, fun rest' => ?_⟩
        rw [typePart_bare (hbehind rest') (hrun rest'), htype]
        exact ⟨rfl, rfl, skip_bracket_eq h rest'⟩
      | some q =>
        have hrun : ∀ rest', run isAlphanumeric (skip (mid ++ ']' :: rest')) =
            some (q.1, q.2 ++ ']' :: rest') := fun rest' => by simpa using hfound 0 rest' le_rfl
        rw [typePart_endian (hbehind rest) (hrun rest)] at h
        refine ⟨some q.1, fun rest' => ?_⟩
        rw [typePart_endian (hbehind rest') (hrun rest'), htype]
        exact ⟨rfl, rfl, skip_bracket_eq h rest'⟩
    · have hnext : ∀ rest' tail, skip (typeBehind (inner ++ ']' :: rest')).2 ≠ ',' :: tail := by
        intro rest' tail heq
        rw [htype, skip_bracket] at heq
        obtain ⟨mid, hmid, -⟩ := cons_of_bracket heq (.inl (by decide))
        exact hmark ⟨mid, hmid⟩
      rw [typePart_type (hnext rest), htype] at h
      refine ⟨none, fun rest' => ?_⟩
      rw [typePart_type (hnext rest'), htype]
      exact ⟨rfl, rfl, skip_bracket_eq h rest'⟩
  · have habsent : ∀ rest', typePart (pre ++ ']' :: rest') = (none, none, pre ++ ']' :: rest') := by
      intro rest'
      refine typePart_absent fun tail heq => ?_
      obtain ⟨mid, hmid, -⟩ := cons_of_bracket heq (.inl (by decide))
      exact hcomma ⟨mid, hmid⟩
    rw [habsent] at h
    refine ⟨none, none, fun rest' => ?_⟩
    rw [habsent]
    exact ⟨rfl, rfl, skip_bracket_eq h rest'⟩

/-- A field is read the same way wherever its characters stand. -/
theorem fieldTree_local {tree : FieldTree} {rest : List Char}
    (h : fieldTree (pre ++ ']' :: rest) = some (tree, rest)) (rest' : List Char) :
    ∃ tree', fieldTree (pre ++ ']' :: rest') = some (tree', rest') ∧
      tree'.content = tree.content := by
  obtain ⟨id, mid, inner, hid, hopen, hclose, rfl⟩ := fieldTree_eq_some.mp h
  obtain ⟨p, rfl, -, hid'⟩ := (identifier_local pre).of_some le_rfl hid
  rw [skip_bracket] at hopen
  obtain ⟨q, hq, rfl⟩ := cons_of_bracket hopen (.inl (by decide))
  obtain ⟨width, left, hwidth⟩ := widthBehind_local q
  simp only [hwidth, skip_bracket] at hclose
  obtain ⟨type, word, hpart⟩ := typePart_local hclose
  obtain ⟨htype, hword, -⟩ := hpart rest
  obtain ⟨htype', hword', hclose'⟩ := hpart rest'
  refine ⟨_, fieldTree_eq_some.mpr ⟨id, _, q ++ ']' :: rest', hid' 0 rest' le_rfl, ?_, ?_, rfl⟩, ?_⟩
  · rw [skip_bracket, hq]
    rfl
  · simpa only [hwidth, skip_bracket] using hclose'
  · simp only [FieldTree.content, hwidth, skip_bracket, htype, hword, htype', hword']

/-- A field ends with the bracket that closes it. -/
theorem fieldTree_bracket {cs rest : List Char} {tree : FieldTree}
    (h : fieldTree cs = some (tree, rest)) : ∃ pre, cs = pre ++ ']' :: rest := by
  obtain ⟨id, mid, inner, hid, hopen, hclose, -⟩ := fieldTree_eq_some.mp h
  have hend : ']' :: rest <:+ cs :=
    calc ']' :: rest
      _ <:+ (typePart (skip (widthBehind inner).2)).2.2 := hclose ▸ skip_suffix _
      _ <:+ skip (widthBehind inner).2 := (typePart_leaves _).1.suffix
      _ <:+ (widthBehind inner).2 := skip_suffix _
      _ <:+ inner := (widthBehind_leaves inner).suffix
      _ <:+ mid := suffix_of_skip hopen
      _ <:+ cs := (identifier_munch hid).suffix
  obtain ⟨pre, hpre⟩ := hend
  exact ⟨pre, hpre.symm⟩

end WireRecords.Directive
