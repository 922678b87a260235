import WireRecords.Proofs.Directive.Readers

/-!
# What the grammar writes is accepted

Each reader, started at the tokens of a form that nothing behind them prolongs, returns what the
form writes. The bound of a reader is four times the length of its text: on every way down it
passes at most three readers before a character is consumed.
-/
namespace WireRecords.Directive

/-! ### Inversion of tokens -/

theorem Reads.mark_inv {c : Char} {cs rest : List Char} {ts : List Token}
    (h : Reads cs (.mark c :: ts) rest) : ∃ mid, skip cs = c :: mid ∧ Reads mid ts rest := by
  cases h with
  | cons head tail => exact ⟨_, eq_cons_of_munch head, tail⟩

theorem Reads.name_inv {id : String} {cs rest : List Char} {ts : List Token}
    (h : Reads cs (.name id :: ts) rest) :
    ∃ mid, identifier (skip cs) = some (id, mid) ∧ Reads mid ts rest := by
  cases h with
  | cons head tail => exact ⟨_, identifier_of_munch head, tail⟩

theorem Reads.number_inv {n : Nat} {cs rest : List Char} {ts : List Token}
    (h : Reads cs (.number n :: ts) rest) :
    ∃ digits mid, number (skip cs) = some (digits, mid) ∧ numberValue digits = n ∧
      Reads mid ts rest := by
  cases h with
  | cons head tail =>
    obtain ⟨digits, hnumber, hvalue⟩ := number_of_munch head
    exact ⟨digits, _, hnumber, hvalue, tail⟩

theorem Reads.nil_inv {cs rest : List Char} (h : Reads cs [] rest) : cs = rest := by
  cases h
  rfl

/-- Tokens take characters behind the spacing. -/
theorem Reads.length_lt {cs rest : List Char} {ts : List Token} (hts : ts ≠ [])
    (h : Reads cs ts rest) : rest.length < (skip cs).length := by
  cases h with
  | nil => exact absurd rfl hts
  | cons head tail =>
    have hlt := head.length_lt
    have hle := tail.length_le
    omega

theorem length_lt_of_skip {c : Char} {cs mid : List Char} (h : skip cs = c :: mid) :
    mid.length < cs.length := by
  have hle := skip_length_le cs
  rw [h, List.length_cons] at hle
  omega

/-! ### Widths -/

/-- The next character continues no chain of these operators. -/
def Ends (operator : Char → Option Operator) (cs : List Char) : Prop :=
  ∀ c tail, skip cs = c :: tail → operator c = none

theorem ends_of_skip {operator : Char → Option Operator} {c : Char} {cs tail : List Char}
    (h : skip cs = c :: tail) (hc : operator c = none) : Ends operator cs := by
  intro d tail' hd
  rw [h] at hd
  rw [← (List.cons.inj hd).1, hc]

section Chain

variable {operator : Char → Option Operator}
  {operand : List Char → Option (WidthTree × List Char)}
  {next : WidthTree → List Char → Option (WidthTree × List Char)} {lhs rhs : WidthTree}
  {cs mid rest : List Char}

theorem chain_stop (h : Ends operator cs) : chain operator operand next lhs cs = some (lhs, cs) := by
  unfold chain
  split
  · rename_i c tail hc
    simp [h c tail hc]
  · rfl

theorem chain_next {c : Char} {op : Operator} (hc : skip cs = c :: mid)
    (hop : operator c = some op) (hrhs : operand (skip mid) = some (rhs, rest)) :
    chain operator operand next lhs cs = next (.binary op lhs rhs) rest := by
  simp [chain, hc, hop, hrhs]

end Chain

theorem productOperator_mark {op : Operator} (h : op = .mul ∨ op = .div ∨ op = .rem) :
    productOperator op.mark = some op := by
  rcases h with rfl | rfl | rfl <;> rfl

theorem sumOperator_mark {op : Operator} (h : op = .add ∨ op = .sub) :
    sumOperator op.mark = some op := by
  rcases h with rfl | rfl <;> rfl

theorem productOperator_sumMark {op : Operator} (h : op = .add ∨ op = .sub) :
    productOperator op.mark = none := by
  rcases h with rfl | rfl <;> rfl

/-- What the readers do at the tokens of a width. A product is followed by the reader of its
factors, a sum by that of its terms, which have levels left for what is behind. -/
def WidthComplete (w : Width) (ts : List Token) : Rank → Prop
  | .atom => ∀ {cs rest n}, Reads cs ts rest → 4 * (skip cs).length + 1 ≤ n →
      ∃ tree, tree.resolve = .ok w ∧ widthAtom n (skip cs) = some (tree, rest)
  | .product => ∀ {cs rest n}, Reads cs ts rest → 4 * (skip cs).length + 2 ≤ n →
      ∃ tree m, tree.resolve = .ok w ∧ 4 * rest.length + 1 ≤ m ∧
        widthProduct n (skip cs) = widthFactors m tree rest
  | .sum => ∀ {cs rest n}, Reads cs ts rest → Ends productOperator rest →
      4 * (skip cs).length + 3 ≤ n →
      ∃ tree m, tree.resolve = .ok w ∧ 4 * rest.length + 1 ≤ m ∧
        widthSum n (skip cs) = widthTerms m tree rest

theorem widthFactors_stop {m : Nat} {tree : WidthTree} {rest : List Char} (hm : 1 ≤ m)
    (h : Ends productOperator rest) : widthFactors m tree rest = some (tree, rest) := by
  obtain ⟨m, rfl⟩ : ∃ k, m = k + 1 := ⟨m - 1, by omega⟩
  rw [widthFactors_succ, chain_stop h]

theorem widthTerms_stop {m : Nat} {tree : WidthTree} {rest : List Char} (hm : 1 ≤ m)
    (h : Ends sumOperator rest) : widthTerms m tree rest = some (tree, rest) := by
  obtain ⟨m, rfl⟩ : ∃ k, m = k + 1 := ⟨m - 1, by omega⟩
  rw [widthTerms_succ, chain_stop h]

theorem WidthForm.complete {k : Rank} {ts : List Token} {w : Width} (h : WidthForm k ts w) :
    WidthComplete w ts k := by
  induction h with
  | literal hlt =>
    intro cs rest n hreads hn
    obtain ⟨n, rfl⟩ : ∃ k, n = k + 1 := ⟨n - 1, by omega⟩
    obtain ⟨digits, mid, hnumber, hvalue, htail⟩ := hreads.number_inv
    obtain rfl := htail.nil_inv
    exact ⟨.number digits, WidthTree.resolve_number.mpr ⟨_, hvalue, hlt, rfl⟩,
      by simp [widthAtom, hnumber]⟩
  | field id =>
    intro cs rest n hreads hn
    obtain ⟨n, rfl⟩ : ∃ k, n = k + 1 := ⟨n - 1, by omega⟩
    obtain ⟨mid, hid, htail⟩ := hreads.name_inv
    obtain rfl := htail.nil_inv
    have hnumber : number (skip cs) = none := by
      obtain ⟨c, tail, hcs, hlead⟩ := (identifier_munch hid).lead_eq
      rw [hcs]
      exact number_eq_none (by simp [hlead, Token.lead])
    exact ⟨.field id, rfl, by simp [widthAtom, hnumber, hid]⟩
  | @parentheses ts w inner ih =>
    intro cs rest n hreads hn
    obtain ⟨n, rfl⟩ : ∃ k, n = k + 1 := ⟨n - 1, by omega⟩
    obtain ⟨mid, hopen, hinner⟩ := hreads.mark_inv
    obtain ⟨after, hts, hclose⟩ := hinner.split
    obtain ⟨last, hskip, hnil⟩ := hclose.mark_inv
    obtain rfl := hnil.nil_inv
    have hlen := skip_length_le mid
    rw [hopen, List.length_cons] at hn
    obtain ⟨tree, m, htree, hm, hsum⟩ :=
      ih hts (ends_of_skip hskip rfl) (show 4 * (skip mid).length + 3 ≤ n by omega)
    rw [widthTerms_stop (by omega) (ends_of_skip hskip rfl)] at hsum
    refine ⟨tree, htree, ?_⟩
    have hnumber : number ('(' :: mid) = none := number_eq_none (by decide)
    have hid : identifier ('(' :: mid) = none := identifier_eq_none (by decide)
    simp [hopen, widthAtom, hnumber, hid, hsum, hskip]
  | @ofAtom ts w hform ih =>
    intro cs rest n hreads hn
    obtain ⟨n, rfl⟩ : ∃ k, n = k + 1 := ⟨n - 1, by omega⟩
    obtain ⟨tree, htree, hatom⟩ := ih hreads (show 4 * (skip cs).length + 1 ≤ n by omega)
    have hlt := hreads.length_lt hform.ne_nil
    exact ⟨tree, n, htree, by omega, by simp [widthProduct, hatom]⟩
  | @factor op ts us lhs rhs hop left right ihl ihr =>
    intro cs rest n hreads hn
    obtain ⟨mid, hts, hrest⟩ := hreads.split
    obtain ⟨after, hmark, hus⟩ := hrest.mark_inv
    obtain ⟨tree, m, htree, hm, hproduct⟩ := ihl hts hn
    obtain ⟨m, rfl⟩ : ∃ k, m = k + 1 := ⟨m - 1, by omega⟩
    have hlt := length_lt_of_skip hmark
    have hle := skip_length_le after
    obtain ⟨tree', htree', hatom⟩ := ihr hus (show 4 * (skip after).length + 1 ≤ m by omega)
    have hlt' := hus.length_lt right.ne_nil
    refine ⟨.binary op tree tree', m, WidthTree.resolve_binary.mpr ⟨_, _, htree, htree', rfl⟩,
      by omega, ?_⟩
    rw [hproduct, widthFactors_succ, chain_next hmark (productOperator_mark hop) hatom]
  | @ofProduct ts w hform ih =>
    intro cs rest n hreads hends hn
    obtain ⟨n, rfl⟩ : ∃ k, n = k + 1 := ⟨n - 1, by omega⟩
    obtain ⟨tree, m, htree, hm, hproduct⟩ := ih hreads (show 4 * (skip cs).length + 2 ≤ n by omega)
    rw [widthFactors_stop (by omega) hends] at hproduct
    have hlt := hreads.length_lt hform.ne_nil
    exact ⟨tree, n, htree, by omega, by simp [widthSum, hproduct]⟩
  | @term op ts us lhs rhs hop left right ihl ihr =>
    intro cs rest n hreads hends hn
    obtain ⟨mid, hts, hrest⟩ := hreads.split
    obtain ⟨after, hmark, hus⟩ := hrest.mark_inv
    obtain ⟨tree, m, htree, hm, hsum⟩ :=
      ihl hts (ends_of_skip hmark (productOperator_sumMark hop)) hn
    obtain ⟨m, rfl⟩ : ∃ k, m = k + 1 := ⟨m - 1, by omega⟩
    have hlt := length_lt_of_skip hmark
    have hle := skip_length_le after
    obtain ⟨tree', m', htree', hm', hproduct⟩ :=
      ihr hus (show 4 * (skip after).length + 2 ≤ m by omega)
    rw [widthFactors_stop (by omega) hends] at hproduct
    have hlt' := hus.length_lt right.ne_nil
    refine ⟨.binary op tree tree', m, WidthTree.resolve_binary.mpr ⟨_, _, htree, htree', rfl⟩,
      by omega, ?_⟩
    rw [hsum, widthTerms_succ, chain_next hmark (sumOperator_mark hop) hproduct]

/-! ### Types -/

/-- The next character closes a part of a field. -/
def Closes (cs : List Char) : Prop := ∃ c tail, skip cs = c :: tail ∧ (c = ',' ∨ c = ']')

theorem Closes.ends_product {cs : List Char} (h : Closes cs) : Ends productOperator cs := by
  obtain ⟨c, tail, hskip, rfl | rfl⟩ := h <;> exact ends_of_skip hskip rfl

theorem Closes.ends_sum {cs : List Char} (h : Closes cs) : Ends sumOperator cs := by
  obtain ⟨c, tail, hskip, rfl | rfl⟩ := h <;> exact ends_of_skip hskip rfl

theorem pathSegments_stop {cs : List Char} (h : Closes cs) (n : Nat) :
    pathSegments n cs = ([], cs) := by
  obtain ⟨c, tail, hskip, hc⟩ := h
  cases n with
  | zero => rfl
  | succ n => rcases hc with rfl | rfl <;> simp [pathSegments, hskip, pathSeparator]

theorem pathSeparator_of_reads {separator : Token} {cs rest : List Char} {ts : List Token}
    (hkind : separator = .mark '.' ∨ separator = .scope) (h : Reads cs (separator :: ts) rest) :
    ∃ mid, pathSeparator (skip cs) = some mid ∧ Reads mid ts rest := by
  cases h with
  | cons head tail =>
    rcases hkind with rfl | rfl
    · exact ⟨_, by rw [eq_cons_of_munch head]; rfl, tail⟩
    · exact ⟨_, by rw [eq_scope_of_munch head]; rfl, tail⟩

theorem PathForm.complete {ts : List Token} {ids : List String} (h : PathForm ts ids)
    {cs rest : List Char} {n : Nat} (hreads : Reads cs ts rest) (hrest : Closes rest)
    (hn : ts.length ≤ n + 1) :
    ∃ id ids' mid, ids = id :: ids' ∧ identifier (skip cs) = some (id, mid) ∧
      pathSegments n mid = (ids', rest) := by
  induction h generalizing cs n with
  | single id =>
    obtain ⟨mid, hid, htail⟩ := hreads.name_inv
    obtain rfl := htail.nil_inv
    exact ⟨id, [], mid, rfl, hid, pathSegments_stop hrest n⟩
  | @segment id separator ts ids hkind hmore ih =>
    obtain ⟨mid, hid, htail⟩ := hreads.name_inv
    obtain ⟨after, hseparator, hafter⟩ := pathSeparator_of_reads hkind htail
    simp only [List.length_cons] at hn
    obtain ⟨n, rfl⟩ : ∃ k, n = k + 1 := ⟨n - 1, by omega⟩
    obtain ⟨id', ids', mid', rfl, hid', hsegments⟩ := ih (n := n) hafter (by omega)
    exact ⟨id, id' :: ids', mid, rfl, hid, by simp [pathSegments, hseparator, hid', hsegments]⟩

theorem typeTree_named {n : Nat} {cs mid : List Char} {id : String}
    (h : identifier cs = some (id, mid)) :
    typeTree (n + 1) cs =
      some (.named (id :: (pathSegments n mid).1), (pathSegments n mid).2) := by
  have hne : ∀ {c tail}, lead c ≠ .name → cs ≠ c :: tail := by
    rintro c tail hc rfl
    simp [identifier_eq_none hc] at h
  unfold typeTree
  split
  · exact absurd rfl (hne (by decide))
  · exact absurd rfl (hne (by decide))
  · exact absurd rfl (hne (by decide))
  · simp [h]

theorem typeTree_slice {n : Nat} {mid after : List Char} (h : skip mid = ']' :: after) :
    typeTree (n + 1) ('[' :: mid) =
      (typeTree n (skip after)).map fun (t, rest) => (.slice t, rest) := by
  simp [typeTree, h]

theorem typeTree_array {n : Nat} {digits mid after rest : List Char}
    (hnumber : number (skip mid) = some (digits, after)) (h : skip after = ']' :: rest) :
    typeTree (n + 1) ('[' :: mid) =
      (typeTree n (skip rest)).map fun (t, rest) => (.array digits t, rest) := by
  simp only [typeTree]
  split
  · rename_i tail hskip
    rw [hskip, number_eq_none (by decide)] at hnumber
    simp at hnumber
  · simp [hnumber, h]

theorem TypeForm.complete {ts : List Token} {t : TypeExpr} (h : TypeForm ts t)
    {cs rest : List Char} {n : Nat} (hreads : Reads cs ts rest) (hrest : Closes rest)
    (hn : ts.length ≤ n) :
    ∃ tree, tree.resolve = .ok t ∧ typeTree n (skip cs) = some (tree, rest) := by
  induction h generalizing cs n with
  | @named ts path hpath =>
    have hpos := List.length_pos_of_ne_nil hpath.ne_nil
    obtain ⟨n, rfl⟩ : ∃ k, n = k + 1 := ⟨n - 1, by omega⟩
    obtain ⟨id, ids, mid, rfl, hid, hsegments⟩ := hpath.complete hreads hrest hn
    exact ⟨.named (id :: ids), rfl, by rw [typeTree_named hid, hsegments]⟩
  | @slice ts t element ih =>
    simp only [List.length_cons] at hn
    obtain ⟨n, rfl⟩ : ∃ k, n = k + 1 := ⟨n - 1, by omega⟩
    obtain ⟨mid, hopen, htail⟩ := hreads.mark_inv
    obtain ⟨after, hclose, helement⟩ := htail.mark_inv
    obtain ⟨tree, htree, hread⟩ := ih (n := n) helement (by omega)
    refine ⟨.slice tree, TypeTree.resolve_slice.mpr ⟨t, htree, rfl⟩, ?_⟩
    rw [hopen, typeTree_slice hclose, hread, Option.map_some]
  | @array m ts t hlt element ih =>
    simp only [List.length_cons] at hn
    obtain ⟨n, rfl⟩ : ∃ k, n = k + 1 := ⟨n - 1, by omega⟩
    obtain ⟨mid, hopen, htail⟩ := hreads.mark_inv
    obtain ⟨digits, after, hnumber, hvalue, htail⟩ := htail.number_inv
    obtain ⟨last, hclose, helement⟩ := htail.mark_inv
    obtain ⟨tree, htree, hread⟩ := ih (n := n) helement (by omega)
    refine ⟨.array digits tree, TypeTree.resolve_array.mpr ⟨m, t, hvalue, hlt, htree, rfl⟩, ?_⟩
    rw [hopen, typeTree_array hnumber hclose, hread, Option.map_some]
  | @pointer ts t target ih =>
    simp only [List.length_cons] at hn
    obtain ⟨n, rfl⟩ : ∃ k, n = k + 1 := ⟨n - 1, by omega⟩
    obtain ⟨mid, hstar, htail⟩ := hreads.mark_inv
    obtain ⟨tree, htree, hread⟩ := ih (n := n) htail (by omega)
    refine ⟨.pointer tree, TypeTree.resolve_pointer.mpr ⟨t, htree, rfl⟩, ?_⟩
    simp [hstar, typeTree, hread]
  | constant value =>
    simp only [List.length_cons] at hn
    obtain ⟨n, rfl⟩ : ∃ k, n = k + 1 := ⟨n - 1, by omega⟩
    cases hreads with
    | cons head tail =>
      obtain rfl := tail.nil_inv
      have hquoted := quotedText_of_munch head
      obtain ⟨body, _, hcs, _⟩ := quotedText_eq_some.mp hquoted
      refine ⟨.constant value, rfl, ?_⟩
      rw [hcs] at hquoted ⊢
      simp [typeTree, hquoted]

/-! ### Fields -/

/-- The tokens start with the mark that closes a part of a field. -/
def ClosingTokens (ts : List Token) : Prop :=
  ∃ c us, ts = .mark c :: us ∧ (c = ',' ∨ c = ']')

theorem ClosingTokens.closes {ts : List Token} {cs rest : List Char} (hts : ClosingTokens ts)
    (h : Reads cs ts rest) : Closes cs := by
  obtain ⟨c, us, rfl, hc⟩ := hts
  obtain ⟨mid, hskip, _⟩ := h.mark_inv
  exact ⟨c, mid, hskip, hc⟩

/-- An optional part is read where it is there, and nothing where it is not. -/
theorem attempt_complete {α β : Type} {read : List Char → Option (α × List Char)}
    {resolve : α → Except SyntaxError β} {form : List Token → β → Prop} {cs after : List Char}
    {ts us : List Token} {ob : Option β}
    (hread : ∀ {b rest}, form ts b → Reads cs ts rest → Closes rest →
      ∃ a, resolve a = .ok b ∧ read (skip cs) = some (a, rest))
    (hnone : ∀ {c tail}, c = ',' ∨ c = ']' → read (c :: tail) = none)
    (hform : Optional form ts ob) (h : Reads cs (ts ++ us) after) (hus : ClosingTokens us) :
    (attempt read (skip cs)).1.mapM resolve = .ok ob ∧
      Reads (attempt read (skip cs)).2 us after := by
  cases hform with
  | absent =>
    obtain ⟨c, tail, hskip, hc⟩ := hus.closes h
    obtain ⟨_, _, rfl, _⟩ := hus
    simp only [attempt, hskip, hnone hc]
    exact ⟨rfl, h.of_skip (by rw [← hskip, skip_skip]) (by simp)⟩
  | present hb =>
    obtain ⟨mid, hts, hmore⟩ := h.split
    obtain ⟨a, ha, hcs⟩ := hread hb hts (hus.closes hmore)
    simp only [attempt, hcs]
    exact ⟨option_mapM_eq_ok.mpr (Or.inr ⟨a, _, rfl, ha, rfl⟩), hmore⟩

theorem widthAtom_closing {c : Char} (hc : c = ',' ∨ c = ']') (n : Nat) (tail : List Char) :
    widthAtom n (c :: tail) = none := by
  cases n with
  | zero => rfl
  | succ n =>
    have hnumber : number (c :: tail) = none := number_eq_none (by rcases hc with rfl | rfl <;> decide)
    have hid : identifier (c :: tail) = none :=
      identifier_eq_none (by rcases hc with rfl | rfl <;> decide)
    rcases hc with rfl | rfl <;> simp [widthAtom, hnumber, hid]

theorem widthSum_closing {c : Char} (hc : c = ',' ∨ c = ']') (n : Nat) (tail : List Char) :
    widthSum n (c :: tail) = none := by
  cases n with
  | zero => rfl
  | succ n =>
    cases n with
    | zero => rfl
    | succ n => simp [widthSum, widthProduct, widthAtom_closing hc]

theorem typeTree_closing {c : Char} (hc : c = ',' ∨ c = ']') (n : Nat) (tail : List Char) :
    typeTree n (c :: tail) = none := by
  cases n with
  | zero => rfl
  | succ n =>
    have hid : identifier (c :: tail) = none :=
      identifier_eq_none (by rcases hc with rfl | rfl <;> decide)
    rcases hc with rfl | rfl <;> simp [typeTree, hid]

theorem typeBehind_complete {cs after : List Char} {ts us : List Token} {type : Option TypeExpr}
    (hform : Optional TypeForm ts type) (h : Reads cs (ts ++ us) after) (hus : ClosingTokens us) :
    (typeBehind cs).1.mapM TypeTree.resolve = .ok type ∧ Reads (typeBehind cs).2 us after := by
  have hlen := h.length_le
  rw [List.length_append] at hlen
  refine attempt_complete (fun hb hts hrest => hb.complete hts hrest ?_)
    (fun hc => typeTree_closing hc _ _) hform h hus
  rw [depthBound]
  omega

theorem widthBehind_complete {cs after : List Char} {ts us : List Token} {width : Option Width}
    (hform : Optional (WidthForm .sum) ts width) (h : Reads cs (ts ++ us) after)
    (hus : ClosingTokens us) :
    (widthBehind cs).1.mapM WidthTree.resolve = .ok width ∧
      Reads (widthBehind cs).2 us after := by
  refine attempt_complete (fun {w rest} hw hts hrest => ?_) (fun hc => widthSum_closing hc _ _)
    hform h hus
  have hle := skip_length_le cs
  obtain ⟨tree, m, htree, hm, hsum⟩ := hw.complete hts hrest.ends_product
    (show 4 * (skip cs).length + 3 ≤ depthBound cs by rw [depthBound]; omega)
  exact ⟨tree, htree, by rw [hsum, widthTerms_stop (by omega) hrest.ends_sum]⟩

/-- A name is a word of letters and digits. -/
theorem run_of_identifier {cs rest : List Char} {id : String}
    (h : identifier cs = some (id, rest)) : run isAlphanumeric cs = some (id.toList, rest) := by
  cases cs with
  | nil => simp [identifier] at h
  | cons c cs =>
    simp only [identifier] at h
    split at h
    · rename_i hc
      have halnum : isAlphanumeric c = true := by simp [isAlphanumeric, hc]
      simp only [Option.some.injEq, Prod.mk.injEq] at h
      obtain ⟨rfl, rfl⟩ := h
      simp [run, halnum]
    · simp at h

theorem typePart_complete (p : Place) {cs after : List Char} {us : List Token}
    {type : Option TypeExpr} {e : Endian} (hform : TailForm us type e)
    (h : Reads cs (us ++ [.mark ']']) after) :
    (typePart (skip cs)).1.mapM TypeTree.resolve = .ok type ∧
      resolveEndian p (typePart (skip cs)).2.1 = .ok e ∧
      skip (typePart (skip cs)).2.2 = ']' :: after := by
  cases hform with
  | absent =>
    obtain ⟨mid, hskip, hnil⟩ := h.mark_inv
    obtain rfl := hnil.nil_inv
    rw [typePart_absent (by simp [hskip])]
    exact ⟨rfl, rfl, by rw [skip_skip, hskip]⟩
  | @type ts _ htype =>
    obtain ⟨inner, hcomma, hinner⟩ := h.mark_inv
    obtain ⟨htree, hclose⟩ := typeBehind_complete htype hinner ⟨']', [], rfl, Or.inr rfl⟩
    obtain ⟨mid, hskip, hnil⟩ := hclose.mark_inv
    obtain rfl := hnil.nil_inv
    rw [hcomma, typePart_type (by simp [hskip])]
    exact ⟨htree, rfl, hskip⟩
  | @endian ts us _ _ htype horder =>
    simp only [List.cons_append, List.append_assoc] at h
    obtain ⟨inner, hcomma, hinner⟩ := h.mark_inv
    obtain ⟨htree, hmore⟩ := typeBehind_complete htype hinner ⟨',', _, rfl, Or.inl rfl⟩
    obtain ⟨mid, hsecond, hmid⟩ := hmore.mark_inv
    rw [hcomma]
    -- With a byte order, the word behind the second comma is its name.
    have hname : ∀ {id}, Reads mid (.name id :: [.mark ']']) after → ∃ rest,
        typePart (',' :: inner) = ((typeBehind inner).1, some (id.toList, rest), rest) ∧
          skip rest = ']' :: after := by
      intro id hreads
      obtain ⟨rest, hid, hclose⟩ := hreads.name_inv
      obtain ⟨last, hskip, hnil⟩ := hclose.mark_inv
      obtain rfl := hnil.nil_inv
      exact ⟨rest, typePart_endian hsecond (run_of_identifier hid), hskip⟩
    cases horder with
    | absent =>
      obtain ⟨last, hskip, hnil⟩ := hmid.mark_inv
      obtain rfl := hnil.nil_inv
      have hrun : run isAlphanumeric (skip mid) = none := by
        rw [hskip]
        rfl
      rw [typePart_bare hsecond hrun]
      exact ⟨htree, rfl, hskip⟩
    | little =>
      obtain ⟨rest, hpart, hskip⟩ := hname hmid
      rw [hpart]
      exact ⟨htree, rfl, hskip⟩
    | big =>
      obtain ⟨rest, hpart, hskip⟩ := hname hmid
      rw [hpart]
      exact ⟨htree, rfl, hskip⟩

theorem TailForm.closing {us : List Token} {type : Option TypeExpr} {e : Endian}
    (h : TailForm us type e) : ClosingTokens (us ++ [.mark ']']) := by
  cases h with
  | absent => exact ⟨']', [], rfl, Or.inr rfl⟩
  | type _ => exact ⟨',', _, rfl, Or.inl rfl⟩
  | endian _ _ => exact ⟨',', _, rfl, Or.inl rfl⟩

theorem FieldForm.complete (p : Place) {ts : List Token} {f : FieldSyntax} (h : FieldForm ts f)
    {cs rest : List Char} (hreads : Reads cs ts rest) :
    ∃ tree f', fieldTree (skip cs) = some (tree, rest) ∧ tree.resolve p = .ok f' ∧
      f'.content = f.content := by
  cases h with
  | @intro ws us _ hwidth htail hgiven =>
    obtain ⟨mid, hid, hmid⟩ := hreads.name_inv
    obtain ⟨inner, hopen, hinner⟩ := hmid.mark_inv
    obtain ⟨hwidth', hrest⟩ := widthBehind_complete hwidth hinner htail.closing
    obtain ⟨htype, hendian, hclose⟩ := typePart_complete p htail hrest
    refine ⟨_, ⟨p.span (skip cs) rest, f.id, f.width, f.type, f.endian⟩,
      fieldTree_eq_some.mpr ⟨_, _, _, hid, hopen, hclose, rfl⟩, ?_, rfl⟩
    exact resolve_field_eq_ok.mpr ⟨rfl, rfl, hwidth', htype, hendian, hgiven⟩

/-! ### Directives -/

/-- The end of a directive: maybe a semicolon, and then only spacing. -/
def Final (stop : List Token) (last : List Char) : Prop :=
  (stop = [] ∨ stop = [.mark ';']) ∧ skip last = []

theorem Final.skip_cases {stop : List Token} {cs last : List Char} (h : Final stop last)
    (hreads : Reads cs stop last) : skip cs = [] ∨ skip cs = ';' :: last := by
  obtain ⟨rfl | rfl, hlast⟩ := h
  · obtain rfl := hreads.nil_inv
    exact Or.inl hlast
  · obtain ⟨mid, hskip, hnil⟩ := hreads.mark_inv
    obtain rfl := hnil.nil_inv
    exact Or.inr hskip

theorem Final.identifier_eq_none {stop : List Token} {cs last : List Char} (h : Final stop last)
    (hreads : Reads cs stop last) : identifier (skip cs) = none := by
  rcases h.skip_cases hreads with hskip | hskip
  · rw [hskip]
    rfl
  · rw [hskip]
    exact Directive.identifier_eq_none (by decide)

theorem Final.isComplete {stop : List Token} {last : List Char} {h : Head}
    (hfinal : Final stop last) (hreads : Reads h.rest stop last) : h.isComplete = true := by
  unfold Head.isComplete
  rcases hfinal.skip_cases hreads with hskip | hskip
  · simp [hskip]
  · simp [hskip, hfinal.2]

theorem FieldsForm.complete (p : Place) {ts stop : List Token} {fields : List FieldSyntax}
    (h : FieldsForm ts fields) {cs last : List Char} {n : Nat}
    (hreads : Reads cs (ts ++ stop) last) (hfinal : Final stop last) (hn : ts.length ≤ n) :
    ∃ fields', (fieldTrees n cs).1.mapM (FieldTree.resolve p) = .ok fields' ∧
      fields'.map (·.content) = fields.map (·.content) ∧ Reads (fieldTrees n cs).2 stop last := by
  induction h generalizing cs n with
  | nil =>
    have hnone : fieldTree (skip cs) = none := by
      simp [fieldTree, hfinal.identifier_eq_none hreads]
    cases n with
    | zero => exact ⟨[], rfl, rfl, hreads⟩
    | succ n =>
      simp only [fieldTrees, hnone]
      exact ⟨[], rfl, rfl, hreads⟩
  | @cons ts us f fs head tail ih =>
    have hpos := List.length_pos_of_ne_nil head.ne_nil
    rw [List.length_append] at hn
    obtain ⟨n, rfl⟩ : ∃ k, n = k + 1 := ⟨n - 1, by omega⟩
    rw [List.append_assoc] at hreads
    obtain ⟨mid, hts, hmore⟩ := hreads.split
    obtain ⟨tree, f', htree, hresolve, hf⟩ := head.complete p hts
    obtain ⟨fs', hresolves, hfs, hrest⟩ := ih (n := n) hmore (by omega)
    simp only [fieldTrees, htree]
    exact ⟨f' :: fs', mapM_cons_eq_ok.mpr ⟨f', fs', hresolve, hresolves, rfl⟩,
      by simp [hf, hfs], hrest⟩

/-- A name that opens a field is not the name of the record. -/
theorem recordName_eq_none {ts stop : List Token} {fields : List FieldSyntax}
    (h : FieldsForm ts fields) {cs last : List Char} (hreads : Reads cs (ts ++ stop) last)
    (hfinal : Final stop last) : recordName (skip cs) = none := by
  cases h with
  | nil => simp [recordName, hfinal.identifier_eq_none hreads]
  | cons head tail =>
    cases head with
    | intro _ _ _ =>
      obtain ⟨mid, hid, hmid⟩ := hreads.name_inv
      obtain ⟨inner, hopen, _⟩ := hmid.mark_inv
      simp [recordName, hid, hopen]

/-- What follows the name of the record opens no field with it. -/
theorem skip_ne_bracket {ts stop : List Token} {fields : List FieldSyntax}
    (h : FieldsForm ts fields) {cs last : List Char} (hreads : Reads cs (ts ++ stop) last)
    (hfinal : Final stop last) (tail : List Char) : skip cs ≠ '[' :: tail := by
  intro hskip
  cases h with
  | nil => rcases hfinal.skip_cases hreads with hend | hend <;> simp [hskip] at hend
  | cons head tail =>
    cases head with
    | intro _ _ _ =>
      obtain ⟨mid, hid, _⟩ := hreads.name_inv
      rw [hskip, identifier_eq_none (by decide)] at hid
      simp at hid

theorem NameForm.complete {ns ts stop : List Token} {id : String} {fields : List FieldSyntax}
    (h : NameForm ns id) (hfields : FieldsForm ts fields) {cs last : List Char}
    (hreads : Reads cs (ns ++ (ts ++ stop)) last) (hfinal : Final stop last) :
    (attempt recordName (skip cs)).1.getD anonymous = id ∧
      ∃ last', Reads (attempt recordName (skip cs)).2 (ts ++ stop) last' ∧ Final stop last' := by
  cases h with
  | absent =>
    simp only [attempt, recordName_eq_none hfields hreads hfinal]
    refine ⟨rfl, ?_⟩
    cases htokens : ts ++ stop with
    | nil =>
      rw [List.nil_append, htokens] at hreads
      obtain rfl := hreads.nil_inv
      exact ⟨skip cs, .nil, hfinal.1, by rw [skip_skip, hfinal.2]⟩
    | cons t us =>
      rw [List.nil_append, htokens] at hreads
      exact ⟨last, hreads.of_skip (skip_skip cs).symm (by simp), hfinal⟩
  | given id =>
    obtain ⟨mid, hid, hmid⟩ := hreads.name_inv
    have hname : recordName (skip cs) = some (id, mid) := by
      simp only [recordName, hid]
      split
      · rename_i tail hskip
        exact absurd hskip (skip_ne_bracket hfields hmid hfinal tail)
      · rfl
    simp only [attempt, hname]
    exact ⟨rfl, last, hmid, hfinal⟩

/-- A text that writes a directive is accepted, and what is returned declares the same. -/
theorem parse_of_renders (file : Nat) {text : String} {d : Directive} (h : Renders text d) :
    ∃ d', Directive.parse file text = .ok d' ∧ d'.content = d.content := by
  obtain ⟨ts, hlexes, hform⟩ := h
  obtain ⟨last, hreads, hlast⟩ := lexes_iff.mp hlexes
  cases hform with
  | @intro ns fs stop _ hname hfields hstop =>
    have hlen := hreads.length_le
    simp only [List.length_append] at hlen
    obtain ⟨hid, last', hreads', hfinal⟩ := hname.complete hfields hreads ⟨hstop, hlast⟩
    obtain ⟨fields', hresolve, hcontent, hrest⟩ := hfields.complete ⟨file, text.toList⟩ hreads'
      hfinal (show fs.length ≤ text.toList.length by omega)
    have hcomplete : (Head.read text.toList).isComplete = true := hfinal.isComplete hrest
    refine ⟨⟨(Place.mk file text.toList).span text.toList [], d.id, fields'⟩, ?_, ?_⟩
    · simp only [Directive.parse, hcomplete, if_true]
      exact Head.resolve_eq_ok.mpr ⟨rfl, hid.symm, hresolve⟩
    · simp [content, hcontent]

end WireRecords.Directive
