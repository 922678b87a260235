import WireRecords.Proofs.Directive.Ranges
import WireRecords.Proofs.Lines

/-!
# Trailing text is all that is blamed

A text whose head is followed by something that opens no field is blamed for what follows, up to the
end. Without that, and without the white space before it, the text is a directive: the fields of the
head do not depend on what was removed, and neither does the name, since a name that opened a field
would have left a bracket in what is blamed.
-/
namespace WireRecords

open Text

namespace Directive

theorem isBlank_of_isSpacing {c : Char} (h : isSpacing c = true) : isBlank c = true := by
  have hc : c = ' ' ∨ c = '\t' := by simpa [isSpacing] using h
  rcases hc with rfl | rfl <;> decide

theorem isBlank_of_isAlphanumeric {c : Char} (h : isAlphanumeric c = true) :
    isBlank c = false := by
  have hcode : 48 ≤ c.toNat ∧ c.toNat ≤ 122 := by
    simp only [isAlphanumeric, isAlpha, isDigit, Bool.or_eq_true, Bool.and_eq_true,
      decide_eq_true_eq, beq_iff_eq, Char.le_def, UInt32.le_iff_toNat_le] at h
    have hlo : ('0' : Char).val.toNat = 48 := rfl
    have hhi : ('9' : Char).val.toNat = 57 := rfl
    have ha : ('a' : Char).val.toNat = 97 := rfl
    have hz : ('z' : Char).val.toNat = 122 := rfl
    have hA : ('A' : Char).val.toNat = 65 := rfl
    have hZ : ('Z' : Char).val.toNat = 90 := rfl
    rcases h with ((h | h) | rfl) | h
    · exact ⟨by simp only [Char.toNat]; omega, by simp only [Char.toNat]; omega⟩
    · exact ⟨by simp only [Char.toNat]; omega, by simp only [Char.toNat]; omega⟩
    · decide
    · exact ⟨by simp only [Char.toNat]; omega, by simp only [Char.toNat]; omega⟩
  simp only [isBlank, Bool.or_eq_false_iff, Bool.and_eq_false_iff, decide_eq_false_iff_not,
    beq_eq_false_iff_ne]
  omega

/-! ### The head without what follows it -/

theorem fieldTrees_eq_nil {n : Nat} {cs rest : List Char} (h : fieldTrees n cs = ([], rest)) :
    rest = cs := by
  cases n with
  | zero => simpa [fieldTrees] using h.symm
  | succ n =>
    simp only [fieldTrees] at h
    split at h
    · simp at h
    · simpa using h.symm

/-- Fields are read as far as before when the text ends behind them. -/
theorem fieldTrees_local {n : Nat} {cs rest : List Char} {tree : FieldTree}
    {trees : List FieldTree} (h : fieldTrees n cs = (tree :: trees, rest)) :
    ∃ pre, cs = pre ++ ']' :: rest ∧ ∀ m, pre.length < m →
      ∃ trees', fieldTrees m (pre ++ [']']) = (trees', []) ∧
        trees'.map (·.content) = (tree :: trees).map (·.content) := by
  induction n generalizing cs tree trees with
  | zero => simp [fieldTrees] at h
  | succ n ih =>
    simp only [fieldTrees] at h
    split at h
    · rename_i first mid hfirst
      simp only [Prod.mk.injEq, List.cons.injEq] at h
      obtain ⟨⟨rfl, htrees⟩, hrest⟩ := h
      -- The first field stands in `p`, up to its bracket.
      obtain ⟨q, hq⟩ := fieldTree_bracket hfirst
      obtain ⟨p, hp⟩ : ∃ p, cs = p ++ ']' :: mid := by
        obtain ⟨blank, hblank⟩ := skip_suffix cs
        exact ⟨blank ++ q, by rw [← hblank, hq, List.append_assoc]⟩
      obtain rfl : skip p = q := by
        rw [hp, skip_bracket] at hq
        exact List.append_cancel_right hq
      rw [hq] at hfirst
      have hread : ∀ m tail, ∃ first', first'.content = first.content ∧
          fieldTrees (m + 1) (p ++ ']' :: tail) =
            (first' :: (fieldTrees m tail).1, (fieldTrees m tail).2) := by
        intro m tail
        obtain ⟨first', hfirst', hcontent⟩ := fieldTree_local hfirst tail
        exact ⟨first', hcontent, by simp [fieldTrees, hfirst']⟩
      cases trees with
      | nil =>
        obtain rfl : rest = mid := fieldTrees_eq_nil (Prod.ext htrees hrest)
        refine ⟨p, hp, fun m hm => ?_⟩
        obtain ⟨m, rfl⟩ : ∃ k, m = k + 1 := ⟨m - 1, by omega⟩
        obtain ⟨first', hcontent, hfields⟩ := hread m []
        exact ⟨[first'], by rw [hfields, fieldTrees_nil], by simp [hcontent]⟩
      | cons second trees =>
        obtain ⟨pre, rfl, hmore⟩ := ih (Prod.ext htrees hrest)
        refine ⟨p ++ ']' :: pre, by simp [hp], fun m hm => ?_⟩
        simp only [List.length_append, List.length_cons] at hm
        obtain ⟨m, rfl⟩ : ∃ k, m = k + 1 := ⟨m - 1, by omega⟩
        obtain ⟨trees', htrees', hcontents⟩ := hmore m (by omega)
        obtain ⟨first', hcontent, hfields⟩ := hread m (pre ++ [']'])
        refine ⟨first' :: trees', ?_, by simp [hcontent, hcontents]⟩
        rw [List.append_assoc, List.cons_append, hfields, htrees']
    · simp at h

theorem recordName_local (pre : List Char) : Local (fun _ => recordName) 0 pre.length pre := by
  obtain ⟨found, hlen, hfound⟩ := identifier_local pre
  cases found with
  | none => exact local_none fun n rest hn => by simp [recordName, hfound n rest hn]
  | some q =>
    by_cases hopen : ∃ inner, skip q.2 = '[' :: inner
    · obtain ⟨inner, hinner⟩ := hopen
      exact local_none fun n rest hn => by simp [recordName, hfound n rest hn, hinner]
    · refine local_some q.1 q.2 (hlen q rfl) fun n rest hn => ?_
      simp only [recordName, hfound n rest hn, Option.map_some, skip_bracket]
      split
      · rename_i inner heq
        obtain ⟨mid, hmid, -⟩ := cons_of_bracket heq (.inl (by decide))
        exact absurd ⟨mid, hmid⟩ hopen
      · rfl

/-- The name of a record, if there is one, is read before the bracket. -/
theorem attempt_recordName_local (pre : List Char) : ∃ id mid, mid.length ≤ pre.length ∧
    ∀ rest, attempt recordName (pre ++ ']' :: rest) = (id, mid ++ ']' :: rest) := by
  obtain ⟨found, hlen, hfound⟩ := recordName_local pre
  cases found with
  | none => exact ⟨none, pre, le_rfl, fun rest => by simp [attempt, hfound 0 rest le_rfl]⟩
  | some q =>
    exact ⟨some q.1, q.2, (hlen q rfl).le, fun rest => by simp [attempt, hfound 0 rest le_rfl]⟩

theorem Head.read_eq {cs mid rest : List Char} {id : Option String} {trees : List FieldTree}
    (hname : attempt recordName (skip cs) = (id, mid))
    (hfields : fieldTrees cs.length mid = (trees, rest)) : Head.read cs = ⟨id, trees, rest⟩ := by
  simp only [Head.read, hname, hfields]

/-- `kept` is a head with the name and the fields of `h`, and nothing behind it. -/
structure Head.KeptBy (h : Head) (kept : List Char) : Prop where
  id : (Head.read kept).id = h.id
  fields : (Head.read kept).fields.map (·.content) = h.fields.map (·.content)
  rest : (Head.read kept).rest = []
  last : ∀ c ∈ kept.getLast?, isBlank c = false

/-- A head with fields, up to its last bracket. -/
theorem keptBy_of_fields {cs mid rest : List Char} {id : Option String} {tree : FieldTree}
    {trees : List FieldTree} (hname : attempt recordName (skip cs) = (id, mid))
    (hfields : fieldTrees cs.length mid = (tree :: trees, rest)) :
    ∃ kept, cs = kept ++ rest ∧ (Head.read cs).KeptBy kept := by
  have hread := Head.read_eq hname hfields
  obtain ⟨before, hbefore⟩ := attempt_recordName_suffix cs
  obtain ⟨p, rfl, hmore⟩ := fieldTrees_local hfields
  rw [hname] at hbefore
  obtain rfl : cs = (before ++ p) ++ ']' :: rest := by rw [← hbefore, List.append_assoc]
  generalize before ++ p = pre at hname hread
  rw [skip_bracket] at hname
  obtain ⟨id', mid', hlen, hname'⟩ := attempt_recordName_local (skip pre)
  obtain ⟨rfl, hmid⟩ := Prod.ext_iff.mp ((hname' rest).symm.trans hname)
  obtain rfl : mid' = p := List.append_cancel_right hmid
  have hskip := skip_length_le pre
  obtain ⟨trees', htrees', hcontents⟩ := hmore (pre ++ [']']).length (by
    simp only [List.length_append, List.length_cons]
    omega)
  have hread' := Head.read_eq (by rw [skip_bracket, hname' []]) htrees'
  refine ⟨pre ++ [']'], by simp, ?_, ?_, ?_, ?_⟩
  · rw [hread, hread']
  · rw [hread, hread']
    exact hcontents
  · rw [hread']
  · simp [show isBlank ']' = false by decide]

theorem recordName_of_attempt {cs rest : List Char} {name : String}
    (h : attempt recordName cs = (some name, rest)) : recordName cs = some (name, rest) := by
  unfold attempt at h
  split at h
  · simp_all
  · simp at h

/-- A name is read from its own characters. -/
theorem identifier_toList {cs rest : List Char} {name : String}
    (h : identifier cs = some (name, rest)) : identifier name.toList = some (name, []) := by
  obtain ⟨hname, -, -⟩ := run_eq_some.mp (run_of_identifier h)
  have hall : ∀ c ∈ name.toList, isAlphanumeric c = true := hname ▸ mem_takeWhile
  cases cs with
  | nil => simp [identifier] at h
  | cons c cs =>
    simp only [identifier] at h
    split at h
    · rename_i hc
      simp only [Option.some.injEq, Prod.mk.injEq] at h
      obtain ⟨rfl, -⟩ := h
      simp only [String.toList_ofList, List.mem_cons, forall_eq_or_imp] at hall
      rw [String.toList_ofList, identifier, if_pos hc, List.takeWhile_eq_self_iff.mpr hall.2,
        List.dropWhile_eq_nil_iff.mpr hall.2]
    · simp at h

/-- A head that is a name, up to the end of the name. -/
theorem keptBy_of_name {cs rest : List Char} {name : String}
    (hname : attempt recordName (skip cs) = (some name, rest))
    (hfields : fieldTrees cs.length rest = ([], rest)) :
    ∃ kept, cs = kept ++ rest ∧ (Head.read cs).KeptBy kept := by
  have hread := Head.read_eq hname hfields
  have hid := identifier_of_recordName (recordName_of_attempt hname)
  have halone := identifier_toList hid
  obtain ⟨htake, -, hne⟩ := run_eq_some.mp (run_of_identifier hid)
  have hskip : skip (cs.takeWhile isSpacing ++ name.toList) = name.toList := by
    rw [skip, List.dropWhile_append_of_pos mem_takeWhile]
    exact (identifier_munch halone).skip_eq
  have hread' : Head.read (cs.takeWhile isSpacing ++ name.toList) = ⟨some name, [], []⟩ := by
    refine Head.read_eq ?_ (fieldTrees_nil _)
    rw [hskip]
    simp [attempt, recordName, halone, skip]
  refine ⟨cs.takeWhile isSpacing ++ name.toList, ?_, ?_, ?_, ?_, ?_⟩
  · rw [List.append_assoc, run_append (run_of_identifier hid)]
    exact List.takeWhile_append_dropWhile.symm
  · rw [hread, hread']
  · rw [hread, hread']
  · rw [hread']
  · intro c hc
    rw [List.getLast?_append_of_ne_nil _ hne] at hc
    exact isBlank_of_isAlphanumeric (mem_takeWhile c (htake ▸ List.mem_of_getLast? hc))

/-- Without name and fields, nothing is kept. -/
theorem keptBy_of_nothing {cs rest : List Char}
    (hname : attempt recordName (skip cs) = (none, rest))
    (hfields : fieldTrees cs.length rest = ([], rest)) : (Head.read cs).KeptBy [] := by
  have hread := Head.read_eq hname hfields
  exact ⟨by rw [hread]; rfl, by rw [hread]; rfl, rfl, by simp⟩

/-- Every head can be cut off from what follows it. -/
theorem Head.exists_keptBy (cs : List Char) : ∃ kept blank,
    cs = kept ++ blank ++ (Head.read cs).rest ∧ (∀ c ∈ blank, isBlank c = true) ∧
      (Head.read cs).KeptBy kept := by
  obtain ⟨id, mid, hname⟩ : ∃ id mid, attempt recordName (skip cs) = (id, mid) := ⟨_, _, rfl⟩
  obtain ⟨trees, rest, hfields⟩ : ∃ trees rest, fieldTrees cs.length mid = (trees, rest) :=
    ⟨_, _, rfl⟩
  have hread := Head.read_eq hname hfields
  rw [show (Head.read cs).rest = rest by rw [hread]]
  cases trees with
  | cons tree trees =>
    obtain ⟨kept, hcs, hkept⟩ := keptBy_of_fields hname hfields
    exact ⟨kept, [], by simpa using hcs, by simp, hkept⟩
  | nil =>
    obtain rfl := fieldTrees_eq_nil hfields
    cases id with
    | some name =>
      obtain ⟨kept, hcs, hkept⟩ := keptBy_of_name hname hfields
      exact ⟨kept, [], by simpa using hcs, by simp, hkept⟩
    | none =>
      have hrest : rest = skip cs := by
        unfold attempt at hname
        split at hname
        · simp at hname
        · simpa using hname.symm
      refine ⟨[], cs.takeWhile isSpacing, ?_, fun c hc => ?_, keptBy_of_nothing hname hfields⟩
      · rw [hrest]
        exact List.takeWhile_append_dropWhile.symm
      · exact isBlank_of_isSpacing (mem_takeWhile c hc)

theorem Head.KeptBy.isComplete {h : Head} {kept : List Char} (hkept : h.KeptBy kept) :
    (Head.read kept).isComplete = true := by
  simp [Head.isComplete, hkept.rest, skip]

/-! ### What is blamed -/

theorem fault_eq_trailing {text : List Char} {h : Head} {start stop : Nat}
    (heq : h.fault text = .trailing start stop) : trimStart h.rest ≠ [] ∧
      start = byteSize text - byteSize (trimStart h.rest) ∧ stop = byteSize text := by
  simp only [Head.fault] at heq
  split at heq
  · rename_i hif
    simp only [SyntaxError.trailing.injEq] at heq
    simp only [Bool.and_eq_true, Bool.not_eq_true', List.isEmpty_eq_false_iff] at hif
    exact ⟨hif.1.1, heq.1.symm, heq.2.symm⟩
  · simp at heq

/-- A field is refused for its numbers, its byte order or what it leaves out. -/
theorem resolve_ne_trailing {p : Place} {tree : FieldTree} {start stop : Nat} :
    tree.resolve p ≠ .error (.trailing start stop) := by
  intro h
  obtain hwidth | ⟨_, _, h⟩ := bind_eq_error h
  · obtain ⟨w, _, hresolve⟩ := option_mapM_eq_error hwidth
    obtain ⟨_, _, _, heq⟩ := w.resolve_eq_error hresolve
    simp at heq
  obtain htype | ⟨_, _, h⟩ := bind_eq_error h
  · obtain ⟨t, _, hresolve⟩ := option_mapM_eq_error htype
    obtain ⟨_, _, _, heq⟩ := t.resolve_eq_error hresolve
    simp at heq
  obtain hendian | ⟨_, _, h⟩ := bind_eq_error h
  · unfold resolveEndian at hendian
    split at hendian
    · simp at hendian
    · split at hendian <;> simp at hendian
  split at h <;> simp at h

theorem fault_of_parse {file start stop : Nat} {text : String}
    (h : Directive.parse file text = .error (.trailing start stop)) :
    (Head.read text.toList).fault text.toList = .trailing start stop := by
  simp only [Directive.parse] at h
  split at h
  · obtain hfields | ⟨_, _, h⟩ := bind_eq_error h
    · obtain ⟨tree, _, hresolve⟩ := mem_of_mapM_eq_error hfields
      exact absurd hresolve resolve_ne_trailing
    · simp [pure, Except.pure] at h
  · exact Except.error.inj h

/-- A text that is refused for what trails it is blamed for that alone: the label goes from a
character that is no white space to the end, and what stands before it, up to the white space there,
is accepted by the grammar with the name and the fields that were read. -/
theorem trailing_text_blamed {file : Nat} {name text : String} {e : SyntaxError}
    (h : Directive.parse file text = .error e)
    (hcode : (e.diagnostic name file).code = some .missingTerminator) :
    ∃ before blamed : List Char, text.toList = before ++ blamed ∧
      (e.diagnostic name file).labels = [⟨true, file, byteSize before, text.utf8ByteSize,
        "unexpected trailing content"⟩] ∧
      (∃ c ∈ blamed.head?, isBlank c = false) ∧
      (Head.read (trimEnd before)).isComplete = true ∧
      (Head.read text.toList).KeptBy (trimEnd before) := by
  obtain ⟨start, stop, rfl⟩ : ∃ start stop, e = .trailing start stop := by
    cases e with
    | trailing start stop => exact ⟨start, stop, rfl⟩
    | _ => simp [SyntaxError.diagnostic] at hcode
  obtain ⟨hne, rfl, rfl⟩ := fault_eq_trailing (fault_of_parse h)
  obtain ⟨kept, blank, htext, hblank, hkept⟩ := Head.exists_keptBy text.toList
  generalize (Head.read text.toList).rest = rest at hne htext
  have hrest : rest = rest.takeWhile isBlank ++ trimStart rest :=
    List.takeWhile_append_dropWhile.symm
  have htrim : trimEnd (kept ++ (blank ++ rest.takeWhile isBlank)) = kept := by
    refine trimEnd_append (fun c hc => ?_) hkept.last
    rcases List.mem_append.mp hc with hc | hc
    · exact hblank c hc
    · exact mem_takeWhile c hc
  have hsplit : text.toList = (kept ++ (blank ++ rest.takeWhile isBlank)) ++ trimStart rest := by
    rw [htext]
    conv_lhs => rw [hrest]
    simp
  refine ⟨_, _, hsplit, ?_, ?_, ?_, ?_⟩
  · rw [← byteSize_toList]
    simp only [SyntaxError.diagnostic, hsplit, byteSize_append]
    congr
    omega
  · obtain ⟨c, cs, hcs⟩ := List.exists_cons_of_ne_nil hne
    refine ⟨c, by simp [hcs], ?_⟩
    have hhead := List.head?_dropWhile_not isBlank rest
    rw [← trimStart, hcs] at hhead
    simpa using hhead
  · rw [htrim]
    exact hkept.isComplete
  · rw [htrim]
    exact hkept

/-- A byte order that is none does not count: the grammar takes any word. Two kinds of white space
stand before what is blamed. -/
def unfinished : String := " P a[1] b [2,,XX]\t\u2003and é"

theorem trailing_text_blamed_unfinished :
    ∃ before blamed : List Char, unfinished.toList = before ++ blamed ∧
      ((SyntaxError.trailing 21 27).diagnostic "host.rs:1" 0).labels =
        [⟨true, 0, byteSize before, 27, "unexpected trailing content"⟩] ∧
      (∃ c ∈ blamed.head?, isBlank c = false) ∧
      (Head.read (trimEnd before)).isComplete = true ∧
      (Head.read unfinished.toList).KeptBy (trimEnd before) :=
  trailing_text_blamed
    (show Directive.parse 0 unfinished = .error (.trailing 21 27) by decide +kernel) rfl

end Directive

end WireRecords
