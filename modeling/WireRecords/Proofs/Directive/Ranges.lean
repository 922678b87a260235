import WireRecords.Proofs.Compilation
import WireRecords.Proofs.Directive.Boundary
import WireRecords.Proofs.Directive.Locality

/-!
# Spans delimit what is parsed

The span of a directive is its text, and the spans of the fields are disjoint stretches of it, in
the order of the fields. The characters of such a stretch are those of the field and no others: cut
out of the text, they are a directive without a name that declares the field alone.
-/
namespace WireRecords

open Text

/-- The part of a text that a span covers. -/
def Span.slice (s : Span) (text : String) : String :=
  String.Pos.Raw.extract text ⟨s.start.offset⟩ ⟨s.stop.offset⟩

namespace Directive

/-! ### Where fields are read -/

theorem fieldTree_ends {cs rest : List Char} {tree : FieldTree}
    (h : fieldTree cs = some (tree, rest)) : tree.start = cs ∧ tree.rest = rest := by
  obtain ⟨_, _, _, _, _, _, rfl⟩ := fieldTree_eq_some.mp h
  exact ⟨rfl, rfl⟩

/-- Each field is read where it starts, and the next ones start behind it. -/
theorem fieldTrees_placed (n : Nat) (cs : List Char) :
    (∀ tree ∈ (fieldTrees n cs).1, tree.start <:+ cs ∧
      fieldTree tree.start = some (tree, tree.rest)) ∧
      (fieldTrees n cs).1.Pairwise fun a b => b.start <:+ a.rest := by
  induction n generalizing cs with
  | zero => simp [fieldTrees]
  | succ n ih =>
    simp only [fieldTrees]
    split
    · rename_i tree rest hfield
      obtain ⟨hstart, hrest⟩ := fieldTree_ends hfield
      obtain ⟨hplaced, hpairs⟩ := ih rest
      have hbehind : rest <:+ cs := (fieldTree_within hfield).1.trans (skip_suffix cs)
      refine ⟨?_, List.pairwise_cons.mpr ⟨?_, hpairs⟩⟩
      · intro t ht
        rcases List.mem_cons.mp ht with rfl | ht
        · exact ⟨hstart ▸ skip_suffix cs, by rw [hstart, hrest, hfield]⟩
        · exact ⟨(hplaced t ht).1.trans hbehind, (hplaced t ht).2⟩
      · intro t ht
        rw [hrest]
        exact (hplaced t ht).1
    · simp

theorem Head.read_placed (cs : List Char) :
    (∀ tree ∈ (Head.read cs).fields, tree.start <:+ cs ∧
      fieldTree tree.start = some (tree, tree.rest)) ∧
      (Head.read cs).fields.Pairwise fun a b => b.start <:+ a.rest := by
  obtain ⟨hplaced, hpairs⟩ := fieldTrees_placed cs.length (attempt recordName (skip cs)).2
  refine ⟨fun tree htree => ⟨?_, (hplaced tree htree).2⟩, hpairs⟩
  exact ((Head.read_within cs).2 tree htree).start

/-! ### A field alone -/

/-- The name of a field that is read opens its characters. -/
theorem fieldTree_id {pre rest : List Char} {tree : FieldTree}
    (h : fieldTree (pre ++ ']' :: rest) = some (tree, rest)) : tree.id.toList <+: pre := by
  obtain ⟨id, mid, _, hid, _, _, rfl⟩ := fieldTree_eq_some.mp h
  obtain ⟨p, rfl, _, _⟩ := (identifier_local pre).of_some le_rfl hid
  have happend := run_append (run_of_identifier hid)
  exact ⟨p, (List.append_left_inj (']' :: rest)).mp (by simpa using happend)⟩

@[simp] theorem fieldTrees_nil (n : Nat) : fieldTrees n [] = ([], []) := by
  cases n <;> rfl

theorem Head.read_field {cs : List Char} {tree : FieldTree}
    (h : fieldTree cs = some (tree, [])) : Head.read cs = ⟨none, [tree], []⟩ := by
  obtain ⟨id, mid, inner, hid, hopen, _, _⟩ := fieldTree_eq_some.mp h
  have hskip : skip cs = cs := (identifier_munch hid).skip_eq
  have hname : recordName cs = none := by simp [recordName, hid, hopen]
  obtain ⟨n, hn⟩ : ∃ n, cs.length = n + 1 :=
    Nat.exists_eq_add_one.mpr ((Nat.zero_le _).trans_lt (identifier_munch hid).length_lt)
  simp [Head.read, attempt, hskip, hname, hn, fieldTrees, h]

/-- What a field resolves to depends on what is written only. -/
theorem resolve_of_content {p : Place} {tree tree' : FieldTree} {f : FieldSyntax}
    (h : tree.resolve p = .ok f) (hcontent : tree'.content = tree.content) (q : Place) :
    ∃ g, tree'.resolve q = .ok g ∧ g.content = f.content := by
  obtain ⟨_, hid, hwidth, htype, hendian, hgiven⟩ := resolve_field_eq_ok.mp h
  simp only [FieldTree.content, Prod.mk.injEq] at hcontent
  obtain ⟨hid', hwidth', htype', hword⟩ := hcontent
  refine ⟨⟨q.span tree'.start tree'.rest, f.id, f.width, f.type, f.endian⟩,
    resolve_field_eq_ok.mpr ⟨rfl, hid.trans hid'.symm, by rw [hwidth', hwidth],
      by rw [htype', htype], ?_, hgiven⟩, rfl⟩
  cases hmark : tree.endian with
  | none =>
    obtain hmark' : tree'.endian = none := by simpa [hmark] using hword
    simpa [hmark, hmark', resolveEndian] using hendian
  | some r =>
    obtain ⟨r', hr', hr⟩ : ∃ r', tree'.endian = some r' ∧ r'.1 = r.1 := by
      simpa [hmark, Option.map_eq_some_iff] using hword
    rw [hmark] at hendian
    simp only [resolveEndian, hr', hr] at hendian ⊢
    split at hendian
    · exact hendian
    · simp at hendian

/-- The characters of a field are a directive of its own. -/
theorem parse_field {p : Place} {pre rest : List Char} {tree : FieldTree} {f : FieldSyntax}
    (hread : fieldTree (pre ++ ']' :: rest) = some (tree, rest)) (h : tree.resolve p = .ok f)
    (file : Nat) : ∃ d g, Directive.parse file (String.ofList (pre ++ [']'])) = .ok d ∧
      d.id = anonymous ∧ d.fields = [g] ∧ g.content = f.content := by
  obtain ⟨tree', hread', hcontent⟩ := fieldTree_local hread []
  let q : Place := ⟨file, pre ++ [']']⟩
  obtain ⟨g, hg, hgf⟩ := resolve_of_content h hcontent q
  refine ⟨⟨q.span q.text [], anonymous, [g]⟩, g, ?_, rfl, rfl, hgf⟩
  simp only [Directive.parse, String.toList_ofList, Head.read_field hread']
  exact Head.resolve_eq_ok.mpr
    ⟨rfl, rfl, mapM_cons_eq_ok.mpr ⟨g, [], hg, rfl, rfl⟩⟩

/-! ### Spans -/

theorem Place.span_offsets (p : Place) {before mid rest : List Char}
    (h : p.text = before ++ mid ++ rest) :
    (p.span (mid ++ rest) rest).start.offset = byteSize before ∧
      (p.span (mid ++ rest) rest).stop.offset = byteSize before + byteSize mid := by
  simp only [span, Span.ofOffsets, Position.offset_ofOffset, h, byteSize_append]
  omega

theorem Place.slice_span (p : Place) {before mid rest : List Char}
    (h : p.text = before ++ mid ++ rest) :
    (p.span (mid ++ rest) rest).slice (String.ofList p.text) = String.ofList mid := by
  obtain ⟨hstart, hstop⟩ := p.span_offsets h
  rw [Span.slice, hstart, hstop, byteSize_eq_utf8Len, byteSize_eq_utf8Len, h]
  exact String.extract_of_valid before mid rest

/-- The span of a field holds its characters: it is not empty, starts with the name of the field and
ends with the bracket that closes it, and what stands there declares the field and nothing else. -/
structure Delimited (text : String) (f : FieldSyntax) : Prop where
  nonempty : f.span.start.offset < f.span.stop.offset
  starts : f.id.toList <+: (f.span.slice text).toList
  ends : (f.span.slice text).toList.getLast? = some ']'
  parses : ∀ file, ∃ d g, Directive.parse file (f.span.slice text) = .ok d ∧ d.id = anonymous ∧
    d.fields = [g] ∧ g.content = f.content

theorem delimited_of_resolve {p : Place} {tree : FieldTree} {f : FieldSyntax}
    (hstart : tree.start <:+ p.text) (hread : fieldTree tree.start = some (tree, tree.rest))
    (h : tree.resolve p = .ok f) : Delimited (String.ofList p.text) f := by
  obtain ⟨hspan, hid, _⟩ := resolve_field_eq_ok.mp h
  obtain ⟨before, hbefore⟩ := hstart
  obtain ⟨pre, hpre⟩ := fieldTree_bracket hread
  rw [hpre] at hread
  have hsplit : tree.start = (pre ++ [']']) ++ tree.rest := by simp [hpre]
  have htext : p.text = before ++ (pre ++ [']']) ++ tree.rest := by
    simp [← hbefore, hsplit]
  have hslice : f.span.slice (String.ofList p.text) = String.ofList (pre ++ [']']) := by
    rw [hspan, hsplit]
    exact p.slice_span htext
  obtain ⟨hfrom, hto⟩ := p.span_offsets htext
  refine ⟨?_, ?_, ?_, fun file => ?_⟩
  · rw [hspan, hsplit, hfrom, hto, byteSize_append]
    simp [byteSize, Char.utf8Size_pos]
  · rw [hslice, hid, String.toList_ofList]
    exact (fieldTree_id hread).trans (List.prefix_append _ _)
  · simp [hslice]
  · rw [hslice]
    exact parse_field hread h file

/-- The spans of what is parsed delimit it: the directive's span is the whole text, the spans of the
fields lie in it one behind the other, and each of them holds just its field. -/
theorem spans_delimit_fields {file : Nat} {text : String} {d : Directive}
    (h : Directive.parse file text = .ok d) :
    d.span = Span.ofOffsets file (lineStarts text.toList) 0 text.utf8ByteSize ∧
      (∀ f ∈ d.fields, f.span.In file text.toList ∧ Delimited text f) ∧
      d.fields.Pairwise fun f g => f.span.stop.offset ≤ g.span.start.offset := by
  obtain ⟨-, hin⟩ := spans_of_parse h
  obtain ⟨hplaced, hpairs⟩ := Head.read_placed text.toList
  simp only [Directive.parse] at h
  split at h
  · obtain ⟨hspan, -, hfields⟩ := Head.resolve_eq_ok.mp h
    refine ⟨?_, fun f hf => ⟨hin f hf, ?_⟩, ?_⟩
    · rw [hspan, Place.span, byteSize_toList]
      simp [byteSize]
    · obtain ⟨tree, htree, hresolve⟩ := mem_of_mapM hfields hf
      obtain ⟨hstart, hread⟩ := hplaced tree htree
      simpa using delimited_of_resolve hstart hread hresolve
    · refine pairwise_of_mapM hfields hpairs fun {a b f g} hf hg hbehind => ?_
      rw [(resolve_field_eq_ok.mp hf).1, (resolve_field_eq_ok.mp hg).1]
      obtain ⟨gap, hgap⟩ := hbehind
      simp only [Place.span, Span.ofOffsets, Position.offset_ofOffset, ← hgap, byteSize_append]
      omega
  · simp at h

/-- Spacing of both kinds, a bracket and a letter of two bytes in a text, and a semicolon. -/
def spacedOut : String := " P\t a [ 1 , \"é]\" ] b[(a+0x2)*3 ,[ ]uint16 , BE];"

theorem spacedOut_parse : ∃ d ∈ (Directive.parse 3 spacedOut).toOption,
    d.fields.map (fun f => (f.id, f.span.start.offset, f.span.stop.offset)) =
      [("a", 4, 19), ("b", 20, 48)] := by
  decide +kernel

theorem spans_delimit_fields_spacedOut : ∃ d, Directive.parse 3 spacedOut = .ok d ∧
    d.span = Span.ofOffsets 3 (lineStarts spacedOut.toList) 0 49 ∧
      (∀ f ∈ d.fields, f.span.In 3 spacedOut.toList ∧ Delimited spacedOut f) ∧
      (d.fields.Pairwise fun f g => f.span.stop.offset ≤ g.span.start.offset) ∧
      d.fields.map (fun f => (f.id, f.span.start.offset, f.span.stop.offset)) =
        [("a", 4, 19), ("b", 20, 48)] := by
  obtain ⟨d, hd, hspans⟩ := spacedOut_parse
  have hparse : Directive.parse 3 spacedOut = .ok d := ok_of_toOption hd
  obtain ⟨hspan, hfields, hpairs⟩ := spans_delimit_fields hparse
  exact ⟨d, hparse, hspan, hfields, hpairs, hspans⟩

end Directive

end WireRecords
