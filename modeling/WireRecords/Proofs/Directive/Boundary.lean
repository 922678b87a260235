import WireRecords.Proofs.Directive.Extent

/-!
# Offsets are boundaries

Every offset that is told about a text, in a span or by the recogniser, lies between two of its
characters. Spans start before they stop.
-/
namespace WireRecords

namespace Text

theorem byteSize_eq_utf8Len (cs : List Char) : byteSize cs = String.utf8Len cs := by
  induction cs with
  | nil => rfl
  | cons c cs ih => rw [byteSize, ih, String.utf8Len_cons, Nat.add_comm]

@[simp] theorem byteSize_append (cs ds : List Char) :
    byteSize (cs ++ ds) = byteSize cs + byteSize ds := by
  simp [byteSize_eq_utf8Len]

theorem byteSize_toList (text : String) : byteSize text.toList = text.utf8ByteSize := by
  rw [byteSize_eq_utf8Len, ← String.utf8ByteSize_ofList, String.ofList_toList]

/-- The number of bytes before some place in the text. -/
def Boundary (cs : List Char) (offset : Nat) : Prop :=
  ∃ before after, cs = before ++ after ∧ offset = byteSize before

variable {cs : List Char} {offset : Nat}

theorem Boundary.le (h : Boundary cs offset) : offset ≤ byteSize cs := by
  obtain ⟨before, after, rfl, rfl⟩ := h
  simp

theorem Boundary.isValid {text : String} (h : Boundary text.toList offset) :
    String.Pos.Raw.IsValid text ⟨offset⟩ := by
  obtain ⟨before, after, htext, rfl⟩ := h
  refine String.Pos.Raw.isValid_iff_exists_take_toList.mpr ⟨before.length, ?_⟩
  simp [htext, byteSize_eq_utf8Len, String.utf8ByteSize_ofList]

theorem boundary_zero (cs : List Char) : Boundary cs 0 := ⟨[], cs, rfl, rfl⟩

theorem boundary_of_suffix {rest : List Char} (h : rest <:+ cs) :
    Boundary cs (byteSize cs - byteSize rest) := by
  obtain ⟨before, rfl⟩ := h
  exact ⟨before, rest, rfl, by simp⟩

/-- The bytes from `start` to `stop` are characters of the text. -/
structure Stretch (cs : List Char) (start stop : Nat) : Prop where
  le : start ≤ stop
  start : Boundary cs start
  stop : Boundary cs stop

theorem stretch_of_suffix {start rest : List Char} (hstart : start <:+ cs)
    (hrest : rest <:+ start) :
    Stretch cs (byteSize cs - byteSize start) (byteSize cs - byteSize rest) := by
  refine ⟨?_, boundary_of_suffix hstart, boundary_of_suffix (hrest.trans hstart)⟩
  obtain ⟨before, rfl⟩ := hrest
  simp only [byteSize_append]
  omega

end Text

open Text

/-! ### Spans -/

theorem Position.offset_locate (offset : Nat) {found : Position} (h : found.offset = offset)
    (line : Nat) (starts : List Nat) : (locate offset found line starts).offset = offset := by
  induction starts generalizing found line with
  | nil => exact h
  | cons start starts ih =>
    simp only [locate]
    split
    · exact h
    · exact ih rfl (line + 1)

@[simp] theorem Position.offset_ofOffset (starts : List Nat) (offset : Nat) :
    (ofOffset starts offset).offset = offset :=
  offset_locate offset rfl 0 starts

/-- The span is a stretch of the directive numbered `file`. -/
structure Span.In (s : Span) (file : Nat) (cs : List Char) : Prop where
  file : s.file = file
  stretch : Stretch cs s.start.offset s.stop.offset

namespace Directive

theorem Place.span_in {p : Place} {start rest : List Char} (hstart : start <:+ p.text)
    (hrest : rest <:+ start) : (p.span start rest).In p.file p.text := by
  refine ⟨rfl, ?_⟩
  simpa [span, Span.ofOffsets] using stretch_of_suffix hstart hrest

theorem span_of_resolve {p : Place} {tree : FieldTree} {f : FieldSyntax}
    (htree : tree.Within p.text) (h : tree.resolve p = .ok f) : f.span.In p.file p.text := by
  rw [(resolve_field_eq_ok.mp h).1]
  exact p.span_in htree.start htree.rest

/-- The spans of a directive lie in its text. -/
theorem spans_of_parse {file : Nat} {text : String} {d : Directive}
    (h : Directive.parse file text = .ok d) :
    d.span.In file text.toList ∧ ∀ f ∈ d.fields, f.span.In file text.toList := by
  simp only [Directive.parse] at h
  split at h
  · obtain ⟨hspan, _, hfields⟩ := Head.resolve_eq_ok.mp h
    constructor
    · rw [hspan]
      exact Place.span_in (p := ⟨file, text.toList⟩) List.suffix_rfl (List.nil_suffix)
    · intro f hf
      obtain ⟨tree, htree, hres⟩ := mem_of_mapM hfields hf
      exact span_of_resolve ((Head.read_within text.toList).2 tree htree) hres
  · simp at h

/-! ### The recogniser -/

/-- The cursor stands in the text, at its offset. -/
def Cursor.At (k : Cursor) (cs : List Char) : Prop :=
  ∃ before, cs = before ++ k.rest ∧ k.offset = byteSize before

variable {cs : List Char}

theorem Cursor.At.boundary {k : Cursor} (h : k.At cs) : Boundary cs k.offset := by
  obtain ⟨before, hcs, hoffset⟩ := h
  exact ⟨before, k.rest, hcs, hoffset⟩

theorem Cursor.At.advance {k : Cursor} (h : k.At cs) (count : Nat) : (k.advance count).At cs := by
  obtain ⟨before, hcs, hoffset⟩ := h
  refine ⟨before ++ k.rest.take count, ?_, ?_⟩
  · simp [Cursor.advance, hcs]
  · simp [Cursor.advance, hoffset]

theorem Cursor.At.skip {k : Cursor} (h : k.At cs) : k.skip.At cs := h.advance _

theorem Attempts.boundary_track {a : Attempts} (h : Boundary cs a.offset) (r : Rule)
    {offset : Nat} (hoffset : Boundary cs offset) (before : Nat) :
    Boundary cs (a.track r offset before).offset := by
  unfold track
  split
  · exact h
  · split
    · exact hoffset
    · split
      · exact hoffset
      · exact h

/-- The attempts were made in the text, and the cursor stands in it. -/
structure Recognized (cs : List Char) (result : Attempts × Option Cursor) : Prop where
  attempts : Boundary cs result.1.offset
  cursor : ∀ k ∈ result.2, k.At cs

theorem recognized_some {a : Attempts} {k : Cursor} (ha : Boundary cs a.offset) (hk : k.At cs) :
    Recognized cs (a, some k) := ⟨ha, by simpa using hk⟩

theorem recognized_none {a : Attempts} (ha : Boundary cs a.offset) : Recognized cs (a, none) :=
  ⟨ha, by simp⟩

/-- A result that is taken apart into the two ways it can come out. -/
theorem Recognized.elim {result next : Attempts × Option Cursor} (h : Recognized cs result)
    (hsome : ∀ {a k}, Boundary cs a.offset → k.At cs → result = (a, some k) → Recognized cs next)
    (hnone : ∀ {a}, Boundary cs a.offset → result = (a, none) → Recognized cs next) :
    Recognized cs next := by
  obtain ⟨a, _ | k⟩ := result
  · exact hnone h.attempts rfl
  · exact hsome h.attempts (h.cursor k rfl) rfl

/-- Between two patterns the cursor may skip spacing. -/
theorem Cursor.At.between {k : Cursor} (hk : k.At cs) (inToken : Bool) :
    Cursor.At (if inToken then k else k.skip) cs := by
  split
  · exact hk
  · exact hk.skip

open Pattern in
/-- Recognition to a depth stays in the text. -/
structure Recognizes (cs : List Char) (depth : Nat) : Prop where
  pattern : ∀ inToken p {k a}, k.At cs → Boundary cs a.offset →
    Recognized cs (recognize depth inToken p k a)
  more : ∀ inToken body {k a}, k.At cs → Boundary cs a.offset →
    Recognized cs (recognize.more depth inToken body k a)

open Pattern in
theorem Recognizes.pattern_succ {depth : Nat} (h : Recognizes cs depth) (inToken : Bool)
    (p : Pattern) {k : Cursor} {a : Attempts} (hk : k.At cs) (ha : Boundary cs a.offset) :
    Recognized cs (recognize (depth + 1) inToken p k a) := by
  cases p with
  | text expected =>
    simp only [recognize]
    split
    · exact recognized_some ha (hk.advance _)
    · exact recognized_none ha
  | range first last =>
    simp only [recognize]
    split
    · split
      · exact recognized_some ha (hk.advance _)
      · exact recognized_none ha
    · exact recognized_none ha
  | anyBut stop =>
    simp only [recognize]
    split
    · split
      · exact recognized_none ha
      · exact recognized_some ha (hk.advance _)
    · exact recognized_none ha
  | notBefore stop =>
    simp only [recognize]
    split
    · exact recognized_none ha
    · exact recognized_some ha hk
  | finish =>
    simp only [recognize]
    split
    · exact recognized_some ha hk
    · exact recognized_none ha
  | seq first second =>
    refine (h.pattern inToken first hk ha).elim ?_ ?_
    · intro a' k' ha' hk' heq
      simp only [recognize, heq]
      exact h.pattern inToken second (hk'.between inToken) ha'
    · intro a' ha' heq
      simp only [recognize, heq]
      exact recognized_none ha'
  | alt first second =>
    refine (h.pattern inToken first hk ha).elim ?_ ?_
    · intro a' k' ha' hk' heq
      simp only [recognize, heq]
      exact recognized_some ha' hk'
    · intro a' ha' heq
      simp only [recognize, heq]
      exact h.pattern inToken second hk ha'
  | optional body =>
    refine (h.pattern inToken body hk ha).elim ?_ ?_
    · intro a' k' ha' hk' heq
      simp only [recognize, heq]
      exact recognized_some ha' hk'
    · intro a' ha' heq
      simp only [recognize, heq]
      exact recognized_some ha' hk
  | many body =>
    refine (h.pattern inToken body hk ha).elim ?_ ?_
    · intro a' k' ha' hk' heq
      simp only [recognize, heq]
      exact h.more inToken body hk' ha'
    · intro a' ha' heq
      simp only [recognize, heq]
      exact recognized_some ha' hk
  | rule r =>
    refine (h.pattern (inToken || r.isToken) r.pattern hk ha).elim ?_ ?_
    · intro a' k' ha' hk' heq
      simp only [recognize, heq]
      exact recognized_some ha' hk'
    · intro a' ha' heq
      simp only [recognize, heq]
      split
      · exact recognized_none ha'
      · exact recognized_none (Attempts.boundary_track ha' r hk.boundary _)

open Pattern in
theorem Recognizes.more_succ {depth : Nat} (h : Recognizes cs depth) (inToken : Bool)
    (body : Pattern) {k : Cursor} {a : Attempts} (hk : k.At cs) (ha : Boundary cs a.offset) :
    Recognized cs (recognize.more (depth + 1) inToken body k a) := by
  refine (h.pattern inToken body (hk.between inToken) ha).elim ?_ ?_
  · intro a' k' ha' hk' heq
    simp only [recognize.more, heq]
    exact h.more inToken body hk' ha'
  · intro a' ha' heq
    simp only [recognize.more, heq]
    exact recognized_some ha' hk

theorem recognizes (cs : List Char) (depth : Nat) : Recognizes cs depth := by
  induction depth with
  | zero =>
    exact ⟨fun _ _ _ _ _ ha => recognized_none ha, fun _ _ _ _ hk ha => recognized_some ha hk⟩
  | succ depth ih => exact ⟨ih.pattern_succ, ih.more_succ⟩

theorem boundary_expectations (cs : List Char) : Boundary cs (expectations cs).2 := by
  have hstart : Cursor.At ⟨cs, 0⟩ cs := ⟨[], rfl, rfl⟩
  have hnone : Boundary cs (Attempts.offset {}) := boundary_zero cs
  unfold expectations
  exact ((recognizes cs _).pattern false (.rule .directive) hstart hnone).attempts

/-! ### Syntax errors -/

/-- What a syntax error is about stands in the text. -/
inductive SyntaxError.Points (file : Nat) (cs : List Char) : SyntaxError → Prop
  | expected {rules : List Rule} {offset : Nat} (h : Boundary cs offset) :
      Points file cs (.expected rules offset)
  | trailing {start stop : Nat} (h : Stretch cs start stop) : Points file cs (.trailing start stop)
  | oversized {digits : List Char} (written : digits <:+: cs)
      (large : wordCount ≤ numberValue digits) : Points file cs (.oversized digits)
  | invalidEndian {span : Span} {word : List Char} (h : span.In file cs) :
      Points file cs (.invalidEndian span word)
  | emptyField {span : Span} {id : String} (h : span.In file cs) :
      Points file cs (.emptyField span id)

theorem word_eq_error {digits : List Char} {e : SyntaxError} (h : word digits = .error e) :
    wordCount ≤ numberValue digits ∧ e = .oversized digits := by
  simp only [word] at h
  split at h
  · simp at h
  · rename_i hlt
    exact ⟨by omega, by simpa using h.symm⟩

theorem WidthTree.resolve_eq_error {tree : WidthTree} {e : SyntaxError}
    (h : tree.resolve = .error e) :
    ∃ digits ∈ tree.numbers, wordCount ≤ numberValue digits ∧ e = .oversized digits := by
  induction tree with
  | number digits =>
    obtain hword | ⟨_, _, h⟩ := bind_eq_error h
    · exact ⟨digits, by simp [numbers], word_eq_error hword⟩
    · simp [pure, Except.pure] at h
  | field id => simp [resolve] at h
  | binary op lhs rhs ihl ihr =>
    obtain hl | ⟨_, _, h⟩ := bind_eq_error h
    · obtain ⟨digits, hd, hlarge⟩ := ihl hl
      exact ⟨digits, by simp [numbers, hd], hlarge⟩
    obtain hr | ⟨_, _, h⟩ := bind_eq_error h
    · obtain ⟨digits, hd, hlarge⟩ := ihr hr
      exact ⟨digits, by simp [numbers, hd], hlarge⟩
    · simp [pure, Except.pure] at h

theorem TypeTree.resolve_eq_error {tree : TypeTree} {e : SyntaxError}
    (h : tree.resolve = .error e) :
    ∃ digits ∈ tree.numbers, wordCount ≤ numberValue digits ∧ e = .oversized digits := by
  induction tree with
  | named path => simp [resolve] at h
  | constant value => simp [resolve] at h
  | slice element ih =>
    obtain helement | ⟨_, _, h⟩ := bind_eq_error h
    · exact ih helement
    · simp [pure, Except.pure] at h
  | pointer target ih =>
    obtain htarget | ⟨_, _, h⟩ := bind_eq_error h
    · exact ih htarget
    · simp [pure, Except.pure] at h
  | array digits element ih =>
    obtain hword | ⟨_, _, h⟩ := bind_eq_error h
    · exact ⟨digits, by simp [numbers], word_eq_error hword⟩
    obtain helement | ⟨_, _, h⟩ := bind_eq_error h
    · obtain ⟨ds, hd, hlarge⟩ := ih helement
      exact ⟨ds, by simp [numbers, hd], hlarge⟩
    · simp [pure, Except.pure] at h

theorem points_of_resolveEndian {p : Place} {mark : Option (List Char × List Char)}
    {e : SyntaxError} (hmark : ∀ {word rest}, mark = some (word, rest) → word ++ rest <:+ p.text)
    (h : resolveEndian p mark = .error e) : e.Points p.file p.text := by
  unfold resolveEndian at h
  split at h
  · simp at h
  · rename_i word rest
    split at h
    · simp at h
    · obtain rfl := Except.error.inj h
      exact .invalidEndian (p.span_in (hmark rfl) (List.suffix_append word rest))

theorem FieldTree.points_of_resolve {p : Place} {tree : FieldTree} {e : SyntaxError}
    (htree : tree.Within p.text) (h : tree.resolve p = .error e) : e.Points p.file p.text := by
  obtain hwidth | ⟨width, _, h⟩ := bind_eq_error h
  · obtain ⟨w, hw, hresolve⟩ := option_mapM_eq_error hwidth
    obtain ⟨digits, hd, hlarge, rfl⟩ := w.resolve_eq_error hresolve
    exact .oversized (htree.width digits (by rw [hw]; exact hd)) hlarge
  obtain htype | ⟨type, _, h⟩ := bind_eq_error h
  · obtain ⟨t, ht, hresolve⟩ := option_mapM_eq_error htype
    obtain ⟨digits, hd, hlarge, rfl⟩ := t.resolve_eq_error hresolve
    exact .oversized (htree.type digits (by rw [ht]; exact hd)) hlarge
  obtain hendian | ⟨endian, _, h⟩ := bind_eq_error h
  · exact points_of_resolveEndian htree.endian hendian
  split at h
  · obtain rfl := Except.error.inj h
    exact .emptyField (p.span_in htree.start htree.rest)
  · simp at h

/-- A text that is no directive is blamed at a place in it. -/
theorem points_of_parse {file : Nat} {text : String} {e : SyntaxError}
    (h : Directive.parse file text = .error e) : e.Points file text.toList := by
  obtain ⟨hrest, htrees⟩ := Head.read_within text.toList
  simp only [Directive.parse] at h
  split at h
  · obtain hfields | ⟨_, _, h⟩ := bind_eq_error h
    · obtain ⟨tree, htree, hresolve⟩ := mem_of_mapM_eq_error hfields
      exact FieldTree.points_of_resolve (p := ⟨file, text.toList⟩) (htrees tree htree) hresolve
    · simp [pure, Except.pure] at h
  · obtain rfl := Except.error.inj h
    simp only [Head.fault]
    split
    · have htrim : trimStart (Head.read text.toList).rest <:+ text.toList :=
        (List.dropWhile_suffix _).trans hrest
      have hstretch := stretch_of_suffix htrim (List.nil_suffix)
      exact .trailing (by simpa [byteSize] using hstretch)
    · exact .expected (boundary_expectations _)

end Directive

end WireRecords
