import WireRecords.Proofs.Codec.Varint
import WireRecords.Proofs.Execution.Reading
import WireRecords.Proofs.Execution.Writing

/-!
# Procedures on the machine

Whole procedures: those of records, whose statements run inside the boundary, the helper for
constants, and those of variable-length integers. From one level of records to the next, running them
comes to what reading and writing come to.
-/
namespace WireRecords.Execution

open Codec Program Exec

variable {c : Context} {env : Bindings} {s : Machine}

/-! ### Variable-length integers -/

theorem takeGroups_eq (left index : Nat) (value : UInt64) (s : Machine) :
    takeGroups left index value s =
      (.ok (Varint.readGroups left index value s.input).result,
        { s with input := (Varint.readGroups left index value s.input).rest }) := by
  induction left generalizing index value s with
  | zero => rfl
  | succ left ih =>
    obtain ⟨fields, input, output, room, slots⟩ := s
    cases input with
    | nil => rfl
    | cons b rest =>
      change (if index + 1 = Varint.maxLength && 1 < b &&& 0x7f then
          pure (.error (.overflow "Varint" "value"))
        else if b &&& 0x80 = 0 then
          pure (.ok (Varint.place value index (b &&& 0x7f)).toNat)
        else takeGroups left (index + 1) (Varint.place value index (b &&& 0x7f)))
          (⟨fields, rest, output, room, slots⟩ : Machine) = _
      simp only [Varint.readGroups]
      split
      · rfl
      · split
        · rfl
        · rw [ih]

theorem putGroups_eq (n : Nat) (s : Machine) (h : (Varint.encode n).length ≤ s.room) :
    putGroups n s = (.ok .unit, s.wrote (Varint.encode n)) := by
  induction n using Nat.strongRecOn generalizing s with
  | ind n ih =>
    unfold putGroups
    by_cases hsmall : n < 128
    · rw [Varint.encode_small hsmall] at h ⊢
      rw [if_pos hsmall]
      exact putOutput_eq h
    · rw [Varint.encode_large hsmall] at h ⊢
      rw [List.length_cons] at h
      have hone : [(n % 128 + 128).toUInt8].length ≤ s.room := by
        simp only [List.length_singleton]
        omega
      have hrest : (Varint.encode (n / 128)).length ≤
          (s.wrote [(n % 128 + 128).toUInt8]).room := by
        simp only [Machine.wrote, List.length_singleton]
        omega
      rw [if_neg hsmall, bind_eq, putOutput_eq hone]
      dsimp only
      rw [ih (n / 128) (by omega) _ hrest, Machine.wrote_wrote]
      rfl

/-- There is room for as many bytes as were announced. -/
theorem putVarint_eq (n : Nat) (s : Machine) :
    putVarint n s =
      match Varint.write n s.room with
      | .ok bytes => (.ok none, s.wrote bytes)
      | .error e => (.ok (some e), s) := by
  change (if s.room < Varint.encodedLength n then
      pure (some (EncodeError.shortWrite "Varint" "value" s.room (Varint.encodedLength n)))
    else putGroups n >>= fun _ => pure none) s = _
  unfold Varint.write
  split
  · rfl
  · rename_i hroom
    rw [bind_eq, putGroups_eq n s (by rw [Varint.length_encode]; omega)]
    rfl

/-! ### The helper for constants -/

/-- A constant is cut off at its width, and what is missing are zeros. -/
theorem padded_eq (value : String) (n : Nat) :
    padded value n =
      value.toUTF8.toList.take (min value.toUTF8.toList.length n) ++
        List.replicate (n - min value.toUTF8.toList.length n) 0 := by
  generalize hdata : value.toUTF8.toList = data
  have htake : data.take (min data.length n) = data.take n := by
    rw [List.take_eq_take_iff]
    omega
  have hrest : n - min data.length n = n - data.length := by
    omega
  rw [padded, hdata, htake, hrest]

theorem Evaluates.sub {x y : Expr} {a b : Nat} (hx : Evaluates c env s x (.number a))
    (hy : Evaluates c env s y (.number b)) (h : b ≤ a) :
    Evaluates c env s (.binary "-" x y) (.number (a - b)) := by
  rw [Evaluates, Evaluates.eval_binary hx hy]
  change arithmetic .sub a b s = _
  have happly : Operator.sub.apply a b = .ok (a - b) := by
    simp [Operator.apply, h]
  rw [arithmetic, happly]
  rfl

theorem eval_putZeros {e : Expr} {n : Nat} (hbuffer : Evaluates c env s buffer .buffer)
    (he : Evaluates c env s e (.number n)) (hroom : n ≤ s.room) :
    (machine c).eval (.method buffer "put_bytes" [.nat 0, e]) env s =
      (.ok .unit, s.wrote (List.replicate n 0)) := by
  rw [Evaluates.eval_method (m := .putBytes) rfl hbuffer (.cons (.nat 0) (.cons he .nil))]
  refine putOutput_eq ?_
  rw [List.length_replicate]
  exact hroom

/-- Truncates or pads with zeros, where there is room. -/
theorem padding_eq {items : List Item}
    (hitems : ((machine c).outlines items).findSome? (functionOf "write_padded") =
      functionOf "write_padded" ((machine c).outline writePadded))
    (value : String) {n : Nat} (hroom : n ≤ s.room) :
    padding c items [.buffer, .value (.bytes value.toUTF8.toList), .number n] s =
      (.ok .unit, s.wrote (padded value n)) := by
  rw [padded_eq]
  generalize value.toUTF8.toList = data
  let outer : Bindings := [("buf", .buffer), ("data", .value (.bytes data)), ("width", .number n)]
  let len := min data.length n
  let inner : Bindings := ("len", .number len) :: outer
  have hlen : (machine c).eval
      (.call (.path ["std", "cmp", "min"]) [.method (.var "data") "len" [], .var "width"]) outer s =
        (.ok (.number len), s) := rfl
  have hbuffer : ∀ s, Evaluates c inner s buffer .buffer := fun s => .bound rfl
  have hstop : ∀ s, Evaluates c inner s (.var "len") (.number len) := fun s => .bound rfl
  have hvalue : Evaluates c inner s (.var "data") (.value (.bytes data)) := .bound rfl
  have hwidth : ∀ s, Evaluates c inner s (.var "width") (.number n) := fun s => .bound rfl
  have hstart := hvalue.start rfl (hstop s) (Nat.min_le_left ..)
  have hshort : (data.take len).length ≤ s.room := by
    simp only [List.length_take, len]
    omega
  have hput := eval_putSlice (hbuffer s) hstart rfl hshort
  generalize hmid : s.wrote (data.take len) = mid at hput
  have hrest : n - len ≤ mid.room := by
    rw [← hmid]
    simp only [Machine.wrote, List.length_take, len]
    omega
  have hzeros := eval_putZeros (hbuffer mid)
    ((hwidth mid).sub (hstop mid) (Nat.min_le_right ..)) hrest
  have hbody : runBlock c
      [declare "len"
          (.call (.path ["std", "cmp", "min"]) [.method (.var "data") "len" [], .var "width"]),
        Subject.putSlice (.index (.var "data") (.range none (.var "len"))),
        perform (.method buffer "put_bytes" [.nat 0, .binary "-" (.var "width") (.var "len")])]
      outer s = (.ok .unit, mid.wrote (List.replicate (n - len) 0)) := by
    rw [declare, runBlock_binding _ hlen, Subject.putSlice, perform, runBlock_ok _ hput, perform,
      runBlock_ok _ hzeros, runBlock_nil]
  rw [padding, hitems, ← Machine.wrote_wrote, hmid]
  change handle (runBlock c _ outer) leave s = _
  rw [handle, hbody]

/-! ### The boundary -/

/-- The statement that a procedure consists of. -/
def boundary (record kind : String) (blocks : Block) : Stmt :=
  .expr
    (.call (.path ["wire9_runtime", "recover"])
      [.text record, .closure (some (fallible kind)) (blocks ++ [success])])
    false

theorem runBlock_boundary (record kind : String) (blocks : Block) (env : Bindings) (s : Machine) :
    runBlock c [boundary record kind blocks] env s =
      handle (handle (runBlock c (blocks ++ [success]) env) leave) (recoverFrom record) s := by
  rw [boundary, runBlock_value]
  rfl

/-- What procedures start with. -/
def parameters : Bindings := [("self", .place .self), ("buf", .buffer)]

theorem parameters_scope : Scope parameters :=
  ⟨rfl, rfl, by decide⟩

/-- A file has a procedure of a record that runs statements inside the boundary. -/
def Declares (items : List Item) (record name : String) (blocks : Block) : Prop :=
  ∃ signature kind, parameterNames signature = ["buf"] ∧ ∀ c,
    ((machine c).outlines items).findSome? (procedureOf record name) =
      some (signature, runBlock c [boundary record kind blocks])

section Declares

variable {items : List Item} {record name : String} {blocks : Block}
  (h : Declares items record name blocks)

include h

theorem runProcedure_eq (c : Context) (s : Machine) :
    runProcedure c items record name s =
      match completed (handle (handle (handle (runBlock c (blocks ++ [success]) parameters) leave)
        (recoverFrom record)) leave s) with
      | .ok (.result failure, s) => .ok (failure, s)
      | .ok _ => .error .stuck
      | .error h => .error h := by
  obtain ⟨signature, kind, hnames, hfind⟩ := h
  have hbody : runBlock c [boundary record kind blocks] parameters =
      handle (handle (runBlock c (blocks ++ [success]) parameters) leave) (recoverFrom record) :=
    funext fun s => runBlock_boundary record kind blocks parameters s
  rw [← hbody]
  simp only [runProcedure, hfind c, hnames]
  rfl

/-- What breaks off at the boundary becomes an error of the record. -/
theorem runProcedure_reads {q : Option (Reading Fields)}
    (hq : ReadsAs record (.result none) q (runBlock c (blocks ++ [success]) parameters s)) :
    runProcedure c items record name s >>= readingOf =
      ended (q.map fun q => ⟨.record q.value, q.rest, q.error⟩) := by
  rw [runProcedure_eq h]
  simp only [handle]
  generalize runBlock c (blocks ++ [success]) parameters s = out at hq
  cases hq <;> rfl

theorem runProcedure_writes {q : Option Writing} (hs : s.output = [])
    (hq : WritesAs record (.result none) s q (runBlock c (blocks ++ [success]) parameters s)) :
    runProcedure c items record name s >>= writingOf = ended q := by
  have hbytes : ∀ bytes, (s.wrote bytes).output = bytes := fun bytes => by
    rw [Machine.wrote, hs, List.nil_append]
  rw [runProcedure_eq h]
  simp only [handle]
  generalize runBlock c (blocks ++ [success]) parameters s = out at hq
  cases hq with
  | done bytes =>
    change Except.ok (Writing.mk (s.wrote bytes).output none) = _
    rw [hbytes]
    rfl
  | failed bytes e =>
    change Except.ok (Writing.mk (s.wrote bytes).output (some e)) = _
    rw [hbytes]
    rfl
  | broken bytes fault =>
    change Except.ok (Writing.mk (s.wrote bytes).output (some (.fault _))) = _
    rw [hbytes]
    rfl
  | endless s' => rfl

end Declares

/-! ### Levels -/

/-- What a file has for a record: its procedures, and the helper if there are constants. -/
structure Provides (r : Registry) (items : List Item) (e : RecordEntry) : Prop where
  read : ∃ blocks, FieldBlocks (fun sub => sub.decode r false sub.field.type) e.id e.fields blocks ∧
    Declares items e.id "read_binary" blocks
  write : ∃ blocks, FieldBlocks (fun sub => sub.encode false sub.field.type) e.id e.fields blocks ∧
    Declares items e.id "write_binary" blocks
  pad : (∃ f ∈ e.fields, ∃ value, f.decl.type = .constant value) → ∀ c,
    ((machine c).outlines items).findSome? (functionOf "write_padded") =
      functionOf "write_padded" ((machine c).outline writePadded)

/-- A file has what is needed for the records that are `known`, which nest no others. -/
structure Covers (r : Registry) (items : List Item) (known : String → Prop) : Prop where
  determined : r.Determined
  varint : r.find? Varint.path = none
  find? : ∀ path, known path → path ≠ Varint.path → ∃ e, r.find? path = some e
  provides : ∀ path e, known path → r.find? path = some e → Provides r items e
  hash : ∀ path e, r.find? path = some e → ∀ f ∈ e.fields, '#' ∉ f.decl.id.toList
  nested : ∀ path e, known path → r.find? path = some e → ∀ f ∈ e.fields,
    ∀ inner, f.decl.type.nested? = some inner → known inner

theorem type?_contextOf (r : Registry) (items : List Item) {e : RecordEntry} (he : e.Determined)
    (read : String → Value → List UInt8 → Except Halt (Reading Value))
    (write : String → Value → Nat → Except Halt Writing) {f : RecordedField} (hf : f ∈ e.fields) :
    (contextOf r items e read write).type? f.decl.id = some f.decl.type := by
  have hfind := RecordEntry.find?_field he.nodup hf
  simp only [contextOf, hfind, Option.map_some]

section Levels

variable {r : Registry} {items : List Item} {known : String → Prop} (h : Covers r items known)

include h

/-- Running the reading procedures of a file comes to what reading comes to. -/
theorem runRead_eq {n : Nat} {path : String} {v : Value} (hpath : known path)
    (hv : v.fits r (.nested path) = true) (bytes : List UInt8) :
    runRead r items n path v bytes = ended (readInhabited r n path v bytes) := by
  -- What a record nests is run one level below, where it starts from values of their types.
  induction n generalizing path v bytes with
  | zero => rfl
  | succ n ih =>
    have hinitial : (initial r path).fits r (.nested path) = true :=
      initial_fits h.determined (grounded_of_fits h.determined rfl hv (Nat.lt_succ_self _))
    simp only [readInhabited, if_pos hinitial]
    by_cases hvarint : path = Varint.path
    · subst hvarint
      rw [readLevel_varint h.varint]
      simp only [runRead, h.varint, if_true, takeGroups_eq, Varint.read]
      rcases Varint.readGroups Varint.maxLength 0 0 bytes with ⟨e | k, rest⟩ <;> rfl
    · obtain ⟨e, he⟩ := h.find? path hpath hvarint
      have hid := Registry.id_of_find? he
      obtain ⟨blocks, hblocks, hdeclares⟩ := (h.provides path e hpath he).read
      have hserves : ServesReading r e (readInhabited r n)
          (contextOf r items e (runRead r items n) fun _ _ _ => .error .stuck) :=
        { type? := fun f hf => type?_contextOf r items (h.determined he) _ _ hf
          default? := fun type => rfl
          read := fun f hf inner hinner v bytes hv =>
            ih (h.nested path e hpath he f hf inner hinner) hv bytes
          inhabited := fun _ _ _ _ hq => initial_fits_of_readInhabited hq }
      have hreads := read_fields (h.determined he) (h.hash path e he) hserves parameters_scope
        hblocks (List.nil_append _).symm
        (s := { fields := v.asFields, input := bytes })
        (Underway.start (asFields_ready h.determined he hv))
      rw [readLevel_record he, runRead, he]
      dsimp only
      rw [← hid]
      exact runProcedure_reads hdeclares hreads

/-- Running the writing procedures of a file comes to what writing comes to. -/
theorem runWrite_eq {n : Nat} {path : String} {v : Value} (hpath : known path)
    (hv : v.fits r (.nested path) = true) (room : Nat) :
    runWrite r items n path v room = ended (writeTo r n path v room) := by
  induction n generalizing path v room with
  | zero => rfl
  | succ n ih =>
    by_cases hvarint : path = Varint.path
    · subst hvarint
      simp only [runWrite, writeTo, h.varint, if_true, putVarint_eq]
      rcases Varint.write v.word room with e | bytes <;> rfl
    · obtain ⟨e, he⟩ := h.find? path hpath hvarint
      have hid := Registry.id_of_find? he
      obtain ⟨blocks, hblocks, hdeclares⟩ := (h.provides path e hpath he).write
      obtain ⟨fs, rfl, hfit⟩ := (Value.fits_record rfl he (h.determined he).nodup).mp hv
      have hserves : ServesWriting r e (writeTo r n)
          (contextOf r items e (fun _ _ _ => .error .stuck) (runWrite r items n)) :=
        { type? := fun f hf => type?_contextOf r items (h.determined he) _ _ hf
          write := fun f hf inner hinner v room hv =>
            ih (h.nested path e hpath he f hf inner hinner) hv room
          pad := fun f hf value htype n s hroom =>
            padding_eq ((h.provides path e hpath he).pad ⟨f, hf, value, htype⟩ _) value hroom }
      have hwrites := write_fields (h.determined he) (h.hash path e he) hserves parameters_scope
        hblocks (List.nil_append _).symm (s := { fields := fs, room }) hfit rfl
      rw [writeTo, runWrite, he]
      dsimp only
      rw [← hid]
      exact runProcedure_writes hdeclares rfl hwrites

end Levels

end WireRecords.Execution
