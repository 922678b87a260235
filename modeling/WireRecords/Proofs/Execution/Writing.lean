import WireRecords.Proofs.Codec.Success
import WireRecords.Proofs.Codec.Termination
import WireRecords.Proofs.Execution.Steps
import WireRecords.Proofs.Program.Emission

/-!
# Writing procedures on the machine

The statements for a field do what `writeField` says: they write the same bytes and end in the same
way. Every write has been given room before, and every index and range is within what is stored.
-/
namespace WireRecords.Execution

open Codec Program Exec

variable {c : Context} {env : Bindings} {s s' : Machine}

namespace Machine

theorem wrote_nil (s : Machine) : s.wrote [] = s := by
  simp [wrote]

theorem wrote_wrote (s : Machine) (a b : List UInt8) :
    (s.wrote a).wrote b = s.wrote (a ++ b) := by
  simp [wrote, Nat.sub_sub]

end Machine

/-! ### Putting bytes -/

theorem putOutput_eq {bytes : List UInt8} (h : bytes.length ≤ s.room) :
    putOutput bytes s = (.ok .unit, s.wrote bytes) := by
  change (if s.room < bytes.length then halt .outOfRange
    else modify (·.wrote bytes) >>= fun _ => pure Datum.unit) s = _
  rw [if_neg (Nat.not_lt.mpr h)]
  rfl

theorem methods_put (k : Scalar) (endian : Endian) :
    methods.lookup (scalarOperation "put" k endian) = some (.put k (namedOrder k endian)) := by
  cases k <;> cases endian <;> decide

theorem eval_put {target : Expr} {p : Place} {n : Int} (h : Scope env)
    (hp : Denotes c env target p) (hn : s.get? p = some (.integer n)) (k : Scalar)
    (endian : Endian) (hlen : k.width ≤ s.room) :
    (machine c).eval (.method buffer (scalarOperation "put" k endian) [target]) env s =
      (.ok .unit, s.wrote (k.encode endian n)) := by
  rw [Evaluates.eval_method (methods_put k endian) (.buffer h) (.cons (hp hn) .nil)]
  change (load p >>= fun v => _) s = _
  rw [bind_eq, load_eq hn]
  change putOutput (k.encode (namedOrder k endian) n) s = _
  rw [Scalar.encode, arrange_namedOrder endian (toBytes_length _ _)]
  exact putOutput_eq (by simpa using hlen)

theorem eval_putSlice {e : Expr} {d : Datum} {data : List UInt8}
    (hbuffer : Evaluates c env s buffer .buffer) (he : Evaluates c env s e d)
    (hd : d.toBytes s = (.ok data, s)) (hlen : data.length ≤ s.room) :
    (machine c).eval (.method buffer "put_slice" [.borrow false e]) env s =
      (.ok .unit, s.wrote data) := by
  rw [Evaluates.eval_method (m := .putSlice) rfl hbuffer (.cons he.borrow .nil)]
  change (d.toBytes >>= putOutput) s = _
  rw [bind_eq, hd]
  exact putOutput_eq hlen

/-- The start of stored bytes. -/
theorem Evaluates.start {e stop : Expr} {d : Datum} {data : List UInt8} {n : Nat}
    (he : Evaluates c env s e d) (hd : d.toBytes s = (.ok data, s))
    (hstop : Evaluates c env s stop (.number n)) (hlen : n ≤ data.length) :
    Evaluates c env s (.index e (.range none stop)) (.value (.bytes (data.take n))) := by
  have hrange : (machine c).eval (.range none stop) env s = (.ok (.range 0 n), s) := by
    change ((machine c).eval stop env >>= fun d => _) s = _
    rw [bind_eq, hstop]
    rfl
  change ((machine c).eval e env >>= fun d => (machine c).eval (.range none stop) env >>= fun i =>
    index d i) s = _
  rw [bind_eq, he]
  dsimp only
  rw [bind_eq, hrange]
  change (d.toBytes >>= fun data => _) s = _
  rw [bind_eq, hd]
  change (if n < 0 ∨ data.length < n then halt .outOfRange
    else pure (Datum.value (.bytes ((data.take n).drop 0)))) s = _
  rw [if_neg (by omega), List.drop_zero]
  rfl

/-- Calls the writing procedure of what is stored at a place. -/
theorem eval_writeBinary {target : Expr} {p : Place} {path : String} {v : Value} (h : Scope env)
    (hp : Denotes c env target p) (hpath : c.target? p = some path) (hv : s.get? p = some v) :
    (machine c).eval (.propagate (.method target "write_binary" [buffer])) env s =
      match c.write path v s.room with
      | .ok ⟨bytes, none⟩ => (.ok .unit, s.wrote bytes)
      | .ok ⟨bytes, some e⟩ =>
        (.error (.returned (.result (some (.encode e)))), s.wrote bytes)
      | .error halted => (.error (.halted halted), s) := by
  have hwrite : c.method .writeBinary (.place p) [.buffer] s =
      Context.sent (c.write path v s.room) s := by
    change (ofOption .stuck (c.target? p) >>= fun path => load p >>= fun v => _) s = _
    rw [hpath, bind_eq]
    change (load p >>= fun v => _) s = _
    rw [bind_eq, load_eq hv]
    rfl
  change ((machine c).eval (.method target "write_binary" [buffer]) env >>= propagate) s = _
  rw [bind_eq, Evaluates.eval_method (m := .writeBinary) rfl (hp hv) (.cons (.buffer h) .nil),
    hwrite]
  rcases c.write path v s.room with halted | ⟨bytes, _ | e⟩ <;> rfl

/-! ### Comparison with writing -/

/-- A computation for a record does on a machine what writing does: it has written the same bytes
when it ends, with a value where writing has no error and otherwise with that error or by breaking
off with that fault. Where writing has no end it has none. -/
inductive WritesAs (record : String) (d : Datum) (s : Machine) :
    Option Writing → Except Stop Datum × Machine → Prop
  | done (bytes : List UInt8) :
      WritesAs record d s (some ⟨bytes, none⟩) (.ok d, s.wrote bytes)
  | failed (bytes : List UInt8) (e : EncodeError) :
      WritesAs record d s (some ⟨bytes, some e⟩)
        (.error (.returned (.result (some (.encode e)))), s.wrote bytes)
  | broken (bytes : List UInt8) (fault : ArithmeticFault) :
      WritesAs record d s
        (some ⟨bytes, some (.fault (.ofPanic record (.arithmetic fault)))⟩)
        (.error (.panicked (.arithmetic fault)), s.wrote bytes)
  | endless (s' : Machine) : WritesAs record d s none (.error (.halted .endless), s')

/-- Two pieces of writing, the second in the room that the first leaves. -/
def sequence (first : Option Writing) (second : Nat → Option Writing) (room : Nat) :
    Option Writing :=
  match first with
  | none => none
  | some w => if w.error.isSome then some w else w.append (second (room - w.bytes.length))

namespace WritesAs

variable {record : String} {d d' : Datum} {q : Option Writing}

theorem done_now : WritesAs record d s (some {}) (.ok d, s) := by
  have h : WritesAs record d s (some {}) (.ok d, s.wrote []) := .done []
  rwa [Machine.wrote_nil] at h

theorem failed_now (e : EncodeError) :
    WritesAs record d s (some ⟨[], some e⟩)
      (.error (.returned (.result (some (.encode e)))), s) := by
  have h : WritesAs record d s (some ⟨[], some e⟩)
      (.error (.returned (.result (some (.encode e)))), s.wrote []) := .failed [] e
  rwa [Machine.wrote_nil] at h

theorem broken_now (fault : ArithmeticFault) :
    WritesAs record d s (some ⟨[], some (.fault (.ofPanic record (.arithmetic fault)))⟩)
      (.error (.panicked (.arithmetic fault)), s) := by
  have h : WritesAs record d s (some ⟨[], some (.fault (.ofPanic record (.arithmetic fault)))⟩)
      (.error (.panicked (.arithmetic fault)), s.wrote []) := .broken [] fault
  rwa [Machine.wrote_nil] at h

/-- What is written behind bytes that were written before. -/
theorem behind {bytes : List UInt8} {out : Except Stop Datum × Machine}
    (h : WritesAs record d (s.wrote bytes) q out) :
    WritesAs record d s (Writing.append ⟨bytes, none⟩ q) out := by
  cases h with
  | done more =>
    rw [Machine.wrote_wrote]
    exact .done (bytes ++ more)
  | failed more e =>
    rw [Machine.wrote_wrote]
    exact .failed (bytes ++ more) e
  | broken more fault =>
    rw [Machine.wrote_wrote]
    exact .broken (bytes ++ more) fault
  | endless s' => exact .endless s'

/-- One computation after another, in the room that is left. -/
theorem bind {x k : Exec Datum} {second : Nat → Option Writing} (hx : WritesAs record d s q (x s))
    (hk : ∀ bytes, q = some ⟨bytes, none⟩ →
      WritesAs record d' (s.wrote bytes) (second (s.room - bytes.length)) (k (s.wrote bytes))) :
    WritesAs record d' s
      (sequence q second s.room)
      ((x >>= fun _ => k) s) := by
  rw [bind_eq]
  generalize x s = out at hx
  cases hx with
  | done bytes => exact (hk bytes rfl).behind
  | failed bytes e => exact .failed bytes e
  | broken bytes fault => exact .broken bytes fault
  | endless s' => exact .endless s'

end WritesAs

/-- A statement whose value is the unit, before others. -/
theorem WritesAs.cons {e : Expr} {hasSemicolon : Bool} (ss : Block) {record : String}
    {d : Datum} {q : Option Writing} {second : Nat → Option Writing}
    (hx : WritesAs record .unit s q ((machine c).eval e env s))
    (hk : ∀ bytes, q = some ⟨bytes, none⟩ →
      WritesAs record d (s.wrote bytes) (second (s.room - bytes.length))
        (runBlock c ss env (s.wrote bytes))) :
    WritesAs record d s
      (sequence q second s.room)
      (runBlock c (.expr e hasSemicolon :: ss) env s) := by
  have hseq : runBlock c (.expr e hasSemicolon :: ss) env s =
      ((machine c).eval e env >>= fun _ => runBlock c ss env) s := by
    rw [bind_eq]
    generalize hout : (machine c).eval e env s = out at hx
    cases hx with
    | done bytes => exact runBlock_ok ss hout
    | failed bytes e => exact runBlock_error ss hout
    | broken bytes fault => exact runBlock_error ss hout
    | endless s' => exact runBlock_error ss hout
  rw [hseq]
  exact hx.bind hk

theorem WritesAs.single {e : Expr} {hasSemicolon : Bool} {record : String} {q : Option Writing}
    (hx : WritesAs record .unit s q ((machine c).eval e env s)) :
    WritesAs record .unit s q (runBlock c [.expr e hasSemicolon] env s) := by
  generalize hout : (machine c).eval e env s = out at hx
  cases hx with
  | done bytes =>
    rw [runBlock_ok [] hout, runBlock_nil]
    exact .done bytes
  | failed bytes e =>
    rw [runBlock_error [] hout]
    exact .failed bytes e
  | broken bytes fault =>
    rw [runBlock_error [] hout]
    exact .broken bytes fault
  | endless s' =>
    rw [runBlock_error [] hout]
    exact .endless s'

/-! ### Checks -/

section Checks

variable (sub : Subject) {expected : Expr} {n : Nat} (h : Scope env)
  (he : Evaluates c env s expected (.number n)) (ss : Block)

include h he

theorem runBlock_requireRoom (hle : n ≤ s.room) :
    runBlock c (sub.requireRoom expected :: ss) env s = runBlock c ss env s :=
  runBlock_require ss (.outputRoom h) he hle

theorem runBlock_requireRoom_short (hlt : s.room < n) :
    runBlock c (sub.requireRoom expected :: ss) env s =
      (.error (.returned (.result (some (.encode
        (.shortWrite sub.record sub.field.id s.room n))))), s) :=
  runBlock_require_short ss h (.outputRoom h) he hlt rfl

omit he in
/-- Statements that write bytes, behind the check that there is room for them. -/
theorem write_bytes {bytes : List UInt8}
    (he : Evaluates c env s expected (.number bytes.length))
    (hwrite : bytes.length ≤ s.room → runBlock c ss env s = (.ok .unit, s.wrote bytes)) :
    WritesAs sub.record .unit s (some (put ⟨sub.record, sub.field.id⟩ bytes s.room))
      (runBlock c (sub.requireRoom expected :: ss) env s) := by
  by_cases hshort : s.room < bytes.length
  · rw [put, if_pos hshort, runBlock_requireRoom_short sub h he ss hshort]
    exact .failed_now _
  · have hroom := Nat.le_of_not_lt hshort
    rw [put, if_neg hshort, runBlock_requireRoom sub h he ss hroom, hwrite hroom]
    exact .done bytes

end Checks

section Stored

variable {sub : Subject} {v : Value}
  (hp : Denotes c env (sub.place false) (.field sub.field.id))
  (hv : s.get? (.field sub.field.id) = some v)
  (hsized : (∃ data, v = .bytes data) ∨ ∃ items, v = .list items)

include hp hv hsized

theorem Evaluates.len :
    Evaluates c env s (.method (sub.place false) "len" []) (.number v.storedLength) := by
  rw [Evaluates, Evaluates.eval_method (m := .len) rfl (hp hv) .nil]
  change (load (.field sub.field.id) >>= fun v => _) s = _
  rw [bind_eq, load_eq hv]
  obtain ⟨data, rfl⟩ | ⟨items, rfl⟩ := hsized
  · rfl
  · rfl

variable {expected : Expr} {n : Nat} (he : Evaluates c env s expected (.number n)) (ss : Block)

include he

theorem runBlock_requireStored (hle : n ≤ v.storedLength) :
    runBlock c (sub.requireStored expected :: ss) env s = runBlock c ss env s :=
  runBlock_require ss (.len hp hv hsized) he hle

theorem runBlock_requireStored_short (h : Scope env) (hlt : v.storedLength < n) :
    runBlock c (sub.requireStored expected :: ss) env s =
      (.error (.returned (.result (some (.encode
        (.shortBuffer sub.record sub.field.id v.storedLength n))))), s) :=
  runBlock_require_short ss h (.len hp hv hsized) he hlt rfl

end Stored

/-! ### Fields and elements in one piece -/

section Plain

variable {r : Registry} {N : Writer} {sub : Subject} {isElement : Bool} {type : FieldType}
  {body : Block} {p : Place} {v : Value}

/-- The statements for what is written in one piece, at the place where it is stored. -/
theorem write_plain (h : Scope env) (hplain : type.Plain fun _ => True)
    (hbody : sub.encode isElement type = .ok body)
    (hp : Denotes c env (sub.place isElement) p) (hv : s.get? p = some v)
    (hfits : v.fits r type = true) (htarget : c.target? p = type.target?)
    (hwrite : ∀ path, type.target? = some path →
      c.write path v s.room = ended (N path v s.room)) :
    WritesAs sub.record .unit s
      (writePlain N ⟨sub.record, sub.field.id⟩ sub.info.endian v s.room type)
      (runBlock c body env s) := by
  have hnested : ∀ path, type.target? = some path →
      body = [perform (.propagate (.method (sub.place isElement) "write_binary" [buffer]))] →
      WritesAs sub.record .unit s (N path v s.room) (runBlock c body env s) := by
    intro path hpath hone
    have heval := eval_writeBinary h hp (htarget.trans hpath) hv
    rw [hwrite path hpath] at heval
    rw [hone]
    rcases hq : N path v s.room with _ | ⟨bytes, _ | e⟩
    · rw [hq] at heval
      rw [perform, runBlock_error [] heval]
      exact .endless s
    · rw [hq] at heval
      rw [perform, runBlock_ok [] heval, runBlock_nil]
      exact .done bytes
    · rw [hq] at heval
      rw [perform, runBlock_error [] heval]
      exact .failed bytes e
  cases hplain with
  | scalar k =>
    obtain rfl := Except.ok.inj hbody
    obtain ⟨n, rfl, _⟩ := Value.fits_scalar.mp hfits
    refine write_bytes sub h _ (by rw [Scalar.encode_length]; exact .nat _) fun hroom => ?_
    rw [Scalar.encode_length] at hroom
    rw [perform, runBlock_ok [] (eval_put h hp hv k sub.info.endian hroom), runBlock_nil]
    rfl
  | bytes length =>
    obtain rfl := Except.ok.inj hbody
    obtain ⟨data, rfl, rfl⟩ := Value.fits_bytes.mp hfits
    refine write_bytes sub h _ (.nat _) fun hroom => ?_
    rw [Subject.putSlice, perform,
      runBlock_ok [] (eval_putSlice (.buffer h) (hp hv) (toBytes_place hv) hroom), runBlock_nil]
    rfl
  | nested _ => exact hnested _ rfl (Except.ok.inj hbody).symm
  | boxed _ => exact hnested _ rfl (Except.ok.inj hbody).symm

end Plain

section Equations

variable (N : Writer) (record : String) {fs : Fields} {f : RecordedField} {w : Width} (room : Nat)

theorem writeField_byteRun {data : List UInt8} (ht : f.decl.type = .byteRun)
    (hw : f.info.width = some w) (hdata : fs.get f.decl.id = .bytes data) :
    writeField N record fs f room =
      match fs.measure w with
      | .error fault => some ⟨[], some (.fault (.ofPanic record (.arithmetic fault)))⟩
      | .ok n =>
        if data.length < n then some ⟨[], some (.shortBuffer record f.decl.id data.length n)⟩
        else some (put ⟨record, f.decl.id⟩ (data.take n) room) := by
  simp only [writeField, ht, hw, hdata]
  rfl

theorem writeField_slice {element : FieldType} {items : List Value}
    (ht : f.decl.type = .slice element) (hw : f.info.width = some w)
    (hitems : fs.get f.decl.id = .list items) :
    writeField N record fs f room =
      match fs.measure w with
      | .error fault => some ⟨[], some (.fault (.ofPanic record (.arithmetic fault)))⟩
      | .ok count =>
        if items.length < count then
          some ⟨[], some (.shortBuffer record f.decl.id items.length count)⟩
        else
          writeElements
            (fun v room => writePlain N ⟨record, f.decl.id⟩ f.info.endian v room element)
            (items.take count) room := by
  simp only [writeField, ht, hw, hitems]
  rfl

end Equations

/-- What the statements for a record rely on: the types of its fields, procedures for what it nests
that write as `N` does, and the helper for constants where there are any. -/
structure ServesWriting (r : Registry) (e : RecordEntry) (N : Writer) (c : Context) : Prop where
  type? : ∀ f ∈ e.fields, c.type? f.decl.id = some f.decl.type
  write : ∀ f ∈ e.fields, ∀ path, f.decl.type.nested? = some path →
    ∀ v room, v.fits r (.nested path) = true → c.write path v room = ended (N path v room)
  pad : ∀ f ∈ e.fields, ∀ value, f.decl.type = .constant value → ∀ n (s : Machine), n ≤ s.room →
    c.pad [.buffer, .value (.bytes value.toUTF8.toList), .number n] s =
      (.ok .unit, s.wrote (padded value n))

section Field

variable {r : Registry} {N : Writer} {e : RecordEntry} {record : String} {f : RecordedField}
  {body : Block}

theorem write_constant (h : Scope env) (hc : ServesWriting r e N c) (hf : f ∈ e.fields)
    {value : String} {n : Nat} (htype : f.decl.type = .constant value)
    (hwidth : f.info.width = some (.literal n))
    (hbody : Subject.encode ⟨record, f.decl, f.info⟩ false f.decl.type = .ok body) :
    WritesAs record .unit s (writeField N record s.fields f s.room) (runBlock c body env s) := by
  rw [htype] at hbody
  obtain ⟨n', hn, rfl⟩ := Subject.encode_constant.mp hbody
  obtain rfl : n = n' := by simpa [hwidth, Width.fold] using hn
  simp only [writeField, htype, hwidth, Option.bind_some, Width.fold]
  refine write_bytes ⟨record, f.decl, f.info⟩ h _ (by rw [padded_length]; exact .nat _)
    fun hroom => ?_
  rw [padded_length] at hroom
  have hpadded : (machine c).eval (.var "write_padded") env s = _ :=
    Evaluates.unbound (h.free "write_padded" (by simp))
  have hdata : List.Forall₂ (Evaluates c env s)
      [buffer, .literal (.bytes value.toUTF8.toList), .nat n]
      [.buffer, .value (.bytes value.toUTF8.toList), .number n] :=
    .cons (.buffer h) (.cons (.bytes _) (.cons (.nat n) .nil))
  have hcall : (machine c).eval (.call (.var "write_padded")
      [buffer, .literal (.bytes value.toUTF8.toList), .nat n]) env s =
        (.ok .unit, s.wrote (padded value n)) := by
    change ((machine c).eval (.var "write_padded") env >>= fun d => _) s = _
    rw [bind_eq, hpadded]
    change (((machine c).evalAll
      [buffer, .literal (.bytes value.toUTF8.toList), .nat n]).mapM (· env) >>= c.pad) s = _
    rw [bind_eq, Evaluates.mapM hdata]
    exact hc.pad f hf value htype n s hroom
  rw [perform, runBlock_ok [] hcall, runBlock_nil]

theorem write_byteRun (h : Scope env) {w : Width} (hs : Usable s f)
    (hfits : (s.fields.get f.decl.id).fits r .byteRun = true) (htype : f.decl.type = .byteRun)
    (hwidth : f.info.width = some w)
    (hbody : Subject.encode ⟨record, f.decl, f.info⟩ false f.decl.type = .ok body) :
    WritesAs record .unit s (writeField N record s.fields f s.room) (runBlock c body env s) := by
  rw [htype] at hbody
  obtain ⟨w', hw, rfl⟩ := Subject.encode_byteRun.mp hbody
  obtain rfl := Option.some.inj (hwidth.symm.trans hw)
  obtain ⟨data, hdata⟩ := Value.fits_byteRun.mp hfits
  have hv := Machine.get?_field hs.stored
  rw [writeField_byteRun N record s.room htype hwidth hdata]
  rw [hdata] at hv
  have hlower := eval_lower (c := c) h (hs.width w hwidth)
  cases hm : s.fields.measure w with
  | error fault =>
    rw [hm] at hlower
    rw [declareSize, runBlock_binding_error _ hlower]
    exact .broken_now fault
  | ok n =>
    rw [hm] at hlower
    rw [declareSize, runBlock_binding _ hlower]
    have hscope := h.bind "len" (by decide) (.number n)
    have hn : Evaluates c (("len", .number n) :: env) s (.var "len") (.number n) := .bound rfl
    have hdenotes : Denotes c (("len", .number n) :: env)
        (Subject.place ⟨record, f.decl, f.info⟩ false) (.field f.decl.id) :=
      fun s v _ => .field hscope hs.hash
    dsimp only
    by_cases hshort : data.length < n
    · rw [if_pos hshort, runBlock_requireStored_short hdenotes hv (Or.inl ⟨data, rfl⟩) hn _ hscope
        hshort]
      exact .failed_now _
    · have hlen := Nat.le_of_not_lt hshort
      have hlength : (data.take n).length = n := by simpa using hlen
      have hstart := (hdenotes hv).start (toBytes_place hv) hn hlen
      rw [if_neg hshort, runBlock_requireStored hdenotes hv (Or.inl ⟨data, rfl⟩) hn _ hlen]
      have hexpected : Evaluates c (("len", .number n) :: env) s (.var "len")
          (.number (data.take n).length) := by
        rw [hlength]
        exact hn
      refine write_bytes ⟨record, f.decl, f.info⟩ hscope _ hexpected fun hroom => ?_
      have hput := eval_putSlice (.buffer hscope) hstart rfl hroom
      rw [Subject.putSlice, perform, runBlock_ok [] hput, runBlock_nil]

end Field

/-! ### Slices -/

/-- A loop whose body writes one element writes them all. -/
theorem write_elements {record : String} (E : Value → Nat → Option Writing)
    (body : Nat → Exec Datum) {items : List Value} {fs : Fields}
    (hbody : ∀ i v (s : Machine), items[i]? = some v → s.fields = fs →
      WritesAs record .unit s (E v s.room) (body i s))
    (count start : Nat) (hle : start + count ≤ items.length) (s : Machine) (hs : s.fields = fs) :
    WritesAs record .unit s (writeElements E ((items.drop start).take count) s.room)
      (((fun _ => Datum.unit) <$> forFrom body start count) s) := by
  induction count generalizing start s with
  | zero => exact .done_now
  | succ count ih =>
    have hlt : start < items.length := by omega
    have hstep : (fun _ => Datum.unit) <$> forFrom body start (count + 1) =
        body start >>= fun _ => (fun _ => Datum.unit) <$> forFrom body (start + 1) count := by
      simp [forFrom]
    rw [hstep, List.drop_eq_getElem_cons hlt, List.take_succ_cons]
    refine (hbody start _ s (List.getElem?_eq_getElem hlt) hs).bind fun bytes _ => ?_
    exact ih (start + 1) (by omega) (s.wrote bytes) hs

theorem write_slice {r : Registry} {N : Writer} {e : RecordEntry} {record : String}
    {f : RecordedField} {element : FieldType} {body : Block} (h : Scope env)
    (hc : ServesWriting r e N c) (hf : f ∈ e.fields) {w : Width} (hs : Usable s f)
    (hfits : (s.fields.get f.decl.id).fits r (.slice element) = true)
    (htype : f.decl.type = .slice element) (hwidth : f.info.width = some w)
    (hplain : element.Plain fun _ => True)
    (hbody : Subject.encode ⟨record, f.decl, f.info⟩ false f.decl.type = .ok body) :
    WritesAs record .unit s (writeField N record s.fields f s.room) (runBlock c body env s) := by
  rw [htype] at hbody
  obtain ⟨w', inner, hw, hinner, rfl⟩ := Subject.encode_slice.mp hbody
  obtain rfl := Option.some.inj (hwidth.symm.trans hw)
  obtain ⟨items, hitems, hall⟩ := Value.fits_slice.mp hfits
  have hv := Machine.get?_field hs.stored
  rw [writeField_slice N record s.room htype hwidth hitems]
  rw [hitems] at hv
  have hlower := eval_lower (c := c) h (hs.width w hwidth)
  cases hm : s.fields.measure w with
  | error fault =>
    rw [hm] at hlower
    rw [declareSize, runBlock_binding_error _ hlower]
    exact .broken_now fault
  | ok count =>
    rw [hm] at hlower
    rw [declareSize, runBlock_binding _ hlower]
    have hscope := h.bind "count" (by decide) (.number count)
    have hn : Evaluates c (("count", .number count) :: env) s (.var "count") (.number count) :=
      .bound rfl
    have hdenotes : Denotes c (("count", .number count) :: env)
        (Subject.place ⟨record, f.decl, f.info⟩ false) (.field f.decl.id) :=
      fun s v _ => .field hscope hs.hash
    dsimp only
    by_cases hshort : items.length < count
    · rw [if_pos hshort, runBlock_requireStored_short hdenotes hv (Or.inr ⟨items, rfl⟩) hn _ hscope
        hshort]
      exact .failed_now _
    · have hlen := Nat.le_of_not_lt hshort
      rw [if_neg hshort, runBlock_requireStored hdenotes hv (Or.inr ⟨items, rfl⟩) hn _ hlen]
      refine WritesAs.single ?_
      rw [eval_forElements rfl]
      refine write_elements _ (fun i => runBlock c inner (("i", .number i) ::
        ("count", .number count) :: env)) (fun i v s' hi hs' => ?_) count 0 (by omega) s rfl
      have hinside := hscope.bind "i" (by decide) (.number i)
      have hfield : s'.fields.lookup f.decl.id = some (.list items) := hs' ▸ hv
      have helement : Denotes c (("i", .number i) :: ("count", .number count) :: env)
          (Subject.place ⟨record, f.decl, f.info⟩ true) (.element f.decl.id i) :=
        fun s v hv => .element hinside hs.hash rfl hv
      have hfits := hall v (List.mem_of_getElem? hi)
      have htype? : c.type? f.decl.id = some (.slice element) := by rw [hc.type? f hf, htype]
      exact write_plain hinside hplain hinner helement
        ((Machine.get?_element hfield i).trans hi) hfits (by simp [Context.target?, htype?])
        fun path hpath => hc.write f hf path (by rw [htype]; exact hpath) v _
          (Value.fits_target hpath ▸ hfits)

/-! ### Records -/

section Record

variable {r : Registry} {N : Writer} {e : RecordEntry} {before after : List RecordedField}
  {f : RecordedField} {record : String} (he : e.Determined)
  (hhash : ∀ g ∈ e.fields, '#' ∉ g.decl.id.toList) (hc : ServesWriting r e N c) (h : Scope env)

include he hhash hc h

theorem write_field {body : Block} (hs : Fields.Fit r e s.fields)
    (hsplit : e.fields = before ++ f :: after)
    (hbody : Subject.encode ⟨record, f.decl, f.info⟩ false f.decl.type = .ok body) :
    WritesAs record .unit s (writeField N record s.fields f s.room) (runBlock c body env s) := by
  have hmem : f ∈ e.fields := by simp [hsplit]
  have hstored : f.decl.type.isStored = true → f.decl.id ∈ s.fields.keys := hs.ready.mem_keys hmem
  have husable : ∀ {w : Width}, f.decl.type.isStored = true → f.info.width = some w →
      Analysis.RefersTo (before.map (·.decl)) w → Usable s f := by
    intro w hstored hwidth refs
    refine ⟨hhash f hmem, hs.ready.mem_keys hmem hstored, fun w' hw' id hid => ?_⟩
    obtain rfl : w = w' := Option.some.inj (hwidth.symm.trans hw')
    obtain ⟨d, hd, rfl, k, hk⟩ := refs id hid
    obtain ⟨g, hg, rfl⟩ := List.mem_map.mp hd
    have hin : g ∈ e.fields := by simp [hsplit, hg]
    have hkept : g.decl.type.isStored = true := by rw [hk]; rfl
    have hfits := hs.value g hin hkept
    rw [hk] at hfits
    obtain ⟨n, hn, _⟩ := Value.fits_scalar.mp hfits
    refine ⟨hhash g hin, n, ?_⟩
    rw [Fields.lookup_eq (hs.ready.mem_keys hin hkept), hn]
  have hf := he.field hsplit
  generalize htype : f.decl.type = type at hf
  cases hf with
  | plain hplain =>
    have hkept : f.decl.type.isStored = true := htype ▸ hplain.isStored
    have hfits := hs.value f hmem hkept
    rw [htype] at hbody hfits
    rw [writeField_plain (htype ▸ hplain), htype]
    exact write_plain h hplain hbody (fun s v _ => .field h (hhash f hmem))
      (Machine.get?_field (hs.ready.mem_keys hmem hkept)) hfits
      (by simp [Context.target?, hc.type? f hmem, htype])
      fun path hpath => hc.write f hmem path
        (by rw [htype]; exact FieldType.nested?_of_target? hpath) _ _
        (Value.fits_target hpath ▸ hfits)
  | constant width => exact write_constant h hc hmem htype width hbody
  | byteRun width refs =>
    have hkept : f.decl.type.isStored = true := by rw [htype]; rfl
    exact write_byteRun h (husable hkept width refs) (htype ▸ hs.value f hmem hkept) htype width
      hbody
  | slice width hplain refs =>
    have hkept : f.decl.type.isStored = true := by rw [htype]; rfl
    exact write_slice h hc hmem (husable hkept width refs) (htype ▸ hs.value f hmem hkept) htype
      width hplain hbody

/-- The statements for all fields do what writing them does. -/
theorem write_fields {blocks : Block} {fs : Fields}
    (hblocks : FieldBlocks (fun sub => sub.encode false sub.field.type) record after blocks)
    (hsplit : e.fields = before ++ after) (hfit : Fields.Fit r e fs) (hs : s.fields = fs) :
    WritesAs record (.result none) s (writeFields N record fs after s.room)
      (runBlock c (blocks ++ [success]) env s) := by
  induction hblocks generalizing before s with
  | nil =>
    rw [List.nil_append, runBlock_success h]
    exact .done_now
  | @cons f b after blocks hb _ ih =>
    obtain ⟨body, hbody, rfl⟩ := hb
    have hfield : WritesAs record .unit s (writeField N record fs f s.room)
        ((machine c).eval (.block none false body) env s) := by
      rw [← hs] at hfit ⊢
      exact write_field he hhash hc h hfit hsplit hbody
    have hrest : e.fields = (before ++ [f]) ++ after := by simp [hsplit]
    exact WritesAs.cons _ hfield fun bytes _ => ih (s := s.wrote bytes) hrest hs

end Record

end WireRecords.Execution
