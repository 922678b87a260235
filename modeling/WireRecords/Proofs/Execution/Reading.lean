import WireRecords.Proofs.Codec.Termination
import WireRecords.Proofs.Codec.Truncation
import WireRecords.Proofs.Execution.Steps
import WireRecords.Proofs.Program.Emission

/-!
# Reading procedures on the machine

The statements for a field do what `readField` says: they end with the same fields and the same
input, or with the same error. So no access of theirs is out of range.
-/
namespace WireRecords.Execution

open Codec Program Exec

variable {c : Context} {env : Bindings} {s s' : Machine}

namespace Machine

theorem get?_put_field {id : String} (h : id ∈ s.fields.keys) (v : Value) :
    (s.put (.field id) v).get? (.field id) = some v := by
  have hmem : id ∈ (s.put (.field id) v).fields.keys := by
    rw [put, Fields.keys_set]
    exact h
  rw [get?_field hmem, put, Fields.get_set_self v h]

section Element

variable {fs : Fields} {id : String} {items : List Value} {i : Nat}
  (hs : s.fields = fs.set id (.list items)) (hid : id ∈ fs.keys)

include hs hid

theorem lookup_of_set : s.fields.lookup id = some (.list items) := by
  rw [hs, Fields.lookup_eq (by rwa [Fields.keys_set]), Fields.get_set_self _ hid]

theorem put_element (v : Value) :
    s.put (.element id i) v = { s with fields := fs.set id (.list (items.set i v)) } := by
  rw [put, hs, Fields.get_set_self _ hid, Fields.set_set]
  rfl

theorem put_element_self {v : Value} (hi : items[i]? = some v) :
    s.put (.element id i) v = s := by
  obtain ⟨hlt, rfl⟩ := List.getElem?_eq_some_iff.mp hi
  rw [put_element hs hid, List.set_getElem_self, ← hs]

end Element

theorem get?_input (s : Machine) (bytes : List UInt8) (p : Place) :
    Machine.get? { s with input := bytes } p = s.get? p := by
  cases p <;> rfl

theorem put_input (s : Machine) (bytes : List UInt8) (p : Place) (v : Value) :
    Machine.put { s with input := bytes } p v = { s.put p v with input := bytes } := by
  cases p <;> rfl

end Machine

/-! ### Taking bytes -/

theorem takeInput_eq {count : Nat} (h : count ≤ s.input.length) :
    takeInput count s = (.ok (s.input.take count), { s with input := s.input.drop count }) := by
  change (if s.input.length < count then halt .outOfRange
    else modify (fun s => { s with input := s.input.drop count }) >>= fun _ =>
      pure (s.input.take count)) s = _
  rw [if_neg (Nat.not_lt.mpr h)]
  rfl

theorem methods_get (k : Scalar) (endian : Endian) :
    methods.lookup (scalarOperation "get" k endian) = some (.get k (namedOrder k endian)) := by
  cases k <;> cases endian <;> decide

theorem eval_get (h : Scope env) (k : Scalar) (endian : Endian)
    (hlen : k.width ≤ s.input.length) :
    (machine c).eval (.method buffer (scalarOperation "get" k endian) []) env s =
      (.ok (.value (.integer (k.decode endian (s.input.take k.width)))),
        { s with input := s.input.drop k.width }) := by
  rw [Evaluates.eval_method (methods_get k endian) (.buffer h) .nil]
  change (takeInput k.width >>= fun bytes => _) s = _
  rw [bind_eq, takeInput_eq hlen]
  dsimp only [Scalar.decode]
  rw [arrange_namedOrder endian (by simpa using hlen)]
  rfl

theorem eval_assign {target e : Expr} {p : Place} {v old : Value}
    (hp : Denotes c env target p) (he : (machine c).eval e env s = (.ok (.value v), s'))
    (hold : s'.get? p = some old) :
    (machine c).eval (.assign target e) env s = (.ok .unit, s'.put p v) := by
  have htarget : (machine c).eval target env s' = _ := hp hold
  change ((machine c).eval e env >>= fun d => d.toValue >>= fun v =>
    (machine c).eval target env >>= fun d => d.toPlace >>= fun p => _) s = _
  rw [bind_eq, he]
  change ((machine c).eval target env >>= fun d => d.toPlace >>= fun p => _) s' = _
  rw [bind_eq, htarget]
  change (store p v >>= fun _ => pure Datum.unit) s' = _
  rw [bind_eq, store_eq hold]
  rfl

theorem eval_fill {target : Expr} {p : Place} {old : List UInt8} (h : Scope env)
    (hp : Denotes c env target p) (hold : s.get? p = some (.bytes old))
    (hlen : old.length ≤ s.input.length) :
    (machine c).eval (.method buffer "copy_to_slice" [.borrow true target]) env s =
      (.ok .unit, Machine.put { s with input := s.input.drop old.length } p
        (.bytes (s.input.take old.length))) := by
  rw [Evaluates.eval_method (m := .copyToSlice) rfl (.buffer h) (.cons (hp hold).borrow .nil)]
  change (((load p >>= fun v => _) : Exec (List UInt8)) >>= fun old =>
    takeInput old.length >>= fun bytes => store p (.bytes bytes) >>= fun _ => pure Datum.unit) s = _
  rw [bind_eq, bind_eq, load_eq hold]
  change (takeInput old.length >>= fun bytes => store p (.bytes bytes) >>= fun _ =>
    pure Datum.unit) s = _
  rw [bind_eq, takeInput_eq hlen]
  dsimp only
  rw [bind_eq, store_eq (by rw [Machine.get?_input]; exact hold)]
  rfl

theorem received_eq {p : Place} {v : Value} (hv : s.get? p = some v) (q : Reading Value) :
    Context.received p (.ok q) s = (.ok (.result (q.error.map .decode)),
      Machine.put { s with input := q.rest } p q.value) := by
  change (store p q.value >>= fun _ => _) { s with input := q.rest } = _
  rw [bind_eq, store_eq (by rw [Machine.get?_input]; exact hv)]
  rfl

/-- Calls the reading procedure of what is stored at a place. -/
theorem eval_readBinary {target : Expr} {p : Place} {path : String} {v : Value} (h : Scope env)
    (hp : Denotes c env target p) (hpath : c.target? p = some path) (hv : s.get? p = some v) :
    (machine c).eval (.propagate (.method target "read_binary" [buffer])) env s =
      match c.read path v s.input with
      | .ok ⟨w, rest, none⟩ => (.ok .unit, Machine.put { s with input := rest } p w)
      | .ok ⟨w, rest, some e⟩ =>
        (.error (.returned (.result (some (.decode e)))), Machine.put { s with input := rest } p w)
      | .error halted => (.error (.halted halted), s) := by
  have hread : c.method .readBinary (.place p) [.buffer] s =
      Context.received p (c.read path v s.input) s := by
    change (ofOption .stuck (c.target? p) >>= fun path => load p >>= fun v => _) s = _
    rw [hpath, bind_eq]
    change (load p >>= fun v => _) s = _
    rw [bind_eq, load_eq hv]
    rfl
  change ((machine c).eval (.method target "read_binary" [buffer]) env >>= propagate) s = _
  rw [bind_eq, Evaluates.eval_method (m := .readBinary) rfl (hp hv) (.cons (.buffer h) .nil), hread]
  rcases c.read path v s.input with halted | ⟨w, rest, _ | e⟩
  · rfl
  · rw [received_eq hv]
    rfl
  · rw [received_eq hv]
    rfl

/-! ### Comparison with reading -/

/-- A computation for a record ends as reading does: with a value where reading has no error, and
otherwise with that error or by breaking off with that fault. Where reading has no end it has
none. -/
inductive ReadsAs (record : String) (d : Datum) :
    Option (Reading Fields) → Except Stop Datum × Machine → Prop
  | done (s : Machine) : ReadsAs record d (some ⟨s.fields, s.input, none⟩) (.ok d, s)
  | failed (e : DecodeError) (s : Machine) :
      ReadsAs record d (some ⟨s.fields, s.input, some e⟩)
        (.error (.returned (.result (some (.decode e)))), s)
  | broken (fault : ArithmeticFault) (s : Machine) :
      ReadsAs record d
        (some ⟨s.fields, s.input, some (.fault (.ofPanic record (.arithmetic fault)))⟩)
        (.error (.panicked (.arithmetic fault)), s)
  | endless (s : Machine) : ReadsAs record d none (.error (.halted .endless), s)

/-- One computation after another. -/
theorem ReadsAs.bind {record : String} {d d' : Datum} {q q' : Option (Reading Fields)}
    {x k : Exec Datum} (hx : ReadsAs record d q (x s))
    (hdone : ∀ s', q = some ⟨s'.fields, s'.input, none⟩ → ReadsAs record d' q' (k s'))
    (hfailed : (∀ fs rest, q ≠ some ⟨fs, rest, none⟩) → q' = q) :
    ReadsAs record d' q' ((x >>= fun _ => k) s) := by
  rw [bind_eq]
  generalize x s = out at hx
  cases hx with
  | done s' => exact hdone s' rfl
  | failed e s' =>
    rw [hfailed (by simp)]
    exact .failed e s'
  | broken fault s' =>
    rw [hfailed (by simp)]
    exact .broken fault s'
  | endless s' =>
    rw [hfailed (by simp)]
    exact .endless s'

/-- A statement whose value is the unit, before others. -/
theorem ReadsAs.cons {e : Expr} {hasSemicolon : Bool} (ss : Block) {record : String}
    {d : Datum} {q q' : Option (Reading Fields)}
    (hx : ReadsAs record .unit q ((machine c).eval e env s))
    (hdone : ∀ s', q = some ⟨s'.fields, s'.input, none⟩ →
      ReadsAs record d q' (runBlock c ss env s'))
    (hfailed : (∀ fs rest, q ≠ some ⟨fs, rest, none⟩) → q' = q) :
    ReadsAs record d q' (runBlock c (.expr e hasSemicolon :: ss) env s) := by
  have hseq : runBlock c (.expr e hasSemicolon :: ss) env s =
      ((machine c).eval e env >>= fun _ => runBlock c ss env) s := by
    rw [bind_eq]
    generalize hout : (machine c).eval e env s = out at hx
    cases hx with
    | done s' => exact runBlock_ok ss hout
    | failed e s' => exact runBlock_error ss hout
    | broken fault s' => exact runBlock_error ss hout
    | endless s' => exact runBlock_error ss hout
  rw [hseq]
  exact hx.bind hdone hfailed

theorem ReadsAs.single {e : Expr} {hasSemicolon : Bool} {record : String}
    {q : Option (Reading Fields)} (hx : ReadsAs record .unit q ((machine c).eval e env s)) :
    ReadsAs record .unit q (runBlock c [.expr e hasSemicolon] env s) := by
  refine ReadsAs.cons [] hx (fun s' hdone => ?_) fun _ => rfl
  rw [runBlock_nil, hdone]
  exact .done s'

namespace ReadsAs

variable {record : String} {d : Datum} {p : Place}

theorem done_put (w : Value) (rest : List UInt8) :
    ReadsAs record d (some ⟨(s.put p w).fields, rest, none⟩)
      (.ok d, Machine.put { s with input := rest } p w) := by
  rw [Machine.put_input s rest p w]
  exact .done { s.put p w with input := rest }

theorem failed_put (w : Value) (rest : List UInt8) (e : DecodeError) :
    ReadsAs record d (some ⟨(s.put p w).fields, rest, some e⟩)
      (.error (.returned (.result (some (.decode e)))),
        Machine.put { s with input := rest } p w) := by
  rw [Machine.put_input s rest p w]
  exact .failed e { s.put p w with input := rest }

end ReadsAs

/-! ### Fields and elements in one piece -/

section Checks

variable {sub : Subject} {expected : Expr} {n : Nat} (h : Scope env)
  (he : Evaluates c env s expected (.number n)) (ss : Block)

include h he

theorem runBlock_requireInput (hle : n ≤ s.input.length) :
    runBlock c (sub.requireInput expected :: ss) env s = runBlock c ss env s :=
  runBlock_require ss (.inputRest h) he hle

theorem runBlock_requireInput_short (hlt : s.input.length < n) :
    runBlock c (sub.requireInput expected :: ss) env s =
      (.error (.returned (.result (some (.decode
        (.shortRead sub.record sub.field.id s.input.length n))))), s) :=
  runBlock_require_short ss h (.inputRest h) he hlt rfl

end Checks

section Plain

variable {r : Registry} {N : Reader} {sub : Subject} {isElement : Bool} {type : FieldType}
  {body : Block} {p : Place} {v : Value}

/-- The statements for what is read in one piece, at the place where it is stored. -/
theorem read_plain (h : Scope env) (hplain : type.Plain fun _ => True)
    (hbody : sub.decode r isElement type = .ok body)
    (hp : Denotes c env (sub.place isElement) p) (hv : s.get? p = some v)
    (hfits : v.fits r type = true) (hself : s.put p v = s) (htarget : c.target? p = type.target?)
    (hread : ∀ path, type.target? = some path →
      c.read path v s.input = ended (N path v s.input)) :
    ReadsAs sub.record .unit
      ((readPlain N ⟨sub.record, sub.field.id⟩ sub.info.endian v s.input type).map fun q =>
        ⟨(s.put p q.value).fields, q.rest, q.error⟩)
      (runBlock c body env s) := by
  have hnested : ∀ path, type.target? = some path →
      readPlain N ⟨sub.record, sub.field.id⟩ sub.info.endian v s.input type =
        N path v s.input →
      body = [perform (.propagate (.method (sub.place isElement) "read_binary" [buffer]))] →
      ReadsAs sub.record .unit
        ((readPlain N ⟨sub.record, sub.field.id⟩ sub.info.endian v s.input type).map fun q =>
          ⟨(s.put p q.value).fields, q.rest, q.error⟩)
        (runBlock c body env s) := by
    intro path hpath heq hone
    have heval := eval_readBinary h hp (htarget.trans hpath) hv
    rw [hread path hpath] at heval
    rw [heq, hone]
    rcases hq : N path v s.input with _ | ⟨w, rest, _ | e⟩
    · rw [hq] at heval
      rw [perform, runBlock_error [] heval]
      exact .endless s
    · rw [hq] at heval
      rw [perform, runBlock_ok [] heval, runBlock_nil]
      exact .done_put w rest
    · rw [hq] at heval
      rw [perform, runBlock_error [] heval]
      exact .failed_put w rest e
  cases hplain with
  | scalar k =>
    obtain rfl := Except.ok.inj hbody
    by_cases hlen : k.width ≤ s.input.length
    · have hassign := eval_assign hp (eval_get h k sub.info.endian hlen)
        (by rw [Machine.get?_input]; exact hv)
      rw [runBlock_requireInput h (.nat _) _ hlen, perform, runBlock_ok [] hassign, runBlock_nil]
      simp only [readPlain, take_of_le hlen, Option.map_some]
      exact .done_put _ _
    · have hshort := Nat.lt_of_not_le hlen
      rw [runBlock_requireInput_short h (.nat _) _ hshort]
      simp only [readPlain, take_of_lt hshort, Option.map_some, hself]
      exact .failed _ s
  | bytes length =>
    obtain rfl := Except.ok.inj hbody
    obtain ⟨old, rfl, rfl⟩ := Value.fits_bytes.mp hfits
    by_cases hlen : old.length ≤ s.input.length
    · rw [runBlock_requireInput h (.nat _) _ hlen, Subject.fill, perform,
        runBlock_ok [] (eval_fill h hp hv hlen), runBlock_nil]
      simp only [readPlain, take_of_le hlen, Option.map_some]
      exact .done_put _ _
    · have hshort := Nat.lt_of_not_le hlen
      rw [runBlock_requireInput_short h (.nat _) _ hshort]
      simp only [readPlain, take_of_lt hshort, Option.map_some, hself]
      exact .failed _ s
  | nested _ => exact hnested _ rfl rfl (Except.ok.inj hbody).symm
  | boxed _ => exact hnested _ rfl rfl (Except.ok.inj hbody).symm

end Plain

/-! ### Constants and byte runs -/

theorem eval_zeros {zero e : Expr} {n : Nat} (hzero : Evaluates c env s zero (.number 0))
    (he : Evaluates c env s e (.number n)) :
    Evaluates c env s (.repetition zero e) (.value (.bytes (List.replicate n 0))) := by
  change ((machine c).eval zero env >>= fun v => (machine c).eval e env >>= fun n =>
    repetition v n) s = _
  rw [bind_eq, hzero]
  dsimp only
  rw [bind_eq, he]
  rfl

theorem eval_toVec {e : Expr} {d : Datum} {data : List UInt8} (he : Evaluates c env s e d)
    (hd : d.toBytes s = (.ok data, s)) :
    Evaluates c env s (.method e "to_vec" []) (.value (.bytes data)) := by
  rw [Evaluates, Evaluates.eval_method (m := .toVec) rfl he .nil]
  change (d.toBytes >>= fun data => pure (Datum.value (.bytes data))) s = _
  rw [bind_eq, hd]
  rfl

/-- Compares bytes that were read with those of a constant. -/
theorem read_content (sub : Subject) {p : Place} {actual : List UInt8} (h : Scope env)
    (hactual : env.lookup "actual" = some (.place p)) (hp : s.get? p = some (.bytes actual))
    (expected : List UInt8) :
    ReadsAs sub.record .unit
      (if actual = expected then some ⟨s.fields, s.input, none⟩
        else some ⟨s.fields, s.input,
          some (.contentMismatch sub.record sub.field.id actual expected)⟩)
      (runBlock c [when (.binary "!=" (.var "actual") (.deref (.literal (.bytes expected))))
        [fail "DecodeError" "ContentMismatch"
          [("record", .text sub.record), ("field", .text sub.field.id),
            ("expected", .method (.literal (.bytes expected)) "to_vec" []),
            ("actual", .method (.var "actual") "to_vec" [])]]] env s) := by
  have hplace : Evaluates c env s (.var "actual") (.place p) := .bound hactual
  have hcondition : Evaluates c env s
      (.binary "!=" (.var "actual") (.deref (.literal (.bytes expected))))
      (.bool (decide (actual ≠ expected))) := by
    rw [Evaluates, Evaluates.eval_binary hplace (Evaluates.bytes expected).deref]
    change ((Datum.place p).toBytes >>= fun a => _) s = _
    rw [bind_eq, toBytes_place hp]
    rfl
  split
  · rename_i heq
    rw [decide_eq_false (not_not_intro heq)] at hcondition
    rw [runBlock_when_false [] hcondition, runBlock_nil]
    exact .done s
  · rename_i hne
    rw [decide_eq_true hne] at hcondition
    have hdata : List.Forall₂ (Evaluates c env s)
        [.text sub.record, .text sub.field.id, .method (.literal (.bytes expected)) "to_vec" [],
          .method (.var "actual") "to_vec" []]
        [.text sub.record, .text sub.field.id, .value (.bytes expected), .value (.bytes actual)] :=
      .cons (.text _) (.cons (.text _) (.cons (eval_toVec (.bytes _) rfl)
        (.cons (eval_toVec hplace (toBytes_place hp)) .nil)))
    have hfail := runBlock_fail h "DecodeError" "ContentMismatch"
      [("record", .text sub.record), ("field", .text sub.field.id),
        ("expected", .method (.literal (.bytes expected)) "to_vec" []),
        ("actual", .method (.var "actual") "to_vec" [])] hdata
      (f := .decode (.contentMismatch sub.record sub.field.id actual expected)) rfl
    rw [runBlock_when_true [] hcondition hfail]
    exact .failed _ s

section Field

variable {r : Registry} {N : Reader} {record : String} {f : RecordedField} {body : Block}

theorem read_constant (h : Scope env) {value : String} {n : Nat}
    (htype : f.decl.type = .constant value) (hwidth : f.info.width = some (.literal n))
    (hbody : Subject.decode ⟨record, f.decl, f.info⟩ r false f.decl.type = .ok body) :
    ReadsAs record .unit (readField r N record s.fields f s.input) (runBlock c body env s) := by
  rw [htype] at hbody
  obtain ⟨n', hn, rfl⟩ := Subject.decode_constant.mp hbody
  obtain rfl : n = n' := by simpa [hwidth, Width.fold] using hn
  rw [readField_constant r N record s.fields s.input htype hwidth]
  by_cases hlen : n ≤ s.input.length
  · let s₁ : Machine := { s with slots := s.slots ++ [.bytes (List.replicate n 0)] }
    have hzeros : Evaluates c env s (.repetition (.literal .zeroByte) (.nat n))
        (.value (.bytes (List.replicate n 0))) := eval_zeros rfl (.nat n)
    have hscope := h.bind "actual" (by decide) (.place (.slot s.slots.length))
    have hdenotes : Denotes c (("actual", .place (.slot s.slots.length)) :: env) (.var "actual")
        (.slot s.slots.length) := fun s v _ => .bound rfl
    have hslot : s₁.get? (.slot s.slots.length) = some (.bytes (List.replicate n 0)) := by
      simp [s₁, Machine.get?]
    have hfill := eval_fill hscope hdenotes hslot (by simpa [s₁] using hlen)
    rw [List.length_replicate] at hfill
    let s₂ : Machine := Machine.put { s₁ with input := s.input.drop n } (.slot s.slots.length)
      (.bytes (s.input.take n))
    have hread : s₂.get? (.slot s.slots.length) = some (.bytes (s.input.take n)) := by
      simp [s₁, s₂, Machine.get?, Machine.put]
    rw [runBlock_requireInput h (.nat _) _ hlen, runBlock_mutable _ hzeros, Subject.fill, perform,
      runBlock_ok _ hfill, take_of_le hlen]
    exact read_content (s := s₂) ⟨record, f.decl, f.info⟩ hscope rfl hread (padded value n)
  · have hshort := Nat.lt_of_not_le hlen
    rw [runBlock_requireInput_short h (.nat _) _ hshort, take_of_lt hshort]
    exact .failed _ s

theorem read_byteRun (h : Scope env) {w : Width} (hs : Usable s f)
    (htype : f.decl.type = .byteRun) (hwidth : f.info.width = some w)
    (hbody : Subject.decode ⟨record, f.decl, f.info⟩ r false f.decl.type = .ok body) :
    ReadsAs record .unit (readField r N record s.fields f s.input) (runBlock c body env s) := by
  rw [htype] at hbody
  obtain ⟨w', hw, rfl⟩ := Subject.decode_byteRun.mp hbody
  obtain rfl := Option.some.inj (hwidth.symm.trans hw)
  rw [readField_byteRun r N record s.fields s.input htype hwidth]
  have hlower := eval_lower (c := c) h (hs.width w hwidth)
  cases hm : s.fields.measure w with
  | error fault =>
    rw [hm] at hlower
    rw [declareSize, runBlock_binding_error _ hlower]
    exact .broken fault s
  | ok n =>
    rw [hm] at hlower
    rw [declareSize, runBlock_binding _ hlower]
    have hscope := h.bind "len" (by decide) (.number n)
    have hn : ∀ s, Evaluates c (("len", .number n) :: env) s (.var "len") (.number n) :=
      fun s => .bound rfl
    dsimp only
    by_cases hlen : n ≤ s.input.length
    · let s₁ : Machine := s.put (.field f.decl.id) (.bytes (List.replicate n 0))
      have hdenotes : Denotes c (("len", .number n) :: env)
          (Subject.place ⟨record, f.decl, f.info⟩ false) (.field f.decl.id) :=
        fun s v _ => .field hscope hs.hash
      have hzeros : Evaluates c (("len", .number n) :: env) s (.vector (.nat 0) (.var "len"))
          (.value (.bytes (List.replicate n 0))) := eval_zeros (.nat 0) (hn s)
      have hassign := eval_assign hdenotes hzeros (Machine.get?_field hs.stored)
      have hold := Machine.get?_put_field hs.stored (.bytes (List.replicate n 0))
      have hfill := eval_fill hscope hdenotes hold (by simpa [Machine.put] using hlen)
      rw [List.length_replicate] at hfill
      rw [runBlock_requireInput hscope (hn s) _ hlen, perform, runBlock_ok _ hassign, Subject.fill,
        perform, runBlock_ok _ hfill, runBlock_nil, take_of_le hlen]
      dsimp only
      rw [← Fields.set_set s.fields f.decl.id (.bytes (List.replicate n 0))]
      exact .done_put (s := s₁) (p := .field f.decl.id) _ _
    · have hshort := Nat.lt_of_not_le hlen
      rw [runBlock_requireInput_short hscope (hn s) _ hshort, take_of_lt hshort]
      exact .failed _ s

end Field

/-! ### Slices -/

section Loop

variable {record : String} (one : List UInt8 → Option (Reading Value)) (body : Nat → Exec Datum)
  {fs : Fields} {id : String}

/-- A loop whose body reads one more element into a field reads them all. -/
theorem read_elements
    (hbody : ∀ items (s : Machine), s.fields = fs.set id (.list items) →
      ReadsAs record .unit
        ((one s.input).map fun q => ⟨fs.set id (.list (items ++ [q.value])), q.rest, q.error⟩)
        (body items.length s))
    (count : Nat) (items : List Value) (s : Machine) (hs : s.fields = fs.set id (.list items)) :
    ReadsAs record .unit
      ((readElements one count s.input).map fun q =>
        ⟨fs.set id (.list (items ++ q.value)), q.rest, q.error⟩)
      (((fun _ => Datum.unit) <$> forFrom body items.length count) s) := by
  induction count generalizing items s with
  | zero =>
    simp only [readElements, Option.map_some, List.append_nil, ← hs]
    exact .done s
  | succ count ih =>
    have hstep : (fun _ => Datum.unit) <$> forFrom body items.length (count + 1) =
        body items.length >>= fun _ =>
          (fun _ => Datum.unit) <$> forFrom body (items.length + 1) count := by
      simp [forFrom]
    rw [hstep]
    refine (hbody items s hs).bind (fun s' hdone => ?_) fun hfailed => ?_
    · obtain ⟨⟨v, rest, error⟩, hone, hq⟩ := Option.map_eq_some_iff.mp hdone
      simp only [Reading.mk.injEq] at hq
      obtain ⟨hfields, rfl, rfl⟩ := hq
      have hnext := ih (items ++ [v]) s' hfields.symm
      rw [List.length_append, List.length_singleton] at hnext
      simp only [readElements, hone, Option.map_map]
      simpa [Function.comp_def] using hnext
    · rcases hone : one s.input with _ | ⟨v, rest, _ | e⟩
      · simp [readElements, hone]
      · simp [hone] at hfailed
      · simp [readElements, hone]

end Loop

/-- What the statements for a record rely on: the types of its fields, initial values, and
procedures for what it nests that read as `N` does. -/
structure ServesReading (r : Registry) (e : RecordEntry) (N : Reader) (c : Context) : Prop where
  type? : ∀ f ∈ e.fields, c.type? f.decl.id = some f.decl.type
  default? : ∀ type, c.default? type =
    if (initialOf (initial r) type).fits r type = true then some (initialOf (initial r) type)
    else none
  read : ∀ f ∈ e.fields, ∀ path, f.decl.type.nested? = some path →
    ∀ v bytes, v.fits r (.nested path) = true → c.read path v bytes = ended (N path v bytes)
  inhabited : ∀ path v bytes q, N path v bytes = some q →
    (initial r path).fits r (.nested path) = true

section Slice

variable {r : Registry} {N : Reader} {e : RecordEntry} {record : String} {f : RecordedField}
  {element : FieldType} {body : Block}

theorem eval_push {target value : Expr} {id : String} {items : List Value} {d : Datum}
    {v : Value} (hp : Denotes c env target (.field id))
    (hitems : s.get? (.field id) = some (.list items)) (hd : Evaluates c env s value d)
    (hv : c.fresh id d s = (.ok v, s)) :
    (machine c).eval (.method target "push" [value]) env s =
      (.ok .unit, s.put (.field id) (.list (items ++ [v]))) := by
  rw [Evaluates.eval_method (m := .push) rfl (hp hitems) (.cons hd .nil)]
  change (c.fresh id d >>= fun v => load (.field id) >>= fun old => _) s = _
  rw [bind_eq, hv]
  dsimp only
  rw [bind_eq, load_eq hitems]
  change (store (.field id) (.list (items ++ [v])) >>= fun _ => pure Datum.unit) s = _
  rw [bind_eq, store_eq hitems]
  rfl

theorem eval_push_error {target value : Expr} {id : String} {items : List Value} {d : Datum}
    {stop : Stop} (hp : Denotes c env target (.field id))
    (hitems : s.get? (.field id) = some (.list items)) (hd : Evaluates c env s value d)
    (hv : c.fresh id d s = (.error stop, s)) :
    (machine c).eval (.method target "push" [value]) env s = (.error stop, s) := by
  rw [Evaluates.eval_method (m := .push) rfl (hp hitems) (.cons hd .nil)]
  change (c.fresh id d >>= fun v => load (.field id) >>= fun old => _) s = _
  rw [bind_eq, hv]

/-- What an element starts from, if its type has an initial value. -/
theorem fresh_eq (hc : ServesReading r e N c) {id : String}
    (htype : c.type? id = some (.slice element)) (hplain : element.Plain fun _ => True)
    (env : Bindings) (s : Machine) :
    ∃ d, Evaluates c env s (defaultValue element) d ∧
      c.fresh id d s =
        if (initialOf (initial r) element).fits r element = true then
          (.ok (initialOf (initial r) element), s)
        else (.error (.halted .endless), s) := by
  have hdefault : c.fresh id .default s =
      if (initialOf (initial r) element).fits r element = true then
        (.ok (initialOf (initial r) element), s)
      else (.error (.halted .endless), s) := by
    simp only [Context.fresh, htype, hc.default?]
    split <;> rfl
  cases hplain with
  | bytes length =>
    refine ⟨_, eval_zeros (.nat 0) (.nat length), ?_⟩
    have hfits : (initialOf (initial r) (.bytes length)).fits r (.bytes length) = true := by
      simp [initialOf, Value.fits]
    rw [if_pos hfits]
    rfl
  | scalar k => exact ⟨.default, rfl, hdefault⟩
  | nested _ => exact ⟨.default, rfl, hdefault⟩
  | boxed _ => exact ⟨.default, rfl, hdefault⟩

/-- Only records can lack an initial value, and those cannot be read. -/
theorem readPlain_eq_none (hc : ServesReading r e N c) (hplain : element.Plain fun _ => True)
    (hfits : (initialOf (initial r) element).fits r element ≠ true) (name : FieldName)
    (endian : Endian) (v : Value) (bytes : List UInt8) :
    readPlain N name endian v bytes element = none := by
  have hnested : ∀ path, (initial r path).fits r (.nested path) ≠ true →
      N path v bytes = none := by
    intro path hpath
    rw [Option.eq_none_iff_forall_ne_some]
    exact fun q hq => hpath (hc.inhabited path v bytes q hq)
  cases hplain with
  | scalar k =>
    refine absurd (Value.fits_scalar.mpr ⟨0, rfl, ?_⟩) hfits
    cases k <;> decide
  | bytes length => exact absurd (Value.fits_bytes.mpr ⟨_, rfl, by simp⟩) hfits
  | nested _ => exact hnested _ hfits
  | boxed _ =>
    rw [Value.fits_boxed] at hfits
    exact hnested _ hfits

/-- Puts a fresh element behind those of a field and reads into it. -/
theorem read_element (h : Scope env) (hc : ServesReading r e N c) (hf : f ∈ e.fields)
    (htype : f.decl.type = .slice element) (hplain : element.Plain fun _ => True)
    (hhash : '#' ∉ f.decl.id.toList) {fs : Fields} (hstored : f.decl.id ∈ fs.keys)
    (hbody : Subject.decode ⟨record, f.decl, f.info⟩ r true element = .ok body)
    (items : List Value) (s : Machine) (hs : s.fields = fs.set f.decl.id (.list items)) :
    ReadsAs record .unit
      ((readPlain N ⟨record, f.decl.id⟩ f.info.endian (initialOf (initial r) element) s.input
        element).map fun q => ⟨fs.set f.decl.id (.list (items ++ [q.value])), q.rest, q.error⟩)
      (runBlock c (perform (.method (Subject.place ⟨record, f.decl, f.info⟩ false) "push"
        [defaultValue element]) :: body) (("i", .number items.length) :: env) s) := by
  have htype? : c.type? f.decl.id = some (.slice element) := by rw [hc.type? f hf, htype]
  have hscope := h.bind "i" (by decide) (.number items.length)
  have hmem : f.decl.id ∈ s.fields.keys := by rwa [hs, Fields.keys_set]
  have hitems : s.get? (.field f.decl.id) = some (.list items) := by
    rw [Machine.get?_field hmem, hs, Fields.get_set_self _ hstored]
  have hdenotes : Denotes c (("i", .number items.length) :: env)
      (Subject.place ⟨record, f.decl, f.info⟩ false) (.field f.decl.id) :=
    fun s v _ => .field hscope hhash
  obtain ⟨d, hd, hfresh⟩ := fresh_eq hc htype? hplain (("i", .number items.length) :: env) s
  by_cases hfits : (initialOf (initial r) element).fits r element = true
  · rw [if_pos hfits] at hfresh
    generalize initialOf (initial r) element = v at hfits hfresh ⊢
    rw [perform, runBlock_ok _ (eval_push hdenotes hitems hd hfresh)]
    let s₁ : Machine := s.put (.field f.decl.id) (.list (items ++ [v]))
    have hs₁ : s₁.fields = fs.set f.decl.id (.list (items ++ [v])) := by
      simp [s₁, Machine.put, hs, Fields.set_set]
    have hlast : (items ++ [v])[items.length]? = some v := by simp
    have helement : Denotes c (("i", .number items.length) :: env)
        (Subject.place ⟨record, f.decl, f.info⟩ true) (.element f.decl.id items.length) :=
      fun s v hv => .element hscope hhash rfl hv
    have hget := (Machine.get?_element (Machine.lookup_of_set hs₁ hstored) items.length).trans hlast
    have hread := read_plain (N := N) hscope hplain hbody helement hget hfits
      (Machine.put_element_self hs₁ hstored hlast)
      (by simp [Context.target?, htype?]) fun path hpath =>
        hc.read f hf path (by rw [htype]; exact hpath) v _ (Value.fits_target hpath ▸ hfits)
    have hput : ∀ w, (s₁.put (.element f.decl.id items.length) w).fields =
        fs.set f.decl.id (.list (items ++ [w])) := by
      intro w
      simp [Machine.put_element hs₁ hstored]
    simp only [hput] at hread
    exact hread
  · rw [if_neg hfits] at hfresh
    rw [perform, runBlock_error _ (eval_push_error hdenotes hitems hd hfresh),
      readPlain_eq_none hc hplain hfits]
    exact .endless s

/-- The check that the input can hold all elements. -/
theorem runBlock_requireElements (h : Scope env) (r : Registry) (sub : Subject)
    (element : FieldType) {count : Nat} (hcount : env.lookup "count" = some (.number count))
    (ss : Block) :
    match checkSlice r ⟨sub.record, sub.field.id⟩ element count s.input with
    | some e => runBlock c (sub.requireElements (r.elementWidth? element) ++ ss) env s =
        (.error (.returned (.result (some (.decode e)))), s)
    | none => ∃ env', Scope env' ∧ env'.lookup "count" = some (.number count) ∧
        runBlock c (sub.requireElements (r.elementWidth? element) ++ ss) env s =
          runBlock c ss env' s := by
  unfold checkSlice
  cases r.elementWidth? element with
  | none => exact ⟨env, h, hcount, rfl⟩
  | some width =>
    have hproduct : Evaluates c env s (.method (.var "count") "saturating_mul" [.nat width])
        (.number (saturatingMul count width)) :=
      Evaluates.eval_method (m := .saturatingMul) rfl (.bound hcount) (.cons (.nat width) .nil)
    have hscope := h.bind "expected" (by decide)
      (.number (saturatingMul count width))
    have hexpected : Evaluates c (("expected", .number (saturatingMul count width)) :: env) s
        (.var "expected") (.number (saturatingMul count width)) := .bound rfl
    by_cases hshort : s.input.length < saturatingMul count width
    · simp only [hshort, if_true, Subject.requireElements, List.cons_append, declare]
      rw [runBlock_binding _ hproduct, runBlock_requireInput_short hscope hexpected _ hshort]
    · simp only [hshort, if_false, Subject.requireElements, List.cons_append, declare]
      refine ⟨_, hscope, hcount, ?_⟩
      rw [runBlock_binding _ hproduct,
        runBlock_requireInput hscope hexpected _ (Nat.le_of_not_lt hshort)]
      rfl

theorem eval_withCapacity (h : Scope env) {count : Nat}
    (hcount : env.lookup "count" = some (.number count)) :
    (machine c).eval (.call (.path ["Vec", "with_capacity"])
      [.method (.var "count") "min" [inputRest]]) env s = (.ok (.value (.list [])), s) := by
  have hmin : Evaluates c env s (.method (.var "count") "min" [inputRest])
      (.number (min count s.input.length)) :=
    Evaluates.eval_method (m := .min) rfl (.bound hcount) (.cons (.inputRest h) .nil)
  change (((machine c).eval (.method (.var "count") "min" [inputRest]) env) >>= fun d =>
    d.toNumber >>= fun _ => pure (Datum.value (.list []))) s = _
  rw [bind_eq, hmin]
  rfl

/-- Behind the check, a slice is read element by element. -/
theorem read_sliceElements (h : Scope env) (hc : ServesReading r e N c) (hf : f ∈ e.fields)
    (hs : Usable s f) (htype : f.decl.type = .slice element) (hplain : element.Plain fun _ => True)
    {inner : Block} (hinner : Subject.decode ⟨record, f.decl, f.info⟩ r true element = .ok inner)
    {count : Nat} (hcount : env.lookup "count" = some (.number count)) :
    ReadsAs record .unit
      ((readElements (fun bytes => readPlain N ⟨record, f.decl.id⟩ f.info.endian
        (initialOf (initial r) element) bytes element) count s.input).map fun q =>
          ⟨s.fields.set f.decl.id (.list q.value), q.rest, q.error⟩)
      (runBlock c [perform (.assign (Subject.place ⟨record, f.decl, f.info⟩ false)
          (.call (.path ["Vec", "with_capacity"]) [.method (.var "count") "min" [inputRest]])),
        forElements (perform (.method (Subject.place ⟨record, f.decl, f.info⟩ false) "push"
          [defaultValue element]) :: inner)] env s) := by
  have hdenotes : Denotes c env (Subject.place ⟨record, f.decl, f.info⟩ false)
      (.field f.decl.id) := fun s v _ => .field h hs.hash
  have hassign := eval_assign hdenotes (eval_withCapacity h hcount) (Machine.get?_field hs.stored)
  rw [perform, runBlock_ok _ hassign, forElements]
  have hloop := read_elements
    (fun bytes => readPlain N ⟨record, f.decl.id⟩ f.info.endian (initialOf (initial r) element)
      bytes element)
    (fun i => runBlock c (perform (.method (Subject.place ⟨record, f.decl, f.info⟩ false) "push"
      [defaultValue element]) :: inner) (("i", .number i) :: env))
    (fun items s => read_element h hc hf htype hplain hs.hash hs.stored hinner items s)
    count [] (s.put (.field f.decl.id) (.list [])) rfl
  simp only [List.nil_append, List.length_nil, ← eval_forElements hcount] at hloop
  exact ReadsAs.single hloop

theorem read_slice (h : Scope env) (hc : ServesReading r e N c) (hf : f ∈ e.fields) {w : Width}
    (hs : Usable s f) (htype : f.decl.type = .slice element) (hwidth : f.info.width = some w)
    (hplain : element.Plain fun _ => True)
    (hbody : Subject.decode ⟨record, f.decl, f.info⟩ r false f.decl.type = .ok body) :
    ReadsAs record .unit (readField r N record s.fields f s.input) (runBlock c body env s) := by
  rw [htype] at hbody
  obtain ⟨w', inner, hw, hinner, rfl⟩ := Subject.decode_slice.mp hbody
  obtain rfl := Option.some.inj (hwidth.symm.trans hw)
  rw [readField_slice r N record s.fields s.input htype hwidth]
  have hlower := eval_lower (c := c) h (hs.width w hwidth)
  cases hm : s.fields.measure w with
  | error fault =>
    rw [hm] at hlower
    rw [declareSize, List.append_assoc, List.singleton_append, runBlock_binding_error _ hlower]
    exact .broken fault s
  | ok count =>
    rw [hm] at hlower
    rw [declareSize, List.append_assoc, List.singleton_append, runBlock_binding _ hlower]
    have hscope := h.bind "count" (by decide) (.number count)
    have hcheck := runBlock_requireElements (c := c) (s := s) hscope r ⟨record, f.decl, f.info⟩
      element rfl
    dsimp only at hcheck ⊢
    cases hslice : checkSlice r ⟨record, f.decl.id⟩ element count s.input with
    | some error =>
      simp only [hslice] at hcheck
      rw [hcheck]
      exact .failed error s
    | none =>
      simp only [hslice] at hcheck
      obtain ⟨env', hscope', hcount, hrun⟩ := hcheck _
      rw [hrun]
      exact read_sliceElements hscope' hc hf hs htype hplain hinner hcount

end Slice

/-! ### Records -/

section Record

variable {r : Registry} {N : Reader} {e : RecordEntry} {before after : List RecordedField}
  {f : RecordedField}

/-- What holds while a record is read: the fields to come hold values of their types, and the
integers before them have been read. -/
structure Underway (r : Registry) (e : RecordEntry) (before after : List RecordedField)
    (fs : Fields) : Prop where
  ready : Fields.Ready r e after fs
  integer : ∀ g ∈ before, ∀ k, g.decl.type = .scalar k → ∃ n, fs.get g.decl.id = .integer n

theorem Underway.start {fs : Fields} (h : Fields.Ready r e e.fields fs) :
    Underway r e [] e.fields fs :=
  ⟨h, by simp⟩

theorem Underway.set {fs : Fields} (h : Underway r e before (f :: after) fs)
    (hn : (e.fields.map (·.decl.id)).Nodup) (hsplit : e.fields = before ++ f :: after) {v : Value}
    (hstored : f.decl.type.isStored = true)
    (hv : ∀ k, f.decl.type = .scalar k → ∃ n, v = .integer n) :
    Underway r e (before ++ [f]) after (fs.set f.decl.id v) := by
  obtain ⟨hbefore, hafter⟩ := ne_of_split hn hsplit
  refine ⟨h.ready.set hafter v, fun g hg k hk => ?_⟩
  rcases List.mem_append.mp hg with hg | hg
  · rw [Fields.get_set_of_ne v (hbefore g hg)]
    exact h.integer g hg k hk
  · obtain rfl := List.mem_singleton.mp hg
    have hmem : g ∈ e.fields := by simp [hsplit]
    rw [Fields.get_set_self v (h.ready.mem_keys hmem hstored)]
    exact hv k hk

/-- Reading a field leads from one stage to the next. -/
theorem Underway.step {fs gs : Fields} {bytes rest : List UInt8}
    (h : Underway r e before (f :: after) fs) (he : e.Determined)
    (hsplit : e.fields = before ++ f :: after)
    (hread : readField r N record fs f bytes = some ⟨gs, rest, none⟩) :
    Underway r e (before ++ [f]) after gs := by
  have hset : f.decl.type.isStored = true → ∀ {v : Value},
      (∀ k, f.decl.type = .scalar k → ∃ n, v = .integer n) →
      Underway r e (before ++ [f]) after (fs.set f.decl.id v) :=
    fun hstored _ hv => h.set he.nodup hsplit hstored hv
  have hf := he.field hsplit
  generalize htype : f.decl.type = type at hf
  rw [htype] at hset
  cases hf with
  | plain hplain =>
    rw [← htype] at hplain
    obtain ⟨v, hv, rfl⟩ := (readField_plain_ok hplain).mp hread
    refine hset (htype ▸ hplain.isStored) fun k hk => ?_
    rw [htype, hk, readPlain_scalar_ok] at hv
    obtain ⟨word, _, _, rfl⟩ := hv
    exact ⟨_, rfl⟩
  | constant width =>
    obtain ⟨_, rfl⟩ := (readField_constant_ok htype width).mp hread
    refine ⟨h.ready.tail, fun g hg k hk => ?_⟩
    rcases List.mem_append.mp hg with hg | hg
    · exact h.integer g hg k hk
    · rw [List.mem_singleton.mp hg, htype] at hk
      simp at hk
  | byteRun width refs =>
    obtain ⟨data, _, _, rfl⟩ := (readField_byteRun_ok htype width).mp hread
    exact hset rfl fun k hk => by simp at hk
  | slice width hplain refs =>
    obtain ⟨count, items, _, _, _, rfl⟩ := (readField_slice_ok htype width).mp hread
    exact hset rfl fun k hk => by simp at hk

/-- A width refers to integers that have been read. -/
theorem Underway.measurable {fs : Fields} {w : Width} (h : Underway r e before after fs)
    (hbefore : ∀ g ∈ before, g ∈ e.fields) (hhash : ∀ g ∈ e.fields, '#' ∉ g.decl.id.toList)
    (refs : Analysis.RefersTo (before.map (·.decl)) w) : Fields.Measurable fs w := by
  intro id hid
  obtain ⟨d, hd, rfl, k, hk⟩ := refs id hid
  obtain ⟨g, hg, rfl⟩ := List.mem_map.mp hd
  have hmem := hbefore g hg
  obtain ⟨n, hn⟩ := h.integer g hg k hk
  refine ⟨hhash g hmem, n, ?_⟩
  rw [Fields.lookup_eq (h.ready.mem_keys hmem (by rw [hk]; rfl)), hn]

/-- So a field with a width can be used. -/
theorem Underway.usable (hs : Underway r e before (f :: after) s.fields)
    (hsplit : e.fields = before ++ f :: after) (hhash : ∀ g ∈ e.fields, '#' ∉ g.decl.id.toList)
    {w : Width} (hstored : f.decl.type.isStored = true) (hwidth : f.info.width = some w)
    (refs : Analysis.RefersTo (before.map (·.decl)) w) : Usable s f := by
  have hmem : f ∈ e.fields := by simp [hsplit]
  have hbefore : ∀ g ∈ before, g ∈ e.fields := fun g hg => by simp [hsplit, hg]
  refine ⟨hhash f hmem, hs.ready.mem_keys hmem hstored, fun w' hw' => ?_⟩
  obtain rfl : w = w' := Option.some.inj (hwidth.symm.trans hw')
  exact hs.measurable hbefore hhash refs

variable {record : String} (he : e.Determined) (hhash : ∀ g ∈ e.fields, '#' ∉ g.decl.id.toList)
  (hc : ServesReading r e N c) (h : Scope env)

include he hhash hc h

theorem read_field {body : Block} (hsplit : e.fields = before ++ f :: after)
    (hs : Underway r e before (f :: after) s.fields)
    (hbody : Subject.decode ⟨record, f.decl, f.info⟩ r false f.decl.type = .ok body) :
    ReadsAs record .unit (readField r N record s.fields f s.input) (runBlock c body env s) := by
  have hmem : f ∈ e.fields := by simp [hsplit]
  have hf := he.field hsplit
  generalize htype : f.decl.type = type at hf
  cases hf with
  | plain hplain =>
    have hstored := hs.ready.mem_keys hmem (htype ▸ hplain.isStored)
    have hfits := hs.ready.value f List.mem_cons_self (htype ▸ hplain.isStored)
    have hnodup : s.fields.keys.Nodup := by
      rw [hs.ready.keys]
      exact RecordEntry.stored_nodup he.nodup
    have hself : s.put (.field f.decl.id) (s.fields.get f.decl.id) = s := by
      rw [Machine.put, Fields.set_get hnodup hstored]
    rw [htype] at hbody hfits
    rw [readField_plain r N record s.fields s.input (htype ▸ hplain), htype]
    exact read_plain h hplain hbody (fun s v _ => .field h (hhash f hmem))
      (Machine.get?_field hstored) hfits hself (by simp [Context.target?, hc.type? f hmem, htype])
      fun path hpath => hc.read f hmem path
        (by rw [htype]; exact FieldType.nested?_of_target? hpath) _ _
        (Value.fits_target hpath ▸ hfits)
  | constant width => exact read_constant h htype width hbody
  | byteRun width refs =>
    have husable := hs.usable hsplit hhash (by rw [htype]; rfl) width refs
    exact read_byteRun h husable htype width hbody
  | slice width hplain refs =>
    have husable := hs.usable hsplit hhash (by rw [htype]; rfl) width refs
    exact read_slice h hc hmem husable htype width hplain hbody

/-- The statements for all fields do what reading them does. -/
theorem read_fields {blocks : Block}
    (hblocks : FieldBlocks (fun sub => sub.decode r false sub.field.type) record after blocks)
    (hsplit : e.fields = before ++ after) (hs : Underway r e before after s.fields) :
    ReadsAs record (.result none) (readFields r N record s.fields after s.input)
      (runBlock c (blocks ++ [success]) env s) := by
  induction hblocks generalizing before s with
  | nil =>
    rw [List.nil_append, runBlock_success h]
    exact .done s
  | @cons f b after blocks hb _ ih =>
    obtain ⟨body, hbody, rfl⟩ := hb
    have hfield : ReadsAs record .unit (readField r N record s.fields f s.input)
        ((machine c).eval (.block none false body) env s) :=
      read_field he hhash hc h hsplit hs hbody
    refine ReadsAs.cons _ hfield (fun s' hdone => ?_) fun hfailed => ?_
    · simp only [readFields, hdone]
      exact ih (by simp [hsplit]) (hs.step he hsplit hdone)
    · simp only [readFields]

end Record

end WireRecords.Execution
