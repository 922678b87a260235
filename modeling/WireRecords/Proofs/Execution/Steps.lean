import WireRecords.Proofs.Execution.Machine
import WireRecords.Proofs.Names

/-!
# Statements on the machine

What the pieces do that procedures are made of: first expressions, which for the most part only look
at the machine, then statements, each with one equation for every way it can end.
-/
namespace WireRecords.Execution

open Codec Program Exec

theorem unescape_escape {id : String} (h : '#' ∉ id.toList) : unescape (escape id) = id := by
  unfold escape
  split
  · simp [unescape, String.toList_append]
  · unfold unescape
    split
    · rename_i cs hid
      simp [hid] at h
    · rfl

variable {c : Context} {env : Bindings} {s s' : Machine}

theorem load_eq {p : Place} {v : Value} (h : s.get? p = some v) : load p s = (.ok v, s) := by
  change ofOption .outOfRange (s.get? p) s = _
  rw [h]
  rfl

theorem store_eq {p : Place} {v : Value} (h : s.get? p = some v) (w : Value) :
    store p w s = (.ok .unit, s.put p w) := by
  change (load p >>= fun _ => modify (·.put p w)) s = _
  rw [bind_eq, load_eq h]
  rfl

theorem Machine.get?_field {id : String} (h : id ∈ s.fields.keys) :
    s.get? (.field id) = some (s.fields.get id) :=
  Fields.lookup_eq h

theorem Machine.get?_element {id : String} {items : List Value}
    (h : s.fields.lookup id = some (.list items)) (i : Nat) :
    s.get? (.element id i) = items[i]? := by
  simp only [get?, h]

theorem toBytes_place {p : Place} {data : List UInt8} (h : s.get? p = some (.bytes data)) :
    (Datum.place p).toBytes s = (.ok data, s) := by
  change (load p >>= fun v => _) s = _
  rw [bind_eq, load_eq h]
  rfl

/-! ### Expressions -/

/-- Evaluating an expression gives a datum and does nothing else. -/
def Evaluates (c : Context) (env : Bindings) (s : Machine) (e : Expr) (d : Datum) : Prop :=
  (machine c).eval e env s = (.ok d, s)

namespace Evaluates

variable {e a b : Expr} {d x y : Datum} {name : String}

theorem bound (h : env.lookup name = some d) : Evaluates c env s (.var name) d := by
  change (Except.ok (resolve env [name]), s) = _
  simp [resolve, h]

theorem unbound (h : env.lookup name = none) :
    Evaluates c env s (.var name) (.function [name]) := by
  change (Except.ok (resolve env [name]), s) = _
  simp [resolve, h]

theorem nat (n : Nat) : Evaluates c env s (.nat n) (.number n) := rfl

theorem text (t : String) : Evaluates c env s (.text t) (.text t) := rfl

theorem bytes (data : List UInt8) :
    Evaluates c env s (.literal (.bytes data)) (.value (.bytes data)) := rfl

theorem borrow {isMutable : Bool} (h : Evaluates c env s e d) :
    Evaluates c env s (.borrow isMutable e) d := h

theorem deref (h : Evaluates c env s e d) : Evaluates c env s (.deref e) d := h

theorem mapM {es : List Expr} {data : List Datum}
    (h : List.Forall₂ (Evaluates c env s) es data) :
    ((machine c).evalAll es).mapM (· env) s = (.ok data, s) := by
  induction h with
  | nil => rfl
  | cons hd _ ih =>
    rw [Interpretation.evalAll, List.mapM_cons, bind_eq, hd]
    dsimp only
    rw [bind_eq, ih]
    rfl

theorem eval_binary {symbol : String} (ha : Evaluates c env s a x) (hb : Evaluates c env s b y) :
    (machine c).eval (.binary symbol a b) env s = binary symbol x y s := by
  change ((machine c).eval a env >>= fun x => (machine c).eval b env >>= fun y => _) s = _
  rw [bind_eq, ha]
  dsimp only
  rw [bind_eq, hb]

theorem lt {m n : Nat} (ha : Evaluates c env s a (.number m))
    (hb : Evaluates c env s b (.number n)) :
    Evaluates c env s (.binary "<" a b) (.bool (decide (m < n))) :=
  eval_binary ha hb

theorem eval_method {m : Method} {es : List Expr} {data : List Datum}
    (hm : methods.lookup name = some m) (h : Evaluates c env s e d)
    (hes : List.Forall₂ (Evaluates c env s) es data) :
    (machine c).eval (.method e name es) env s = c.method m d data s := by
  change (ofOption .stuck (methods.lookup name) >>= fun m =>
    (machine c).eval e env >>= fun d =>
      ((machine c).evalAll es).mapM (· env) >>= fun data => _) s = _
  rw [hm, bind_eq]
  dsimp only [ofOption, pure_eq]
  rw [bind_eq, h]
  dsimp only
  rw [bind_eq, mapM hes]

end Evaluates

/-- The bindings that a procedure starts with and never hides. -/
structure Scope (env : Bindings) : Prop where
  self : env.lookup "self" = some (.place .self)
  buf : env.lookup "buf" = some .buffer
  free : ∀ name ∈ ["Ok", "Err", "write_padded"], env.lookup name = none

/-- The names that procedures bind. -/
def localNames : List String := ["len", "count", "expected", "actual", "i"]

theorem Scope.bind (h : Scope env) (name : String) (hname : name ∈ localNames) (d : Datum) :
    Scope ((name, d) :: env) := by
  have hne : ∀ name ∈ localNames, ∀ other ∈ ["self", "buf", "Ok", "Err", "write_padded"],
      (other == name) = false := by decide
  have hlookup : ∀ other ∈ ["self", "buf", "Ok", "Err", "write_padded"],
      List.lookup other ((name, d) :: env) = env.lookup other := by
    intro other hother
    rw [List.lookup_cons, hne name hname other hother]
  refine ⟨?_, ?_, fun other hother => ?_⟩
  · rw [hlookup _ (by simp), h.self]
  · rw [hlookup _ (by simp), h.buf]
  · rw [hlookup _ (List.mem_cons_of_mem _ (List.mem_cons_of_mem _ hother)), h.free other hother]

namespace Evaluates

theorem buffer (h : Scope env) : Evaluates c env s buffer .buffer := bound h.buf

theorem inputRest (h : Scope env) : Evaluates c env s inputRest (.number s.input.length) :=
  eval_method (m := .remaining) rfl (buffer h) .nil

theorem outputRoom (h : Scope env) : Evaluates c env s outputRoom (.number s.room) :=
  eval_method (m := .remainingMut) rfl (buffer h) .nil

theorem field (h : Scope env) {id : String} (hid : '#' ∉ id.toList) :
    Evaluates c env s (place id false) (.place (.field id)) := by
  change ((machine c).eval receiver env >>= fun d => _) s = _
  rw [bind_eq, show (machine c).eval receiver env s = _ from bound h.self]
  dsimp only
  rw [unescape_escape hid]
  rfl

theorem element (h : Scope env) {id : String} (hid : '#' ∉ id.toList) {i : Nat} {v : Value}
    (hi : env.lookup "i" = some (.number i)) (hv : s.get? (.element id i) = some v) :
    Evaluates c env s (place id true) (.place (.element id i)) := by
  have hfield : (machine c).eval (place id false) env s = _ := field h hid
  have hindex : (machine c).eval (.var "i") env s = _ := bound hi
  change ((machine c).eval (place id false) env >>= fun d =>
    (machine c).eval (.var "i") env >>= fun j => index d j) s = _
  rw [bind_eq, hfield]
  dsimp only
  rw [bind_eq, hindex]
  change (load (.element id i) >>= fun v => _) s = _
  rw [bind_eq, load_eq hv]
  rfl

end Evaluates

/-- An expression that stands for a place wherever there is one. -/
def Denotes (c : Context) (env : Bindings) (e : Expr) (p : Place) : Prop :=
  ∀ ⦃s v⦄, Machine.get? s p = some v → Evaluates c env s e (.place p)

/-- The order that the name of an operation stands for; a single byte has none. -/
def namedOrder (k : Scalar) (endian : Endian) : Endian := if k.width = 1 then .big else endian

theorem arrange_namedOrder {k : Scalar} {bytes : List UInt8} (endian : Endian)
    (h : bytes.length = k.width) : arrange (namedOrder k endian) bytes = arrange endian bytes := by
  unfold namedOrder
  split
  · rename_i hone
    obtain ⟨b, rfl⟩ := List.length_eq_one_iff.mp (h.trans hone)
    cases endian <;> rfl
  · rfl

/-! ### Widths -/

theorem binary_symbol (op : Operator) (m n : Nat) :
    binary op.symbol (.number m) (.number n) s = arithmetic op m n s := by
  cases op <;> rfl

theorem eval_operand (w : Width) (e : Expr) :
    (machine c).eval (lower.operand w e) = (machine c).eval e := by
  cases w <;> rfl

theorem measure_binary (fs : Fields) (op : Operator) (lhs rhs : Width) :
    fs.measure (.binary op lhs rhs) =
      fs.measure lhs >>= fun a => fs.measure rhs >>= fun b => op.apply a b := by
  simp only [Fields.measure, Width.eval]
  cases lhs.eval fun id => (fs.get id).word with
  | error fault => rfl
  | ok a => cases rhs.eval fun id => (fs.get id).word <;> rfl

/-- The fields of a width hold integers. -/
def Fields.Measurable (fs : Fields) (w : Width) : Prop :=
  ∀ id ∈ w.refs, '#' ∉ id.toList ∧ ∃ n, fs.lookup id = some (.integer n)

/-- A width is evaluated as its fields say, and breaks off where its arithmetic does. -/
theorem eval_lower (h : Scope env) {w : Width} (hw : Fields.Measurable s.fields w) :
    (machine c).eval (lower w) env s =
      match s.fields.measure w with
      | .ok n => (.ok (.number n), s)
      | .error fault => (.error (.panicked (.arithmetic fault)), s) := by
  induction w with
  | literal n => rfl
  | field id =>
    obtain ⟨hid, n, hn⟩ := hw id (by simp [Width.refs])
    have hfield : (machine c).eval (place id false) env s = _ := Evaluates.field h hid
    change ((machine c).eval (place id false) env >>= toWord usize) s = _
    rw [bind_eq, hfield]
    change (load (.field id) >>= fun v => _) s = _
    rw [bind_eq, load_eq (p := .field id) hn]
    simp [Fields.measure, Width.eval, Fields.get, hn]
    rfl
  | binary op lhs rhs ihl ihr =>
    have hl := ihl fun id hid => hw id (by simp [Width.refs, hid])
    have hr := ihr fun id hid => hw id (by simp [Width.refs, hid])
    change ((machine c).eval (lower.operand lhs (lower lhs)) env >>= fun x =>
      (machine c).eval (lower.operand rhs (lower rhs)) env >>= fun y => binary op.symbol x y) s = _
    rw [eval_operand, eval_operand, bind_eq, hl]
    rw [measure_binary]
    cases s.fields.measure lhs with
    | error fault => rfl
    | ok m =>
      dsimp only
      rw [bind_eq, hr]
      cases s.fields.measure rhs with
      | error fault => rfl
      | ok n =>
        dsimp only [bind, Except.bind]
        rw [binary_symbol, arithmetic]
        cases op.apply m n <;> rfl

/-! ### Sequences -/

/-- What a block does, and its value. -/
def runBlock (c : Context) (b : Block) : Bindings → Exec Datum :=
  (machine c).result ((machine c).steps b)

theorem enter_eq (steps : List (Step Exec Bindings Datum (Program.Declaration _)))
    (env : Bindings) : (machine c).enter steps env = pure env := by
  unfold Scoping.enter
  split <;> rfl

theorem runBlock_eq (b : Block) (env : Bindings) (s : Machine) :
    runBlock c b env s =
      match (machine c).exec ((machine c).steps b) env s with
      | (.ok (_, d), s) => (.ok d, s)
      | (.error e, s) => (.error e, s) := by
  rw [runBlock, Scoping.result, Scoping.run, enter_eq, pure_bind, map_eq]
  rcases (machine c).exec ((machine c).steps b) env s with ⟨r | r, s'⟩ <;> rfl

theorem runBlock_nil : runBlock c [] env s = (.ok .unit, s) := by
  rw [runBlock_eq]
  rfl

section Statements

variable {e : Expr} {stop : Stop} {hasSemicolon : Bool}

/-- The value of a last expression is that of the block. -/
theorem runBlock_value (e : Expr) (env : Bindings) (s : Machine) :
    runBlock c [.expr e false] env s = (machine c).eval e env s := by
  have hexec : (machine c).exec ((machine c).steps [.expr e false]) env s =
      ((fun d => (env, d)) <$> (machine c).eval e env) s := rfl
  rw [runBlock_eq, hexec, map_eq]
  rcases (machine c).eval e env s with ⟨d | d, s'⟩ <;> rfl

variable (ss : Block)

/-- An expression as a statement, where its value is the unit. -/
theorem runBlock_ok (h : (machine c).eval e env s = (.ok .unit, s')) :
    runBlock c (.expr e hasSemicolon :: ss) env s = runBlock c ss env s' := by
  have hexec : (machine c).exec ((machine c).steps (.expr e hasSemicolon :: ss)) env s =
      (machine c).exec ((machine c).steps ss) env s' := by
    simp only [Interpretation.steps, Interpretation.step, Scoping.exec]
    split
    · rename_i hlast
      rw [Bool.and_eq_true, List.isEmpty_iff] at hlast
      rw [map_eq, h, hlast.2]
      rfl
    · rw [bind_eq, h]
  rw [runBlock_eq, runBlock_eq, hexec]

theorem runBlock_error (h : (machine c).eval e env s = (.error stop, s')) :
    runBlock c (.expr e hasSemicolon :: ss) env s = (.error stop, s') := by
  have hexec : (machine c).exec ((machine c).steps (.expr e hasSemicolon :: ss)) env s =
      (.error stop, s') := by
    simp only [Interpretation.steps, Interpretation.step, Scoping.exec]
    split
    · rw [map_eq, h]
    · rw [bind_eq, h]
  rw [runBlock_eq, hexec]

theorem runBlock_binding {name : String} {type : Option Ty} {d : Datum}
    (h : (machine c).eval e env s = (.ok d, s')) :
    runBlock c (.binding false name type e :: ss) env s =
      runBlock c ss ((name, d) :: env) s' := by
  have hexec : (machine c).exec ((machine c).steps (.binding false name type e :: ss)) env s =
      (machine c).exec ((machine c).steps ss) ((name, d) :: env) s' := by
    change (((machine c).eval e env >>= fun d => pure ((name, d) :: env)) >>= fun env =>
      (machine c).exec ((machine c).steps ss) env) s = _
    rw [bind_eq, bind_eq, h]
    rfl
  rw [runBlock_eq, runBlock_eq, hexec]

theorem runBlock_binding_error {name : String} {type : Option Ty}
    (h : (machine c).eval e env s = (.error stop, s')) :
    runBlock c (.binding false name type e :: ss) env s = (.error stop, s') := by
  have hexec : (machine c).exec ((machine c).steps (.binding false name type e :: ss)) env s =
      (.error stop, s') := by
    change (((machine c).eval e env >>= fun d => pure ((name, d) :: env)) >>= fun env =>
      (machine c).exec ((machine c).steps ss) env) s = _
    rw [bind_eq, bind_eq, h]
  rw [runBlock_eq, hexec]

/-- A mutable binding has a place of its own. -/
theorem runBlock_mutable {name : String} {type : Option Ty} {v : Value}
    (h : (machine c).eval e env s = (.ok (.value v), s')) :
    runBlock c (.binding true name type e :: ss) env s =
      runBlock c ss ((name, .place (.slot s'.slots.length)) :: env)
        { s' with slots := s'.slots ++ [v] } := by
  have hexec : (machine c).exec ((machine c).steps (.binding true name type e :: ss)) env s =
      (machine c).exec ((machine c).steps ss) ((name, .place (.slot s'.slots.length)) :: env)
        { s' with slots := s'.slots ++ [v] } := by
    change (((machine c).eval e env >>= fun d => _) >>= fun env =>
      (machine c).exec ((machine c).steps ss) env) s = _
    rw [bind_eq, bind_eq, h]
    rfl
  rw [runBlock_eq, runBlock_eq, hexec]

/-! ### Checks -/

theorem runBlock_when_false {condition : Expr} {body : Block}
    (h : Evaluates c env s condition (.bool false)) :
    runBlock c (when condition body :: ss) env s = runBlock c ss env s := by
  refine runBlock_ok ss ?_
  change ((fun _ => Datum.unit) <$> ((machine c).eval condition env >>= fun d => _)) s = _
  rw [map_eq, bind_eq, h]
  rfl

theorem runBlock_when_true {condition : Expr} {body : Block}
    (h : Evaluates c env s condition (.bool true))
    (hbody : runBlock c body env s = (.error stop, s')) :
    runBlock c (when condition body :: ss) env s = (.error stop, s') := by
  have hcontrol : control .branch [(machine c).eval condition, runBlock c body] env s =
      (.error stop, s') := by
    rw [control, bind_eq, h]
    dsimp only
    rw [bind_eq, hbody]
  refine runBlock_error ss ?_
  change ((fun _ => Datum.unit) <$>
    control .branch [(machine c).eval condition, runBlock c body] env) s = _
  rw [map_eq, hcontrol]

theorem evalFields_eq (fields : List (String × Expr)) :
    (machine c).evalFields fields = (machine c).evalAll (fields.map (·.2)) := by
  induction fields with
  | nil => rfl
  | cons f fields ih => simp [Interpretation.evalFields, Interpretation.evalAll, ih]

/-- Leaving a procedure with an error. -/
theorem runBlock_fail (h : Scope env) (kind case : String) (fields : List (String × Expr))
    {data : List Datum} {f : Failure}
    (hdata : List.Forall₂ (Evaluates c env s) (fields.map (·.2)) data)
    (hf : failure? [kind, case] ((fields.map (·.1)).zip data) = some f) :
    runBlock c [fail kind case fields] env s = (.error (.returned (.result (some f))), s) := by
  have hconstruct : Evaluates c env s (.construct [kind, case] fields) (.failure f) := by
    change (((machine c).evalFields fields).mapM (· env) >>= fun data =>
      ofOption .stuck (failure? [kind, case] ((fields.map (·.1)).zip data)) >>= fun f => _) s = _
    rw [evalFields_eq, bind_eq, Evaluates.mapM hdata]
    dsimp only
    rw [hf, bind_eq]
    rfl
  have herr : (machine c).eval (.var "Err") env s = _ :=
    Evaluates.unbound (h.free "Err" (by simp))
  have hcall : (machine c).eval (.call (.var "Err") [.construct [kind, case] fields]) env s =
      (.ok (.result (some f)), s) := by
    change ((machine c).eval (.var "Err") env >>= fun d => _) s = _
    rw [bind_eq, herr]
    change ((machine c).eval (.construct [kind, case] fields) env >>= fun d => _) s = _
    rw [bind_eq, hconstruct]
    rfl
  have hreturn : (machine c).eval
      (.returned (.call (.var "Err") [.construct [kind, case] fields])) env s =
        (.error (.returned (.result (some f))), s) := by
    change ((machine c).eval (.call (.var "Err") _) env >>= fun d => _) s = _
    rw [bind_eq, hcall]
    rfl
  exact runBlock_error [] hreturn

section Require

variable {sub : Subject} {kind case : String} {available expected : Expr} {m n : Nat}

theorem runBlock_require (ha : Evaluates c env s available (.number m))
    (he : Evaluates c env s expected (.number n)) (hle : n ≤ m) :
    runBlock c (sub.require kind case available expected :: ss) env s = runBlock c ss env s := by
  refine runBlock_when_false ss ?_
  have hlt := ha.lt he
  rwa [decide_eq_false (Nat.not_lt.mpr hle)] at hlt

theorem runBlock_require_short (h : Scope env) (ha : Evaluates c env s available (.number m))
    (he : Evaluates c env s expected (.number n)) (hlt : m < n) {f : Failure}
    (hf : failure? [kind, case] [("record", .text sub.record), ("field", .text sub.field.id),
      ("actual", .number m), ("expected", .number n)] = some f) :
    runBlock c (sub.require kind case available expected :: ss) env s =
      (.error (.returned (.result (some f))), s) := by
  have hcondition := ha.lt he
  rw [decide_eq_true hlt] at hcondition
  have hdata : List.Forall₂ (Evaluates c env s)
      [.text sub.record, .text sub.field.id, available, expected]
      [.text sub.record, .text sub.field.id, .number m, .number n] :=
    .cons (.text _) (.cons (.text _) (.cons ha (.cons he .nil)))
  exact runBlock_when_true ss hcondition (runBlock_fail h _ _ _ hdata hf)

end Require

end Statements

/-! ### Loops and ends -/

theorem eval_forElements {count : Nat} (hcount : env.lookup "count" = some (.number count))
    (body : Block) :
    (machine c).eval (.forEach "i" (.range (some (.nat 0)) (.var "count")) body) env s =
      ((fun _ => Datum.unit) <$>
        forFrom (fun i => runBlock c body (("i", .number i) :: env)) 0 count) s := by
  have hvar : (machine c).eval (.var "count") env s = _ := Evaluates.bound hcount
  have hrange : (machine c).eval (.range (some (.nat 0)) (.var "count")) env s =
      (.ok (.range 0 count), s) := by
    change ((machine c).eval (.var "count") env >>= fun d => d.toNumber >>= fun n =>
      pure (Datum.range 0 n)) s = _
    rw [bind_eq, hvar]
    rfl
  change ((fun _ => Datum.unit) <$>
    ((machine c).eval (.range (some (.nat 0)) (.var "count")) env >>= fun d => _)) s = _
  rw [map_eq, map_eq, bind_eq, hrange]
  rfl

/-- The last statement of a procedure. -/
def success : Stmt := .expr (.call (.var "Ok") [.unit]) false

theorem runBlock_success (h : Scope env) :
    runBlock c [success] env s = (.ok (.result none), s) := by
  have hok : (machine c).eval (.var "Ok") env s = _ := Evaluates.unbound (h.free "Ok" (by simp))
  rw [success, runBlock_value]
  change ((machine c).eval (.var "Ok") env >>= fun d => _) s = _
  rw [bind_eq, hok]
  rfl

/-- The statements of fields, each in a block of its own. -/
def FieldBlocks (transfer : Subject → Except TransferError Block) (record : String)
    (fields : List RecordedField) (blocks : Block) : Prop :=
  List.Forall₂ (fun f b => ∃ body, transfer ⟨record, f.decl, f.info⟩ = .ok body ∧
    b = Stmt.expr (.block none false body) false) fields blocks

/-- What comes to an end, or else has none. -/
def ended {α : Type} : Option α → Except Halt α
  | some a => .ok a
  | none => .error .endless

/-- The fields that a field may use: those of its width, and its own. -/
structure Usable (s : Machine) (f : RecordedField) : Prop where
  hash : '#' ∉ f.decl.id.toList
  stored : f.decl.id ∈ s.fields.keys
  width : ∀ w, f.info.width = some w → Fields.Measurable s.fields w

end WireRecords.Execution
