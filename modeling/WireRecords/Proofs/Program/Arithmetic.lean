import WireRecords.Program.Tokens
import WireRecords.Proofs.Directive.Precedence
import WireRecords.Proofs.Execution.Steps
import WireRecords.Proofs.Program.Spelling

/-!
# Arithmetic in program text

Tokens do not say how an expression hangs together: members bind more tightly than casts, casts more
tightly than products, and products more tightly than sums, each from left to right. `readExpr`
reads tokens by these rules. It gives back every expression that has parentheses where they are
needed, and a width is lowered to such an expression.
-/
namespace WireRecords.Program

open Execution

/-! ### Reading tokens -/

/-- What stands before an operand: the left operand of a sum, and that of a product behind it. -/
structure Pending where
  sum : Option (Expr × Operator) := none
  product : Option (Expr × Operator) := none

namespace Pending

def join : Option (Expr × Operator) → Expr → Expr
  | none, e => e
  | some (lhs, op), e => .binary op.symbol lhs e

/-- The product that `e` ends. -/
def factors (p : Pending) (e : Expr) : Expr := join p.product e

/-- The sum that `e` ends. -/
def terms (p : Pending) (e : Expr) : Expr := join p.sum (p.factors e)

/-- What stands before the operand behind `e` and an operator. -/
def next (p : Pending) (e : Expr) (op : Operator) : Pending :=
  if op.strength = 0 then ⟨some (p.terms e, op), none⟩ else ⟨p.sum, some (p.factors e, op)⟩

end Pending

/-- How tightly an expression holds together. -/
def Expr.strength : Expr → Nat
  | .binary symbol _ _ => ((operator? symbol).map Operator.strength).getD 0
  | .cast _ _ => 2
  | _ => 3

/-- The value of decimal digits. -/
def integer? (text : String) : Option Nat :=
  if text.toList ≠ [] ∧ text.toList.all Char.isDigit then some (Nat.ofDigitChars 10 text.toList 0)
  else none

mutual

/-- Reads an expression that starts with the next operand. -/
def readOperand (p : Pending) : List Token → Option Expr
  | .literal text :: ts =>
    match integer? text with
    | some n => readBehind p (.nat n) ts
    | none => none
  | .ident name :: ts => if name ∈ keywords then none else readBehind p (.var name) ts
  | .group .paren body :: ts =>
    match readOperand {} body with
    | some inner => readBehind p (.paren inner) ts
    | none => none
  | _ => none

/-- Reads what stands behind the operand `e`. A cast has no members, and a mark that is joined to the
next one is no operator of arithmetic. -/
def readBehind (p : Pending) (e : Expr) : List Token → Option Expr
  | [] => some (p.terms e)
  | .punct '.' false :: .ident name :: ts =>
    if name ∈ keywords ∨ e.strength < 3 then none else readBehind p (.field e name) ts
  | .ident "as" :: .ident name :: ts => readBehind p (.cast e (.named name)) ts
  | .punct mark false :: ts =>
    match operator? (String.singleton mark) with
    | some op => readOperand (p.next e op) ts
    | none => none
  | _ => none

end

def readExpr (ts : List Token) : Option Expr := readOperand {} ts

/-- Arithmetic with parentheses where they are needed. -/
inductive Arithmetic : Expr → Prop
  | literal (n : Nat) : Arithmetic (.nat n)
  | name {name : String} (plain : name ∉ keywords) : Arithmetic (.var name)
  | paren {inner : Expr} (h : Arithmetic inner) : Arithmetic (.paren inner)
  | field {base : Expr} {name : String} (h : Arithmetic base) (tight : base.strength = 3)
      (plain : name ∉ keywords) : Arithmetic (.field base name)
  | cast {inner : Expr} (h : Arithmetic inner) (tight : 2 ≤ inner.strength) (name : String) :
      Arithmetic (.cast inner (.named name))
  | binary (op : Operator) {lhs rhs : Expr} (left : Arithmetic lhs) (right : Arithmetic rhs)
      (before : op.strength ≤ lhs.strength) (behind : op.strength < rhs.strength) :
      Arithmetic (.binary op.symbol lhs rhs)

variable {p : Pending} {e : Expr} {ts : List Token}

theorem integer?_toString (n : Nat) : integer? (toString n) = some n := by
  have hdigits : (Nat.toDigits 10 n).all Char.isDigit = true :=
    List.all_eq_true.mpr fun d hd => Nat.isDigit_of_mem_toDigits (by decide) (by decide) hd
  rw [integer?, Nat.toString_eq_repr, Nat.toList_repr, if_pos ⟨Nat.toDigits_ne_nil, hdigits⟩,
    Nat.ofDigitChars_ten_toDigits]

theorem readOperand_nat (n : Nat) :
    readOperand p ((Expr.nat n).tokens ++ ts) = readBehind p (.nat n) ts := by
  change readOperand p (.literal (toString n) :: ts) = _
  rw [readOperand, integer?_toString]

theorem readOperand_var {name : String} (h : name ∉ keywords) :
    readOperand p ((Expr.var name).tokens ++ ts) = readBehind p (.var name) ts := by
  change readOperand p (.ident name :: ts) = _
  rw [readOperand, if_neg h]

theorem readOperand_paren (h : readExpr e.tokens = some e) :
    readOperand p ((Expr.paren e).tokens ++ ts) = readBehind p (.paren e) ts := by
  change readOperand p (.group .paren e.tokens :: ts) = _
  rw [readExpr] at h
  rw [readOperand, h]

theorem readBehind_field {name : String} (h : e.strength = 3) (hname : name ∉ keywords) :
    readBehind p e (Token.operator "." ++ [.ident name] ++ ts) =
      readBehind p (.field e name) ts := by
  change readBehind p e (.punct '.' false :: .ident name :: ts) = _
  rw [readBehind, if_neg (by simp [hname, h])]

theorem readBehind_cast (name : String) :
    readBehind p e ([.ident "as"] ++ (Ty.named name).tokens ++ ts) =
      readBehind p (.cast e (.named name)) ts := by
  change readBehind p e (.ident "as" :: .ident name :: ts) = _
  rw [readBehind]

theorem readBehind_operator (op : Operator) :
    readBehind p e (Token.operator op.symbol ++ ts) = readOperand (p.next e op) ts := by
  have hop : operator? (String.singleton op.mark) = some op := by cases op <;> rfl
  have hdot : op.mark ≠ '.' := by cases op <;> decide
  have htokens : Token.operator op.symbol = [.punct op.mark false] := by cases op <;> rfl
  rw [htokens, List.singleton_append, readBehind, hop]
  exact fun _ _ _ hmark => hdot hmark

theorem strength_symbol (op : Operator) (lhs rhs : Expr) :
    (Expr.binary op.symbol lhs rhs).strength = op.strength := by
  cases op <;> rfl

/-- Where the reader is when it has read the tokens of `e`: behind `e` itself if it is tight, behind
the last factor of a product, or behind the last factor of a sum. -/
structure IsRead (e : Expr) : Prop where
  tight : 2 ≤ e.strength → ∀ p ts, readOperand p (e.tokens ++ ts) = readBehind p e ts
  product : 1 ≤ e.strength → ∀ sum ts, ∃ product last,
    readOperand ⟨sum, none⟩ (e.tokens ++ ts) = readBehind ⟨sum, product⟩ last ts ∧
      Pending.join product last = e
  sum : ∀ ts, ∃ p last, readOperand {} (e.tokens ++ ts) = readBehind p last ts ∧ p.terms last = e

theorem IsRead.of_tight (h : ∀ p ts, readOperand p (e.tokens ++ ts) = readBehind p e ts) :
    IsRead e where
  tight _ := h
  product _ sum ts := ⟨none, e, h ⟨sum, none⟩ ts, rfl⟩
  sum ts := ⟨{}, e, h {} ts, rfl⟩

theorem IsRead.readExpr_tokens (h : IsRead e) : readExpr e.tokens = some e := by
  obtain ⟨p, last, hread, hterms⟩ := h.sum []
  rwa [List.append_nil, readBehind, hterms] at hread

section Binary

variable {op : Operator} {lhs rhs : Expr}

theorem tokens_binary (op : Operator) (lhs rhs : Expr) (ts : List Token) :
    (Expr.binary op.symbol lhs rhs).tokens ++ ts =
      lhs.tokens ++ (Token.operator op.symbol ++ (rhs.tokens ++ ts)) := by
  simp [Expr.tokens]

theorem IsRead.binary_sum (hop : op.strength = 0) (left : IsRead lhs) (right : IsRead rhs)
    (behind : 0 < rhs.strength) : IsRead (.binary op.symbol lhs rhs) := by
  refine ⟨by simp [strength_symbol, hop], by simp [strength_symbol, hop], fun ts => ?_⟩
  obtain ⟨p, last, hlhs, hleft⟩ := left.sum (Token.operator op.symbol ++ (rhs.tokens ++ ts))
  obtain ⟨product, last', hrhs, hright⟩ := right.product behind (some (lhs, op)) ts
  refine ⟨⟨some (lhs, op), product⟩, last', ?_, ?_⟩
  · rw [tokens_binary, hlhs, readBehind_operator, Pending.next, if_pos hop, hleft, hrhs]
  · rw [Pending.terms, Pending.factors, hright]
    rfl

theorem IsRead.binary_product (hop : op.strength = 1) (left : IsRead lhs) (right : IsRead rhs)
    (before : 1 ≤ lhs.strength) (behind : 1 < rhs.strength) :
    IsRead (.binary op.symbol lhs rhs) := by
  have hproduct : ∀ sum ts, ∃ product last,
      readOperand ⟨sum, none⟩ ((Expr.binary op.symbol lhs rhs).tokens ++ ts) =
        readBehind ⟨sum, product⟩ last ts ∧
          Pending.join product last = .binary op.symbol lhs rhs := by
    intro sum ts
    obtain ⟨product, last, hlhs, hleft⟩ := left.product before sum
      (Token.operator op.symbol ++ (rhs.tokens ++ ts))
    refine ⟨some (lhs, op), rhs, ?_, rfl⟩
    rw [tokens_binary, hlhs, readBehind_operator, Pending.next, if_neg (by omega), Pending.factors,
      hleft, right.tight behind]
  refine ⟨by simp [strength_symbol, hop], fun _ => hproduct, fun ts => ?_⟩
  obtain ⟨product, last, hread, hjoin⟩ := hproduct none ts
  exact ⟨⟨none, product⟩, last, hread, hjoin⟩

end Binary

/-- Expressions with enough parentheses are read from their tokens. -/
theorem Arithmetic.isRead (h : Arithmetic e) : IsRead e := by
  induction h with
  | literal n => exact .of_tight fun _ _ => readOperand_nat n
  | name plain => exact .of_tight fun _ _ => readOperand_var plain
  | paren _ ih => exact .of_tight fun _ _ => readOperand_paren ih.readExpr_tokens
  | @field base name _ tight plain ih =>
    refine .of_tight fun p ts => ?_
    have htokens : (Expr.field base name).tokens ++ ts =
        base.tokens ++ (Token.operator "." ++ [.ident name] ++ ts) := by simp [Expr.tokens]
    rw [htokens, ih.tight (by omega), readBehind_field tight plain]
  | @cast inner _ tight name ih =>
    refine .of_tight fun p ts => ?_
    have htokens : (Expr.cast inner (.named name)).tokens ++ ts =
        inner.tokens ++ ([.ident "as"] ++ (Ty.named name).tokens ++ ts) := by simp [Expr.tokens]
    rw [htokens, ih.tight tight, readBehind_cast]
  | binary op _ _ before behind ihl ihr =>
    obtain ⟨_, hop⟩ | ⟨_, hop⟩ := op.strength_cases
    · exact .binary_sum hop ihl ihr (by omega)
    · exact .binary_product hop ihl ihr (by omega) (by omega)

example : readExpr [.literal "9", .punct '-' false, .literal "2", .punct '-' false, .literal "3",
      .punct '*' false, .literal "4"] =
    some (.binary "-" (.binary "-" (.nat 9) (.nat 2)) (.binary "*" (.nat 3) (.nat 4))) := by
  cbv

/-! ### Widths -/

theorem arithmetic_lower (w : Width) : Arithmetic (lower w) := by
  have hoperand : ∀ w, Arithmetic (lower w) →
      Arithmetic (lower.operand w (lower w)) ∧ (lower.operand w (lower w)).strength = 3 := by
    intro w h
    cases w with
    | literal n => exact ⟨h, rfl⟩
    | field id => exact ⟨.paren h, rfl⟩
    | binary op lhs rhs => exact ⟨.paren h, rfl⟩
  induction w with
  | literal n => exact .literal n
  | field id =>
    have hself : Arithmetic receiver := .name (by decide)
    exact .cast (.field hself rfl (escape_notMem_keywords id)) (Nat.le_succ 2) "usize"
  | binary op lhs rhs ihl ihr =>
    obtain ⟨hlhs, htight⟩ := hoperand lhs ihl
    obtain ⟨hrhs, htight'⟩ := hoperand rhs ihr
    have hop : op.strength < 3 := by cases op <;> decide
    exact .binary op hlhs hrhs (by omega) (by omega)

end WireRecords.Program

namespace WireRecords

/-- Without references, the value of a width is found before anything is read. -/
theorem Width.fold_eq_eval {w : Width} (h : w.refs = []) (value : String → Nat) :
    w.fold = (w.eval value).toOption := by
  induction w with
  | literal n => rfl
  | field id => simp [refs] at h
  | binary op lhs rhs ihl ihr =>
    simp only [refs, List.append_eq_nil_iff] at h
    simp only [fold, eval, ihl h.1, ihr h.2]
    cases lhs.eval value with
    | error fault => rfl
    | ok a => cases rhs.eval value <;> rfl

open Execution Codec Program

variable {c : Execution.Context} {env : Bindings} {s : Machine}

/-- How the evaluation of a width ends. -/
def Execution.widthOutcome : Except ArithmeticFault Nat → Except Stop Datum
  | .ok n => .ok (.number n)
  | .error fault => .error (.panicked (.arithmetic fault))

/-- Lowered widths compute what the directive says. Whatever integers the fields of the record hold,
the tokens of a width are read as an expression that evaluates to the width as a tree, or breaks off
for the same fault, and changes nothing. Without references that is the value of the width before
anything is read, and there is none just where the expression breaks off. No identifier has a `#` in
it, the mark of a keyword that is used as a name. -/
theorem lowered_width_computes {w : Width} (a : String → Int) (h : Scope env)
    (hnames : ∀ id ∈ w.refs, '#' ∉ id.toList)
    (hfields : ∀ id ∈ w.refs, s.fields.lookup id = some (.integer (a id))) :
    ∃ e, readExpr (lower w).tokens = some e ∧
      (machine c).eval e env s = (widthOutcome (w.eval fun id => (Value.integer (a id)).word), s) ∧
      (w.refs = [] → ∀ n, w.fold = some n ↔ (machine c).eval e env s = (.ok (.number n), s)) ∧
      (w.refs = [] → (w.fold = none ↔
        ∃ fault, (machine c).eval e env s = (.error (.panicked (.arithmetic fault)), s))) := by
  have heval : (machine c).eval (lower w) env s =
      (widthOutcome (w.eval fun id => (Value.integer (a id)).word), s) := by
    have hmeasure : s.fields.measure w = w.eval fun id => (Value.integer (a id)).word :=
      Width.eval_congr fun id hid => by simp [Fields.get, hfields id hid]
    rw [eval_lower h fun id hid => ⟨hnames id hid, a id, hfields id hid⟩, hmeasure]
    cases w.eval fun id => (Value.integer (a id)).word <;> rfl
  refine ⟨lower w, (arithmetic_lower w).isRead.readExpr_tokens, heval, fun hrefs n => ?_,
    fun hrefs => ?_⟩
  · rw [heval, Width.fold_eq_eval hrefs fun id => (Value.integer (a id)).word]
    cases w.eval fun id => (Value.integer (a id)).word <;> simp [widthOutcome, Except.toOption]
  · rw [heval, Width.fold_eq_eval hrefs fun id => (Value.integer (a id)).word]
    cases w.eval fun id => (Value.integer (a id)).word <;> simp [widthOutcome, Except.toOption]

/-- A product with a field whose name is a keyword. -/
def scaledWidth : Width :=
  .binary .add (.field "n") (.binary .mul (.literal 4) (.field "type"))

/-- A machine whose record holds a negative integer. -/
def negativeRecord : Machine := { fields := [("n", .integer 5), ("type", .integer (-1))] }

theorem lowered_width_computes_scaled :
    ∃ (c : Execution.Context) (env : Bindings) (e : Expr), Scope env ∧
      readExpr (lower scaledWidth).tokens = some e ∧
      (machine c).eval e env negativeRecord =
        (.error (.panicked (.arithmetic .multiplication)), negativeRecord) := by
  have hscope : Scope [("self", .place .self), ("buf", .buffer)] := ⟨rfl, rfl, by decide⟩
  let c : Execution.Context := ⟨fun _ => none, fun _ => none, fun _ _ _ => .error .stuck,
    fun _ _ _ => .error .stuck, fun _ => Exec.halt .stuck⟩
  have hfields : ∀ id ∈ scaledWidth.refs, negativeRecord.fields.lookup id =
      some (.integer (if id = "n" then 5 else -1)) := by
    intro id hid
    obtain rfl | rfl : id = "n" ∨ id = "type" := by simpa [scaledWidth, Width.refs] using hid
    · rfl
    · rfl
  obtain ⟨e, hread, heval, _⟩ := lowered_width_computes (c := c) _ hscope
    (by simp [scaledWidth, Width.refs]) hfields
  exact ⟨c, _, e, hscope, hread, heval⟩

end WireRecords
