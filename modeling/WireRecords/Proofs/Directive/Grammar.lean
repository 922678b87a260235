import WireRecords.Proofs.Directive.Token

/-!
# The grammar of directives

Which tokens write a directive. Operators of one rank associate to the left, and products bind
more tightly than sums.
-/
namespace WireRecords

/-- The mark that stands for an operator. -/
def Operator.mark : Operator → Char
  | add => '+'
  | sub => '-'
  | mul => '*'
  | div => '/'
  | rem => '%'

/-- What a field declares, wherever it stands. -/
def FieldSyntax.content (f : FieldSyntax) : String × Option Width × Option TypeExpr × Endian :=
  (f.id, f.width, f.type, f.endian)

namespace Directive

/-- What a directive declares, wherever it and its fields stand. -/
def content (d : Directive) :
    String × List (String × Option Width × Option TypeExpr × Endian) :=
  (d.id, d.fields.map (·.content))

/-- How tightly a width holds together. -/
inductive Rank where
  | atom
  | product
  | sum

/-- `WidthForm k ts w`: the tokens `ts` write the width `w`, and hold together as tightly as `k`. -/
inductive WidthForm : Rank → List Token → Width → Prop
  | literal {n : Nat} (h : n < wordCount) : WidthForm .atom [.number n] (.literal n)
  | field (id : String) : WidthForm .atom [.name id] (.field id)
  | parentheses {ts : List Token} {w : Width} (inner : WidthForm .sum ts w) :
      WidthForm .atom (.mark '(' :: (ts ++ [.mark ')'])) w
  | ofAtom {ts : List Token} {w : Width} (h : WidthForm .atom ts w) : WidthForm .product ts w
  | factor {op : Operator} {ts us : List Token} {lhs rhs : Width}
      (hop : op = .mul ∨ op = .div ∨ op = .rem) (left : WidthForm .product ts lhs)
      (right : WidthForm .atom us rhs) :
      WidthForm .product (ts ++ .mark op.mark :: us) (.binary op lhs rhs)
  | ofProduct {ts : List Token} {w : Width} (h : WidthForm .product ts w) : WidthForm .sum ts w
  | term {op : Operator} {ts us : List Token} {lhs rhs : Width} (hop : op = .add ∨ op = .sub)
      (left : WidthForm .sum ts lhs) (right : WidthForm .product us rhs) :
      WidthForm .sum (ts ++ .mark op.mark :: us) (.binary op lhs rhs)

/-- A path: names with dots or double colons between them. -/
inductive PathForm : List Token → List String → Prop
  | single (id : String) : PathForm [.name id] [id]
  | segment (id : String) {separator : Token} {ts : List Token} {ids : List String}
      (hseparator : separator = .mark '.' ∨ separator = .scope) (rest : PathForm ts ids) :
      PathForm (.name id :: separator :: ts) (id :: ids)

inductive TypeForm : List Token → TypeExpr → Prop
  | named {ts : List Token} {path : List String} (h : PathForm ts path) : TypeForm ts (.named path)
  | slice {ts : List Token} {t : TypeExpr} (element : TypeForm ts t) :
      TypeForm (.mark '[' :: .mark ']' :: ts) (.slice t)
  | array {n : Nat} {ts : List Token} {t : TypeExpr} (h : n < wordCount)
      (element : TypeForm ts t) :
      TypeForm (.mark '[' :: .number n :: .mark ']' :: ts) (.array n t)
  | pointer {ts : List Token} {t : TypeExpr} (target : TypeForm ts t) :
      TypeForm (.mark '*' :: ts) (.pointer t)
  | constant (value : String) : TypeForm [.text value] (.constant value)

/-- A part that may be left out. -/
inductive Optional {α : Type} (form : List Token → α → Prop) : List Token → Option α → Prop
  | absent : Optional form [] none
  | present {ts : List Token} {a : α} (h : form ts a) : Optional form ts (some a)

/-- A byte order; without one the order is little-endian. -/
inductive EndianForm : List Token → Endian → Prop
  | absent : EndianForm [] .little
  | little : EndianForm [.name "LE"] .little
  | big : EndianForm [.name "BE"] .big

/-- Type and byte order, each behind its comma. -/
inductive TailForm : List Token → Option TypeExpr → Endian → Prop
  | absent : TailForm [] none .little
  | type {ts : List Token} {type : Option TypeExpr} (h : Optional TypeForm ts type) :
      TailForm (.mark ',' :: ts) type .little
  | endian {ts us : List Token} {type : Option TypeExpr} {e : Endian}
      (h : Optional TypeForm ts type) (he : EndianForm us e) :
      TailForm (.mark ',' :: (ts ++ .mark ',' :: us)) type e

/-- A field: its name, and in brackets its width, type and byte order. Width or type is there. -/
inductive FieldForm : List Token → FieldSyntax → Prop
  | intro {ws us : List Token} {f : FieldSyntax} (width : Optional (WidthForm .sum) ws f.width)
      (tail : TailForm us f.type f.endian) (given : f.width.isSome ∨ f.type.isSome) :
      FieldForm (.name f.id :: .mark '[' :: (ws ++ (us ++ [.mark ']']))) f

inductive FieldsForm : List Token → List FieldSyntax → Prop
  | nil : FieldsForm [] []
  | cons {ts us : List Token} {f : FieldSyntax} {fs : List FieldSyntax} (head : FieldForm ts f)
      (tail : FieldsForm us fs) : FieldsForm (ts ++ us) (f :: fs)

/-- The name of a record; a record without a name is called `_`. -/
inductive NameForm : List Token → String → Prop
  | absent : NameForm [] anonymous
  | given (id : String) : NameForm [.name id] id

/-- A directive: the name of the record, its fields, and maybe a semicolon. Where the directive and
its fields stand in a text does not matter. -/
inductive DirectiveForm : List Token → Directive → Prop
  | intro {ns fs stop : List Token} {d : Directive} (name : NameForm ns d.id)
      (fields : FieldsForm fs d.fields) (hstop : stop = [] ∨ stop = [.mark ';']) :
      DirectiveForm (ns ++ (fs ++ stop)) d

/-- A text writes a directive when its tokens do. -/
def Renders (text : String) (d : Directive) : Prop :=
  ∃ ts, Lexes text.toList ts ∧ DirectiveForm ts d

theorem WidthForm.ne_nil {k : Rank} {ts : List Token} {w : Width} (h : WidthForm k ts w) :
    ts ≠ [] := by
  induction h with
  | literal h => simp
  | field id => simp
  | parentheses inner ih => simp
  | ofAtom h ih => exact ih
  | factor hop left right ihl ihr => simp
  | ofProduct h ih => exact ih
  | term hop left right ihl ihr => simp

theorem PathForm.ne_nil {ts : List Token} {ids : List String} (h : PathForm ts ids) : ts ≠ [] := by
  cases h <;> simp

theorem TypeForm.ne_nil {ts : List Token} {t : TypeExpr} (h : TypeForm ts t) : ts ≠ [] := by
  cases h with
  | named h => exact h.ne_nil
  | _ => simp

theorem FieldForm.ne_nil {ts : List Token} {f : FieldSyntax} (h : FieldForm ts f) : ts ≠ [] := by
  cases h
  simp

end Directive

end WireRecords
