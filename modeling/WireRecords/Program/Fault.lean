import WireRecords.Program.Names
import WireRecords.Program.Syntax

/-!
# Misplaced names

A keyword without its mark is no name, and some cannot be marked, and so cannot stand everywhere. A
file of items is malformed if a name stands where it may not; of several, the first one counts.
-/
namespace WireRecords.Program

inductive NameFault where
  /-- A keyword where a name is declared, or inside a path. -/
  | keyword (name : String)
  /-- No name where a member is selected. -/
  | member
  /-- A placeholder for a type cannot start a path. -/
  | comma
deriving DecidableEq, Repr, Inhabited

def NameFault.message : NameFault → String
  | keyword name => s!"expected identifier, found keyword `{name}`"
  | member => "expected identifier or integer"
  | comma => "expected `,`"

/-- The name that stands for no name. -/
def placeholderName : String := "_"

/-- Whether a name can stand only in a path. -/
def isReserved (name : String) : Bool := name == placeholderName || pathKeywords.contains name

/-- Whether a name is a keyword for want of its mark. -/
def isUnmarked (name : String) : Bool := keywords.contains name

namespace NameFault

def ofMember (name : String) : Option NameFault :=
  if isReserved name || isUnmarked name then some member else none

def ofDeclared (name : String) : Option NameFault :=
  if isReserved name || isUnmarked name then some (keyword name) else none

/-- A field of a struct may be left without a name. -/
def ofField (name : String) : Option NameFault :=
  if name = placeholderName then none else ofDeclared name

/-- The keywords of paths may be segments. -/
def ofPath (segments : List String) : Option NameFault :=
  (segments.find? fun s => s == placeholderName || isUnmarked s).map keyword

/-- A type may be left to be found. -/
def ofTypePath : List String → Option NameFault
  | [] => none
  | first :: rest =>
    if first = placeholderName then if rest.isEmpty then none else some comma
    else ofPath (first :: rest)

end NameFault

mutual

def Ty.fault? : Ty → Option NameFault
  | .path segments arguments => (NameFault.ofTypePath segments).or (faultOfTypes? arguments)
  | .array element _ | .slice element => element.fault?
  | .reference _ target => target.fault?
  | .bounded _ | .unit => none

def faultOfTypes? : List Ty → Option NameFault
  | [] => none
  | t :: ts => t.fault?.or (faultOfTypes? ts)

end

mutual

/-- The first fault of an expression, in the order of its text. -/
def Expr.fault? : Expr → Option NameFault
  | .path segments => NameFault.ofPath segments
  | .literal _ | .unit => none
  | .paren inner | .deref inner | .borrow _ inner | .propagate inner => inner.fault?
  | .cast inner type => inner.fault?.or type.fault?
  | .binary _ lhs rhs => lhs.fault?.or rhs.fault?
  | .assign place value => place.fault?.or value.fault?
  | .call callee arguments => callee.fault?.or (faultOfExprs? arguments)
  | .method receiver name arguments =>
    receiver.fault?.or ((NameFault.ofMember name).or (faultOfExprs? arguments))
  | .field base name => base.fault?.or (NameFault.ofMember name)
  | .index base position => base.fault?.or position.fault?
  | .range none stop => stop.fault?
  | .range (some start) stop => start.fault?.or stop.fault?
  | .repetition value length => value.fault?.or length.fault?
  -- What stands inside a macro is not looked at.
  | .vector _ _ => none
  | .construct _ fields => faultOfFields? fields
  | .returned value => value.fault?
  | .closure _ body | .block _ _ body | .endless body | .unchecked body => faultOfStmts? body
  | .branch condition body none => condition.fault?.or (faultOfStmts? body)
  | .branch condition body (some otherwise) =>
    condition.fault?.or ((faultOfStmts? body).or (faultOfStmts? otherwise))
  | .forEach _ source body => source.fault?.or (faultOfStmts? body)
  | .whileLoop condition body => condition.fault?.or (faultOfStmts? body)

def faultOfExprs? : List Expr → Option NameFault
  | [] => none
  | e :: es => e.fault?.or (faultOfExprs? es)

def faultOfFields? : List (String × Expr) → Option NameFault
  | [] => none
  | (name, value) :: fields =>
    (NameFault.ofMember name).or (value.fault?.or (faultOfFields? fields))

def Stmt.fault? : Stmt → Option NameFault
  | .expr value _ => value.fault?
  | .binding _ _ _ value => value.fault?
  | .invocation _ _ => none
  | .item item => item.fault?

def faultOfStmts? : Block → Option NameFault
  | [] => none
  | s :: ss => s.fault?.or (faultOfStmts? ss)

def Item.fault? : Item → Option NameFault
  | .imports .. | .constant .. => none
  | .struct _ name fields =>
    (NameFault.ofDeclared name).or
      (fields.findSome? fun (name, type) => (NameFault.ofField name).or type.fault?)
  | .function _ body => faultOfStmts? body
  | .methods _ target functions => target.fault?.or (faultOfFunctions? functions)
  | .trait _ functions => faultOfFunctions? functions
  | .module _ items => faultOfItems? items

def faultOfFunctions? : List (Signature × Block) → Option NameFault
  | [] => none
  | (_, body) :: fs => (faultOfStmts? body).or (faultOfFunctions? fs)

def faultOfItems? : List Item → Option NameFault
  | [] => none
  | i :: is => i.fault?.or (faultOfItems? is)

end

/-! ### Names that are fixed -/

theorem NameFault.ofMember_of_plain {name : String}
    (h : (isReserved name || isUnmarked name) = false) : ofMember name = none := by
  simp [ofMember, h]

theorem NameFault.ofPath_of_plain {segments : List String}
    (h : segments.all (fun s => !(s == placeholderName || isUnmarked s)) = true) :
    ofPath segments = none := by
  simpa [ofPath] using h

/-! ### Faults of parts -/

theorem Expr.fault?_var (name : String) : (Expr.var name).fault? = NameFault.ofPath [name] := by
  simp only [Expr.var, Expr.fault?]

@[simp] theorem Expr.fault?_nat (value : Nat) : (Expr.nat value).fault? = none := by
  simp only [Expr.nat, Expr.fault?]

@[simp] theorem Expr.fault?_text (value : String) : (Expr.text value).fault? = none := by
  simp only [Expr.text, Expr.fault?]

theorem faultOfTypes?_eq_none {ts : List Ty} :
    faultOfTypes? ts = none ↔ ∀ t ∈ ts, t.fault? = none := by
  induction ts with
  | nil => simp [faultOfTypes?]
  | cons t ts ih => simp [faultOfTypes?, ih]

theorem faultOfFields?_eq_none {fields : List (String × Expr)} :
    faultOfFields? fields = none ↔
      ∀ f ∈ fields, NameFault.ofMember f.1 = none ∧ f.2.fault? = none := by
  induction fields with
  | nil => simp [faultOfFields?]
  | cons f fields ih =>
    obtain ⟨name, value⟩ := f
    simp [faultOfFields?, ih, and_assoc]

theorem faultOfStmts?_eq_none {b : Block} :
    faultOfStmts? b = none ↔ ∀ s ∈ b, s.fault? = none := by
  induction b with
  | nil => simp [faultOfStmts?]
  | cons s b ih => simp [faultOfStmts?, ih]

theorem faultOfFunctions?_eq_none {fs : List (Signature × Block)} :
    faultOfFunctions? fs = none ↔ ∀ f ∈ fs, faultOfStmts? f.2 = none := by
  induction fs with
  | nil => simp [faultOfFunctions?]
  | cons f fs ih =>
    obtain ⟨signature, body⟩ := f
    simp [faultOfFunctions?, ih]

theorem faultOfItems?_eq_none {items : List Item} :
    faultOfItems? items = none ↔ ∀ i ∈ items, i.fault? = none := by
  induction items with
  | nil => simp [faultOfItems?]
  | cons i items ih => simp [faultOfItems?, ih]

@[simp] theorem Stmt.fault?_expr (value : Expr) (hasSemicolon : Bool) :
    (Stmt.expr value hasSemicolon).fault? = value.fault? := by
  simp only [Stmt.fault?]

theorem Ty.fault?_path {segments : List String} {arguments : List Ty} :
    (Ty.path segments arguments).fault? = none ↔
      NameFault.ofTypePath segments = none ∧ ∀ t ∈ arguments, t.fault? = none := by
  simp [Ty.fault?, faultOfTypes?_eq_none]

@[simp] theorem Item.fault?_imports (attributes : List Attribute) (path : String)
    (names : List String) : (Item.imports attributes path names).fault? = none := by
  simp only [Item.fault?]

@[simp] theorem Item.fault?_constant (attributes : List Attribute) (name : String) :
    (Item.constant attributes name).fault? = none := by
  simp only [Item.fault?]

theorem Item.fault?_struct {attributes : List Attribute} {name : String}
    {fields : List (String × Ty)} :
    (Item.struct attributes name fields).fault? = none ↔ NameFault.ofDeclared name = none ∧
      ∀ f ∈ fields, NameFault.ofField f.1 = none ∧ f.2.fault? = none := by
  simp [Item.fault?]

theorem Item.fault?_methods {trait : Option String} {target : Ty}
    {functions : List (Signature × Block)} :
    (Item.methods trait target functions).fault? = none ↔
      target.fault? = none ∧ ∀ f ∈ functions, faultOfStmts? f.2 = none := by
  simp [Item.fault?, faultOfFunctions?_eq_none]

end WireRecords.Program
