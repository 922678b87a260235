import Mathlib
import WireRecords.Program.Flatten

/-!
# What blocks do

Statements act on the bindings that are visible to them, with effects in any monad: the same effects
in the same order under the same bindings are the same computation. `Effects` leaves everything but
scopes open. An `Interpretation` also says how the meaning of an expression comes from the meanings
of its parts, so that what stands inside of closures and functions counts too.
-/
namespace WireRecords.Program

universe u v w

/-- What a statement does: it evaluates an expression and keeps the value or not, it binds names, or
it declares something. -/
inductive Step (m : Type u → Type v) (Env V : Type u) (D : Type w) where
  | value (isKept : Bool) (eval : Env → m V)
  | bind (change : Env → m Env)
  | declare (declaration : D)

/-- What holds in every scope. Declarations `D` are in force from the start of their block on. -/
structure Scoping (m : Type u → Type v) (Env V : Type u) (D : Type w) where
  unit : V
  /-- The bindings behind a declaration. -/
  reach : D → Env → m Env
  /-- The bindings at the start of a block with these declarations. -/
  hoist : List D → Env → m Env

namespace Scoping

variable {m : Type u → Type v} [Monad m] {Env V : Type u} {D : Type w} (S : Scoping m Env V D)

/-- Statements one after the other: the bindings behind them and their value, which is that of a
last expression without a semicolon. -/
def exec : List (Step m Env V D) → Env → m (Env × V)
  | [], env => pure (env, S.unit)
  | .value isKept eval :: steps, env =>
    if isKept && steps.isEmpty then (fun v => (env, v)) <$> eval env
    else eval env >>= fun _ => exec steps env
  | .bind change :: steps, env => change env >>= fun env => exec steps env
  | .declare d :: steps, env => S.reach d env >>= fun env => exec steps env

def declarations (steps : List (Step m Env V D)) : List D :=
  steps.filterMap fun
    | .declare d => some d
    | _ => none

/-- The bindings at the start of a block. -/
def enter (steps : List (Step m Env V D)) (env : Env) : m Env :=
  if (declarations steps).isEmpty then pure env else S.hoist (declarations steps) env

/-- A block: the bindings at its end and its value. -/
def run (steps : List (Step m Env V D)) (env : Env) : m (Env × V) :=
  S.enter steps env >>= S.exec steps

/-- A block as an expression: the bindings made inside are gone. -/
def result (steps : List (Step m Env V D)) (env : Env) : m V := Prod.snd <$> S.run steps env

/-- A computation that can have no value but the unit. -/
def Unitary (eval : Env → m V) : Prop := ∀ env, (fun _ => S.unit) <$> eval env = eval env

end Scoping

/-- Any effects of expressions, bindings, macros and items. -/
structure Effects (m : Type u → Type v) (Env V : Type u) (D : Type w) extends
    Scoping m Env V D where
  eval : Expr → Env → m V
  bind : (isMutable : Bool) → (name : String) → Option Ty → Expr → Env → m Env
  invocation : (name : String) → (hasSemicolon : Bool) → D
  item : Item → D

namespace Effects

variable {m : Type u → Type v} [Monad m] {Env V : Type u} {D : Type w} (E : Effects m Env V D)

def step : Stmt → Step m Env V D
  | .expr value hasSemicolon => .value (!hasSemicolon) (E.eval value)
  | .binding isMutable name type value => .bind (E.bind isMutable name type value)
  | .invocation name hasSemicolon => .declare (E.invocation name hasSemicolon)
  | .item item => .declare (E.item item)

def steps (b : Block) : List (Step m Env V D) := b.map E.step

/-- The effects of a block, the bindings at its end and its value. -/
def runBlock (b : Block) : Env → m (Env × V) := E.run (E.steps b)

/-- A plain block is evaluated in a scope of its own. -/
def Lexical : Prop :=
  ∀ body env, E.eval (.block none false body) env = E.result (E.steps body) env

mutual

/-- A statement is settled when it is no plain block, or a settled one. -/
def SettledStmt : Stmt → Prop
  | .expr (.block none false body) _ => Settled body
  | _ => True

/-- In a block, and in the plain blocks that are its statements, an expression without a semicolon
has no value but the unit unless it is the last. -/
def Settled : Block → Prop
  | [] => True
  | s :: ss =>
    SettledStmt s ∧ (∀ e, s = .expr e false → ss ≠ [] → E.Unitary (E.eval e)) ∧ Settled ss

end

end Effects

/-- What an item or a macro declares, where `B` is what bodies of functions mean. -/
inductive Declaration (B : Type w) where
  | invocation (name : String) (hasSemicolon : Bool)
  | imports (attributes : List Attribute) (path : String) (names : List String)
  | constant (attributes : List Attribute) (name : String)
  | struct (attributes : List Attribute) (name : String) (fields : List (String × Ty))
  | function (signature : Signature) (body : B)
  | methods (trait : Option String) (target : Ty) (functions : List (Signature × B))
  | trait (name : String) (functions : List (Signature × B))
  | module (name : String) (items : List (Declaration B))

/-- An expression without its parts. -/
inductive Form where
  | path (segments : List String)
  | literal (value : Literal)
  | unit
  | paren
  | deref
  | borrow (isMutable : Bool)
  | propagate
  | cast (type : Ty)
  | binary (symbol : String)
  | assign
  | call
  | method (name : String)
  | field (name : String)
  | index
  | range
  | repetition
  | vector
  | construct (path : List String) (fields : List String)
  | returned
  | closure (result : Option Ty)
  | block (label : Option String) (hasAttribute : Bool)
  | branch
  | endless
  | unchecked

/-- An expression that has no value but the unit, without its parts. -/
inductive Control where
  | branch
  | forEach (name : String)
  | whileLoop

/-- What expressions and bindings mean, given what their parts mean. A body of a closure, a loop or
a branch is such a part: it may run any number of times, under any bindings. -/
structure Interpretation (m : Type u → Type v) (Env V : Type u) extends
    Scoping m Env V (Declaration (Env → m V)) where
  form : Form → List (Env → m V) → Env → m V
  control : Control → List (Env → m V) → Env → m PUnit
  bind : (isMutable : Bool) → (name : String) → Option Ty → (Env → m V) → Env → m Env

namespace Interpretation

variable {m : Type u → Type v} [Monad m] {Env V : Type u} (I : Interpretation m Env V)

mutual

def eval : Expr → Env → m V
  | .path segments => I.form (.path segments) []
  | .literal value => I.form (.literal value) []
  | .unit => I.form .unit []
  | .paren inner => I.form .paren [eval inner]
  | .deref inner => I.form .deref [eval inner]
  | .borrow isMutable inner => I.form (.borrow isMutable) [eval inner]
  | .propagate inner => I.form .propagate [eval inner]
  | .cast inner type => I.form (.cast type) [eval inner]
  | .binary symbol lhs rhs => I.form (.binary symbol) [eval lhs, eval rhs]
  | .assign place value => I.form .assign [eval place, eval value]
  | .call callee arguments => I.form .call (eval callee :: evalAll arguments)
  | .method receiver name arguments =>
    I.form (.method name) (eval receiver :: evalAll arguments)
  | .field base name => I.form (.field name) [eval base]
  | .index base position => I.form .index [eval base, eval position]
  | .range none stop => I.form .range [eval stop]
  | .range (some start) stop => I.form .range [eval start, eval stop]
  | .repetition value length => I.form .repetition [eval value, eval length]
  | .vector value length => I.form .vector [eval value, eval length]
  | .construct path fields => I.form (.construct path (fields.map (·.1))) (evalFields fields)
  | .returned value => I.form .returned [eval value]
  | .closure result body => I.form (.closure result) [I.result (steps body)]
  | .block none false body => I.result (steps body)
  | .block label hasAttribute body => I.form (.block label hasAttribute) [I.result (steps body)]
  | .branch condition body none =>
    fun env => (fun _ => I.unit) <$> I.control .branch [eval condition, I.result (steps body)] env
  | .branch condition body (some otherwise) =>
    I.form .branch [eval condition, I.result (steps body), I.result (steps otherwise)]
  | .forEach name source body =>
    fun env => (fun _ => I.unit) <$>
      I.control (.forEach name) [eval source, I.result (steps body)] env
  | .whileLoop condition body =>
    fun env => (fun _ => I.unit) <$>
      I.control .whileLoop [eval condition, I.result (steps body)] env
  | .endless body => I.form .endless [I.result (steps body)]
  | .unchecked body => I.form .unchecked [I.result (steps body)]

def evalAll : List Expr → List (Env → m V)
  | [] => []
  | e :: es => eval e :: evalAll es

def evalFields : List (String × Expr) → List (Env → m V)
  | [] => []
  | (_, value) :: fields => eval value :: evalFields fields

def step : Stmt → Step m Env V (Declaration (Env → m V))
  | .expr value hasSemicolon => .value (!hasSemicolon) (eval value)
  | .binding isMutable name type value => .bind (I.bind isMutable name type (eval value))
  | .invocation name hasSemicolon => .declare (.invocation name hasSemicolon)
  | .item item => .declare (outline item)

def steps : Block → List (Step m Env V (Declaration (Env → m V)))
  | [] => []
  | s :: ss => step s :: steps ss

/-- An item with the meanings of its functions in place of their bodies. -/
def outline : Item → Declaration (Env → m V)
  | .imports attributes path names => .imports attributes path names
  | .constant attributes name => .constant attributes name
  | .struct attributes name fields => .struct attributes name fields
  | .function signature body => .function signature (I.result (steps body))
  | .methods trait target functions => .methods trait target (evalFunctions functions)
  | .trait name functions => .trait name (evalFunctions functions)
  | .module name items => .module name (outlines items)

def evalFunctions : List (Signature × Block) → List (Signature × (Env → m V))
  | [] => []
  | (signature, body) :: fs => (signature, I.result (steps body)) :: evalFunctions fs

def outlines : List Item → List (Declaration (Env → m V))
  | [] => []
  | i :: is => outline i :: outlines is

end

mutual

/-- In every block inside, an expression without a semicolon has no value but the unit unless it is
the last. What stands inside of a macro does not matter. -/
def OrderlyExpr : Expr → Prop
  | .path _ | .literal _ | .unit | .vector _ _ => True
  | .paren inner | .deref inner | .borrow _ inner | .propagate inner | .cast inner _
  | .field inner _ | .returned inner | .range none inner => OrderlyExpr inner
  | .binary _ lhs rhs | .assign lhs rhs | .index lhs rhs | .range (some lhs) rhs
  | .repetition lhs rhs => OrderlyExpr lhs ∧ OrderlyExpr rhs
  | .call callee arguments => OrderlyExpr callee ∧ OrderlyAll arguments
  | .method receiver _ arguments => OrderlyExpr receiver ∧ OrderlyAll arguments
  | .construct _ fields => OrderlyFields fields
  | .closure _ body | .block _ _ body | .endless body | .unchecked body => OrderlyBlock body
  | .branch condition body none | .forEach _ condition body | .whileLoop condition body =>
    OrderlyExpr condition ∧ OrderlyBlock body
  | .branch condition body (some otherwise) =>
    OrderlyExpr condition ∧ OrderlyBlock body ∧ OrderlyBlock otherwise

def OrderlyAll : List Expr → Prop
  | [] => True
  | e :: es => OrderlyExpr e ∧ OrderlyAll es

def OrderlyFields : List (String × Expr) → Prop
  | [] => True
  | (_, value) :: fields => OrderlyExpr value ∧ OrderlyFields fields

def OrderlyStmt : Stmt → Prop
  | .expr value _ | .binding _ _ _ value => OrderlyExpr value
  | .invocation _ _ => True
  | .item item => OrderlyItem item

def OrderlyBlock : Block → Prop
  | [] => True
  | s :: ss =>
    OrderlyStmt s ∧ (∀ e, s = .expr e false → ss ≠ [] → I.Unitary (I.eval e)) ∧ OrderlyBlock ss

def OrderlyItem : Item → Prop
  | .imports _ _ _ | .constant _ _ | .struct _ _ _ => True
  | .function _ body => OrderlyBlock body
  | .methods _ _ functions | .trait _ functions => OrderlyFunctions functions
  | .module _ items => OrderlyItems items

def OrderlyFunctions : List (Signature × Block) → Prop
  | [] => True
  | (_, body) :: fs => OrderlyBlock body ∧ OrderlyFunctions fs

def OrderlyItems : List Item → Prop
  | [] => True
  | i :: is => OrderlyItem i ∧ OrderlyItems is

end

/-- The effects of an interpretation. -/
def effects : Effects m Env V (Declaration (Env → m V)) where
  toScoping := I.toScoping
  eval := I.eval
  bind isMutable name type value := I.bind isMutable name type (I.eval value)
  invocation := .invocation
  item := I.outline

end Interpretation

end WireRecords.Program
