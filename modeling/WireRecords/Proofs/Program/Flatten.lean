import WireRecords.Proofs.Program.Meaning

/-!
# Flat blocks do the same

A block that is spliced into the block around it makes no bindings, so what follows it sees the same
as before; its value is dropped where it was dropped before. The first part shows this for any
effects, the second carries it through expressions, functions and items.
-/
namespace WireRecords.Program

universe u v w

/-- Whether a block can be spliced does not depend on what stands inside its statements. -/
theorem isSpliceable_flattenStmts (b : Block) : isSpliceable (flattenStmts b) = isSpliceable b := by
  induction b with
  | nil => simp only [flattenStmts]
  | cons s ss ih =>
    simp only [isSpliceable, flattenStmts, List.all_cons] at ih ⊢
    rw [ih]
    cases s <;> rfl

namespace Effects

open Scoping

variable {m : Type u → Type v} {Env V : Type u} {D : Type w} {E : Effects m Env V D} {b : Block}

@[simp] theorem steps_eq_nil : E.steps b = [] ↔ b = [] := List.map_eq_nil_iff

theorem steps_cons (s : Stmt) (b : Block) : E.steps (s :: b) = E.step s :: E.steps b := rfl

theorem steps_append (a b : Block) : E.steps (a ++ b) = E.steps a ++ E.steps b :=
  List.map_append

theorem declarations_append (a b : List (Step m Env V D)) :
    declarations (a ++ b) = declarations a ++ declarations b :=
  List.filterMap_append

/-- A block that can be spliced is a row of expressions. -/
theorem isSpliceable_cons {s : Stmt} (h : isSpliceable (s :: b) = true) :
    (∃ e hasSemicolon, s = .expr e hasSemicolon) ∧ isSpliceable b = true := by
  cases s with
  | expr e hasSemicolon => exact ⟨⟨e, hasSemicolon, rfl⟩, by simpa [isSpliceable] using h⟩
  | binding => simp [isSpliceable] at h
  | invocation => simp [isSpliceable] at h
  | item => simp [isSpliceable] at h

theorem isSpliceable_dropValue (h : isSpliceable b = true) : isSpliceable (dropValue b) = true := by
  fun_induction dropValue b with
  | case1 => rfl
  | case2 e => rfl
  | case3 s b hne ih =>
    obtain ⟨⟨e, hasSemicolon, rfl⟩, hb⟩ := isSpliceable_cons h
    simpa [isSpliceable] using ih hb

@[simp] theorem dropValue_eq_nil : dropValue b = [] ↔ b = [] := by
  fun_induction dropValue b <;> simp

theorem declarations_of_isSpliceable (h : isSpliceable b = true) :
    declarations (E.steps b) = [] := by
  induction b with
  | nil => rfl
  | cons s b ih =>
    obtain ⟨⟨e, hasSemicolon, rfl⟩, hb⟩ := isSpliceable_cons h
    exact ih hb

/-- Splicing moves no declaration into another block. -/
theorem declarations_flattenStmt (isLast : Bool) (s : Stmt) :
    declarations (E.steps (flattenStmt isLast s)) = declarations (E.steps [s]) := by
  unfold flattenStmt
  split
  · dsimp only
    split
    · rename_i hflat
      split
      · rw [declarations_of_isSpliceable hflat]
        rfl
      · rw [declarations_of_isSpliceable (isSpliceable_dropValue hflat)]
        rfl
    · rfl
  · rfl

theorem declarations_flattenBlock (b : Block) :
    declarations (E.steps (flattenBlock b)) = declarations (E.steps b) := by
  induction b with
  | nil => simp [flattenBlock]
  | cons s b ih =>
    have hsplit : E.steps (s :: b) = E.steps [s] ++ E.steps b := rfl
    rw [flattenBlock, steps_append, declarations_append, declarations_flattenStmt, ih, hsplit,
      declarations_append]

end Effects

variable {m : Type u → Type v} [Monad m] {Env V : Type u} {D : Type w}

namespace Scoping

variable {S : Scoping m Env V D} {steps steps' : List (Step m Env V D)}

theorem exec_value {isKept : Bool} {eval : Env → m V} (h : isKept = true → steps ≠ [])
    (env : Env) :
    S.exec (.value isKept eval :: steps) env = eval env >>= fun _ => S.exec steps env := by
  have hif : (isKept && steps.isEmpty) = false := by
    cases isKept with
    | false => rfl
    | true => simpa using h rfl
  simp [exec, hif]

/-- What follows a statement may be replaced by what does the same. When nothing is left of it, the
statement becomes the last, and must not have a value then. -/
theorem exec_cons_congr [LawfulMonad m] {s : Step m Env V D} (h : S.exec steps' = S.exec steps)
    (hnil : steps = [] → steps' = [])
    (hunit : ∀ eval, s = .value true eval → steps ≠ [] → S.Unitary eval) :
    S.exec (s :: steps') = S.exec (s :: steps) := by
  funext env
  cases s with
  | bind change => simp only [exec, h]
  | declare d => simp only [exec, h]
  | value isKept eval =>
    by_cases hlast : isKept = true ∧ steps' = []
    · obtain ⟨rfl, rfl⟩ := hlast
      by_cases hsteps : steps = []
      · rw [hsteps]
      · have hvalue := hunit eval rfl hsteps env
        rw [exec_value (fun _ => hsteps), ← h]
        simp only [exec, List.isEmpty_nil, Bool.and_self, if_true]
        rw [← hvalue]
        simp only [map_eq_pure_bind, bind_assoc, pure_bind]
    · have hlater : isKept = true → steps' ≠ [] := fun hk hs => hlast ⟨hk, hs⟩
      have hearlier : isKept = true → steps ≠ [] := fun hk hs => hlast ⟨hk, hnil hs⟩
      rw [exec_value hlater, exec_value hearlier, h]

end Scoping

namespace Effects

open Scoping

variable {E : Effects m Env V D} {b ss : Block}

theorem enter_flattenBlock (b : Block) :
    E.enter (E.steps (flattenBlock b)) = E.enter (E.steps b) := by
  funext env
  simp only [enter, declarations_flattenBlock]

variable [LawfulMonad m]

/-- Expressions leave the bindings alone. -/
theorem exec_of_isSpliceable (h : isSpliceable b = true) (env : Env) :
    (fun v => (env, v)) <$> Prod.snd <$> E.exec (E.steps b) env = E.exec (E.steps b) env := by
  induction b with
  | nil => simp [steps, exec]
  | cons s b ih =>
    obtain ⟨⟨e, hasSemicolon, rfl⟩, hb⟩ := isSpliceable_cons h
    have hrest := ih hb
    simp only [steps_cons, step, exec]
    split
    · simp only [Functor.map_map]
    · simp only [map_bind, hrest]

/-- Without its value, a row of expressions can be followed by anything. -/
theorem exec_dropValue (h : isSpliceable b = true) (rest : List (Step m Env V D)) (env : Env) :
    E.exec (E.steps (dropValue b) ++ rest) env =
      E.exec (E.steps b) env >>= fun _ => E.exec rest env := by
  fun_induction dropValue b with
  | case1 => simp [steps, exec]
  | case2 e hasSemicolon =>
    simp only [steps, List.map_cons, List.map_nil, step, List.cons_append, List.nil_append]
    rw [exec_value (by simp)]
    simp only [exec]
    split
    · simp
    · simp
  | case3 s b hne ih =>
    obtain ⟨⟨e, hasSemicolon, rfl⟩, hb⟩ := isSpliceable_cons h
    have hb' : b ≠ [] := by
      rintro rfl
      exact hne e hasSemicolon rfl rfl
    have hdrop : E.steps (dropValue b) ++ rest ≠ [] := by simp [hb']
    have hsteps : E.steps b ≠ [] := by simpa using hb'
    rw [steps_cons, steps_cons, List.cons_append, step, exec_value (fun _ => hdrop),
      exec_value (fun _ => hsteps), bind_assoc]
    simp only [ih hb]

/-- A plain block of expressions is its statements, as far as the value goes. -/
theorem eval_of_isSpliceable (hE : E.Lexical) (h : isSpliceable b = true) (env : Env) :
    E.eval (.block none false b) env = Prod.snd <$> E.exec (E.steps b) env := by
  rw [hE, result, run, enter, declarations_of_isSpliceable h]
  simp

/-- One statement is replaced by what stands for it, in front of what does the same as before. -/
theorem exec_flattenStmt (hE : E.Lexical) {s : Stmt} {rest : Block}
    (hinner : ∀ body hasSemicolon, s = .expr (.block none false body) hasSemicolon →
      E.exec (E.steps (flattenBlock body)) = E.exec (E.steps body))
    (hrest : E.exec (E.steps rest) = E.exec (E.steps ss)) (hnil : ss = [] → rest = [])
    (hunit : ∀ e, s = .expr e false → ss ≠ [] → E.Unitary (E.eval e)) :
    E.exec (E.steps (flattenStmt ss.isEmpty s ++ rest)) = E.exec (E.steps (s :: ss)) := by
  -- A statement that stays a single one.
  have hkeep : ∀ s', E.step s' = E.step s →
      E.exec (E.steps (s' :: rest)) = E.exec (E.steps (s :: ss)) := by
    intro s' hs'
    rw [steps_cons, steps_cons, hs']
    apply exec_cons_congr hrest (by simpa using hnil)
    intro eval heval hss
    cases s with
    | expr e hasSemicolon =>
      simp only [step, Step.value.injEq, Bool.not_eq_true'] at heval
      obtain ⟨rfl, rfl⟩ := heval
      exact hunit e rfl (by simpa using hss)
    | binding => simp [step] at heval
    | invocation => simp [step] at heval
    | item => simp [step] at heval
  unfold flattenStmt
  split
  · rename_i body hasSemicolon
    have hbody := hinner body hasSemicolon rfl
    have heval : E.eval (.block none false (flattenBlock body)) =
        E.eval (.block none false body) := by
      funext env
      rw [hE, hE, result, result, run, run, enter_flattenBlock, hbody]
    dsimp only
    split
    · rename_i hflat
      funext env
      have hvalue := eval_of_isSpliceable hE hflat env
      split
      · -- The inner block is the value of the outer one.
        rename_i htail
        simp only [Bool.and_eq_true, List.isEmpty_iff, Bool.not_eq_true'] at htail
        obtain ⟨rfl, rfl⟩ := htail
        rw [hnil rfl, List.append_nil, ← exec_of_isSpliceable hflat, ← hvalue, heval]
        rfl
      · rename_i hdrop
        have hlater : (!hasSemicolon) = true → E.steps ss ≠ [] := by
          intro hk hss
          apply hdrop
          simpa [hk] using hss
        rw [steps_append, exec_dropValue hflat, steps_cons, step, exec_value hlater, ← heval,
          hvalue, hrest]
        simp only [bind_map_left]
    · apply hkeep
      simp only [step, heval]
  · exact hkeep s rfl

/-- A flat block has the effects of the block, under the same bindings and in the same order. -/
theorem exec_flattenBlock (hE : E.Lexical) :
    (b : Block) → E.Settled b → E.exec (E.steps (flattenBlock b)) = E.exec (E.steps b)
  | [], _ => by simp [flattenBlock]
  | s :: ss, h => by
    obtain ⟨hs, hunit, hss⟩ : E.SettledStmt s ∧
        (∀ e, s = .expr e false → ss ≠ [] → E.Unitary (E.eval e)) ∧ E.Settled ss := by
      simpa only [Settled] using h
    have hrest := exec_flattenBlock hE ss hss
    have hinner : ∀ body hasSemicolon, s = .expr (.block none false body) hasSemicolon →
        E.exec (E.steps (flattenBlock body)) = E.exec (E.steps body) := by
      rintro body hasSemicolon rfl
      exact exec_flattenBlock hE body (by simpa only [SettledStmt] using hs)
    have hnil : ss = [] → flattenBlock ss = [] := by
      rintro rfl
      rfl
    rw [flattenBlock]
    exact exec_flattenStmt hE hinner hrest hnil hunit
termination_by b => sizeOf b

/-- The same effects, the same bindings at the end and the same value. -/
theorem runBlock_flattenBlock (hE : E.Lexical) {b : Block} (h : E.Settled b) :
    E.runBlock (flattenBlock b) = E.runBlock b := by
  funext env
  rw [runBlock, runBlock, run, run, enter_flattenBlock, exec_flattenBlock hE b h]

end Effects

namespace Interpretation

variable {I : Interpretation m Env V}

theorem steps_eq_effects (b : Block) : I.steps b = I.effects.steps b := by
  induction b with
  | nil => rfl
  | cons s b ih =>
    have hstep : I.step s = I.effects.step s := by cases s <;> rfl
    rw [steps, ih, hstep, Effects.steps_cons]

theorem effects_lexical : I.effects.Lexical := by
  intro body env
  rw [← steps_eq_effects]
  rfl

theorem names_flattenFields (fields : List (String × Expr)) :
    (flattenFields fields).map (·.1) = fields.map (·.1) := by
  induction fields with
  | nil => simp [flattenFields]
  | cons f fields ih => simp [flattenFields, ih]

theorem flattenStmts_eq_nil {b : Block} : flattenStmts b = [] ↔ b = [] := by
  cases b <;> simp [flattenStmts]

variable [LawfulMonad m]

/-- The body of a function or closure may be flattened. -/
theorem result_flattenBlock {b : Block} (h : I.effects.Settled b) :
    I.result (I.steps (flattenBlock b)) = I.result (I.steps b) := by
  funext env
  have hrun := congrFun (Effects.runBlock_flattenBlock effects_lexical h) env
  rw [steps_eq_effects, steps_eq_effects]
  exact congrArg (Prod.snd <$> ·) hrun

set_option linter.unusedSectionVars false in
mutual

/-- Flattening inside of an expression keeps its meaning, and leaves it settled if it is a block. -/
theorem eval_flatten : (e : Expr) → I.OrderlyExpr e →
    I.eval e.flatten = I.eval e ∧
      ∀ hasSemicolon, I.effects.SettledStmt (.expr e.flatten hasSemicolon)
  | .path _, _ | .literal _, _ | .unit, _ | .vector _ _, _ => by
    simp [Expr.flatten, Effects.SettledStmt]
  | .paren inner, h | .deref inner, h | .borrow _ inner, h | .propagate inner, h | .cast inner _, h
  | .field inner _, h | .returned inner, h | .range none inner, h => by
    have hinner := eval_flatten inner (by simpa only [OrderlyExpr] using h)
    simp [Expr.flatten, eval, hinner.1, Effects.SettledStmt]
  | .binary _ lhs rhs, h | .assign lhs rhs, h | .index lhs rhs, h | .range (some lhs) rhs, h
  | .repetition lhs rhs, h => by
    simp only [OrderlyExpr] at h
    have hlhs := eval_flatten lhs h.1
    have hrhs := eval_flatten rhs h.2
    simp [Expr.flatten, eval, hlhs.1, hrhs.1, Effects.SettledStmt]
  | .call callee arguments, h | .method callee _ arguments, h => by
    simp only [OrderlyExpr] at h
    have hcallee := eval_flatten callee h.1
    have harguments := evalAll_flatten arguments h.2
    simp [Expr.flatten, eval, hcallee.1, harguments, Effects.SettledStmt]
  | .construct _ fields, h => by
    have hfields := evalFields_flatten fields (by simpa only [OrderlyExpr] using h)
    simp [Expr.flatten, eval, hfields, names_flattenFields, Effects.SettledStmt]
  | .closure _ body, h => by
    have hbody := steps_flatten body (by simpa only [OrderlyExpr] using h)
    simp [Expr.flatten, eval, result_flattenBlock hbody.2, hbody.1, Effects.SettledStmt]
  | .block label hasAttribute body, h => by
    have hbody := steps_flatten body (by simpa only [OrderlyExpr] using h)
    rw [Expr.flatten]
    cases label with
    | some label => simp [eval, hbody.1, Effects.SettledStmt]
    | none =>
      cases hasAttribute with
      | true => simp [eval, hbody.1, Effects.SettledStmt]
      | false => simp [eval, hbody.1, hbody.2, Effects.SettledStmt]
  | .endless body, h | .unchecked body, h => by
    have hbody := steps_flatten body (by simpa only [OrderlyExpr] using h)
    simp [Expr.flatten, eval, hbody.1, Effects.SettledStmt]
  | .branch condition body none, h | .forEach _ condition body, h
  | .whileLoop condition body, h => by
    simp only [OrderlyExpr] at h
    have hcondition := eval_flatten condition h.1
    have hbody := steps_flatten body h.2
    simp [Expr.flatten, eval, hcondition.1, hbody.1, Effects.SettledStmt]
  | .branch condition body (some otherwise), h => by
    simp only [OrderlyExpr] at h
    have hcondition := eval_flatten condition h.1
    have hbody := steps_flatten body h.2.1
    have hotherwise := steps_flatten otherwise h.2.2
    simp [Expr.flatten, eval, hcondition.1, hbody.1, hotherwise.1, Effects.SettledStmt]

theorem evalAll_flatten : (es : List Expr) → I.OrderlyAll es →
    I.evalAll (flattenExprs es) = I.evalAll es
  | [], _ => by simp only [flattenExprs]
  | e :: es, h => by
    simp only [OrderlyAll] at h
    rw [flattenExprs, evalAll, evalAll, (eval_flatten e h.1).1, evalAll_flatten es h.2]

theorem evalFields_flatten : (fields : List (String × Expr)) → I.OrderlyFields fields →
    I.evalFields (flattenFields fields) = I.evalFields fields
  | [], _ => by simp only [flattenFields]
  | (_, value) :: fields, h => by
    simp only [OrderlyFields] at h
    rw [flattenFields, evalFields, evalFields, (eval_flatten value h.1).1,
      evalFields_flatten fields h.2]

theorem step_flatten : (s : Stmt) → I.OrderlyStmt s →
    I.step s.flatten = I.step s ∧ I.effects.SettledStmt s.flatten
  | .expr value _, h => by
    have hvalue := eval_flatten value (by simpa only [OrderlyStmt] using h)
    exact ⟨by simp only [Stmt.flatten, step, hvalue.1],
      by simpa only [Stmt.flatten] using hvalue.2 _⟩
  | .binding _ _ _ value, h => by
    have hvalue := eval_flatten value (by simpa only [OrderlyStmt] using h)
    simp [Stmt.flatten, step, hvalue.1, Effects.SettledStmt]
  | .invocation _ _, _ => by simp [Stmt.flatten, Effects.SettledStmt]
  | .item item, h => by
    have hitem := outline_flatten item (by simpa only [OrderlyStmt] using h)
    simp [Stmt.flatten, step, hitem, Effects.SettledStmt]

/-- The statements of a block mean the same, and the block is settled where it was orderly. -/
theorem steps_flatten : (b : Block) → I.OrderlyBlock b →
    I.steps (flattenStmts b) = I.steps b ∧ I.effects.Settled (flattenStmts b)
  | [], _ => by simp [flattenStmts, Effects.Settled]
  | s :: ss, h => by
    simp only [OrderlyBlock] at h
    obtain ⟨hs, hunit, hss⟩ := h
    have hstep := step_flatten s hs
    have hrest := steps_flatten ss hss
    refine ⟨by simp only [flattenStmts, steps, hstep.1, hrest.1], ?_⟩
    rw [flattenStmts, Effects.Settled]
    refine ⟨hstep.2, ?_, hrest.2⟩
    intro e he hne
    cases s with
    | expr value hasSemicolon =>
      simp only [Stmt.flatten, Stmt.expr.injEq] at he
      obtain ⟨rfl, rfl⟩ := he
      have hvalue : I.eval value.flatten = I.eval value := by
        simpa only [Stmt.flatten, step, Step.value.injEq, true_and] using hstep.1
      have hvalueUnit := hunit value rfl fun h => hne (flattenStmts_eq_nil.mpr h)
      change I.Unitary (I.eval value.flatten)
      rwa [hvalue]
    | binding => simp [Stmt.flatten] at he
    | invocation => simp [Stmt.flatten] at he
    | item => simp [Stmt.flatten] at he

theorem outline_flatten : (i : Item) → I.OrderlyItem i →
    I.outline i.flatten = I.outline i
  | .imports _ _ _, _ | .constant _ _, _ | .struct _ _ _, _ => by simp only [Item.flatten]
  | .function _ body, h => by
    have hbody := steps_flatten body (by simpa only [OrderlyItem] using h)
    simp only [Item.flatten, outline, result_flattenBlock hbody.2, hbody.1]
  | .methods _ _ functions, h => by
    have hfunctions := evalFunctions_flatten functions (by simpa only [OrderlyItem] using h)
    simp only [Item.flatten, outline, hfunctions]
  | .trait _ functions, h => by
    have hfunctions := evalFunctions_flattenDefaults functions (by simpa only [OrderlyItem] using h)
    simp only [Item.flatten, outline, hfunctions]
  | .module _ items, h => by
    have hitems := outlines_flattenItems items (by simpa only [OrderlyItem] using h)
    simp only [Item.flatten, outline, hitems]

theorem evalFunctions_flatten : (fs : List (Signature × Block)) → I.OrderlyFunctions fs →
    I.evalFunctions (flattenFunctions fs) = I.evalFunctions fs
  | [], _ => by simp only [flattenFunctions]
  | (_, body) :: fs, h => by
    simp only [OrderlyFunctions] at h
    have hbody := steps_flatten body h.1
    have hfs := evalFunctions_flatten fs h.2
    simp only [flattenFunctions, evalFunctions, result_flattenBlock hbody.2, hbody.1, hfs]

theorem evalFunctions_flattenDefaults : (fs : List (Signature × Block)) → I.OrderlyFunctions fs →
    I.evalFunctions (flattenDefaults fs) = I.evalFunctions fs
  | [], _ => by simp only [flattenDefaults]
  | (_, body) :: fs, h => by
    simp only [OrderlyFunctions] at h
    have hbody := steps_flatten body h.1
    have hfs := evalFunctions_flattenDefaults fs h.2
    simp only [flattenDefaults, evalFunctions, hbody.1, hfs]

/-- A flat file declares the same functions with the same meanings. -/
theorem outlines_flattenItems : (is : List Item) → I.OrderlyItems is →
    I.outlines (flattenItems is) = I.outlines is
  | [], _ => by simp only [flattenItems]
  | i :: is, h => by
    simp only [OrderlyItems] at h
    rw [flattenItems, outlines, outlines, outline_flatten i h.1,
      outlines_flattenItems is h.2]

end

end Interpretation

end WireRecords.Program
