import WireRecords.Proofs.Program.Emission
import WireRecords.Proofs.Program.Flatten

/-!
# Generated procedures are orderly

The statements of a generated procedure are quiet: no value of theirs is kept but the unit. So what
is generated does the same with and without needless scopes.
-/
namespace WireRecords.Program

universe u v w

variable {m : Type u → Type v} [Monad m] [LawfulMonad m] {Env V : Type u}

namespace Scoping

variable {D : Type w} {S : Scoping m Env V D}

/-- A row of statements that keep no value has none. -/
theorem exec_unitary {steps : List (Step m Env V D)}
    (h : ∀ eval, .value true eval ∈ steps → S.Unitary eval) (env : Env) :
    (fun p => (p.1, S.unit)) <$> S.exec steps env = S.exec steps env := by
  induction steps generalizing env with
  | nil => simp [exec]
  | cons s steps ih =>
    have hrest := ih fun eval hmem => h eval (List.mem_cons_of_mem s hmem)
    cases s with
    | bind change => simp only [exec, map_bind, hrest]
    | declare d => simp only [exec, map_bind, hrest]
    | value isKept eval =>
      simp only [exec]
      split
      · rename_i hlast
        simp only [Bool.and_eq_true] at hlast
        obtain ⟨rfl, _⟩ := hlast
        have hvalue := h eval List.mem_cons_self env
        rw [← hvalue]
        simp only [Functor.map_map]
      · simp only [map_bind, hrest]

theorem result_unitary {steps : List (Step m Env V D)}
    (h : ∀ eval, .value true eval ∈ steps → S.Unitary eval) : S.Unitary (S.result steps) := by
  intro env
  have hexec := exec_unitary h
  have hsnd : ∀ env, (fun _ => S.unit) <$> S.exec steps env = Prod.snd <$> S.exec steps env := by
    intro env
    rw [← hexec, Functor.map_map, Functor.map_map]
  simp only [result, run, Functor.map_map, map_bind, hsnd]

end Scoping

namespace Interpretation

variable {I : Interpretation m Env V}

/-- An orderly statement whose value, if it keeps one, is the unit. -/
structure Quiet (I : Interpretation m Env V) (s : Stmt) : Prop where
  orderly : I.OrderlyStmt s
  unitary : ∀ e, s = .expr e false → I.Unitary (I.eval e)

omit [LawfulMonad m] in
theorem orderlyBlock_of_quiet {b : Block} (h : ∀ s ∈ b, I.Quiet s) : I.OrderlyBlock b := by
  induction b with
  | nil => simp only [OrderlyBlock]
  | cons s b ih =>
    have hs := h s List.mem_cons_self
    have hb := ih fun t ht => h t (List.mem_cons_of_mem s ht)
    rw [OrderlyBlock]
    exact ⟨hs.orderly, fun e he _ => hs.unitary e he, hb⟩

omit [LawfulMonad m] in
/-- A last expression may follow that has a value. -/
theorem orderlyBlock_append {b : Block} {e : Expr} {hasSemicolon : Bool} (h : ∀ s ∈ b, I.Quiet s)
    (he : I.OrderlyExpr e) : I.OrderlyBlock (b ++ [.expr e hasSemicolon]) := by
  induction b with
  | nil => simpa [OrderlyBlock, OrderlyStmt] using he
  | cons s b ih =>
    have hs := h s List.mem_cons_self
    have hb := ih fun t ht => h t (List.mem_cons_of_mem s ht)
    rw [List.cons_append, OrderlyBlock]
    exact ⟨hs.orderly, fun e he _ => hs.unitary e he, hb⟩

theorem quiet_block {b : Block} (h : ∀ s ∈ b, I.Quiet s) :
    I.Quiet (.expr (.block none false b) false) := by
  refine ⟨?_, ?_⟩
  · simpa only [OrderlyStmt, OrderlyExpr] using orderlyBlock_of_quiet h
  · rintro e ⟨⟩
    have hvalues : ∀ eval, .value true eval ∈ I.steps b → I.Unitary eval := by
      intro eval hmem
      rw [steps_eq_effects, Effects.steps, List.mem_map] at hmem
      obtain ⟨s, hs, heval⟩ := hmem
      cases s with
      | expr value hasSemicolon =>
        simp only [Effects.step, Step.value.injEq, Bool.not_eq_true'] at heval
        obtain ⟨rfl, rfl⟩ := heval
        exact (h _ hs).unitary value rfl
      | binding => simp [Effects.step] at heval
      | invocation => simp [Effects.step] at heval
      | item => simp [Effects.step] at heval
    rw [eval]
    exact Scoping.result_unitary hvalues

omit [LawfulMonad m] in
theorem quiet_perform {e : Expr} (h : I.OrderlyExpr e) : I.Quiet (perform e) :=
  ⟨by simpa only [perform, OrderlyStmt] using h, by simp [perform]⟩

omit [LawfulMonad m] in
theorem quiet_binding {isMutable : Bool} {name : String} {type : Option Ty} {e : Expr}
    (h : I.OrderlyExpr e) : I.Quiet (.binding isMutable name type e) :=
  ⟨by simpa only [OrderlyStmt] using h, by simp⟩

theorem quiet_when {condition : Expr} {body : Block} (hcondition : I.OrderlyExpr condition)
    (hbody : I.OrderlyBlock body) : I.Quiet (when condition body) := by
  refine ⟨?_, ?_⟩
  · simp only [when, OrderlyStmt, OrderlyExpr]
    exact ⟨hcondition, hbody⟩
  · rintro e ⟨⟩ env
    simp only [eval, Functor.map_map]

theorem quiet_forElements {body : Block} (h : I.OrderlyBlock body) :
    I.Quiet (forElements body) := by
  refine ⟨?_, ?_⟩
  · simp [forElements, OrderlyStmt, OrderlyExpr, Expr.nat, Expr.var, h]
  · rintro e ⟨⟩ env
    simp only [eval, Functor.map_map]

section Parts

omit [LawfulMonad m]

@[simp] theorem orderly_var (name : String) : I.OrderlyExpr (.var name) := by
  simp only [Expr.var, OrderlyExpr]

@[simp] theorem orderly_nat (value : Nat) : I.OrderlyExpr (.nat value) := by
  simp only [Expr.nat, OrderlyExpr]

@[simp] theorem orderly_text (value : String) : I.OrderlyExpr (.text value) := by
  simp only [Expr.text, OrderlyExpr]

@[simp] theorem orderly_place (s : Subject) (isElement : Bool) :
    I.OrderlyExpr (s.place isElement) := by
  cases isElement <;> simp [Subject.place, place, receiver, OrderlyExpr]

@[simp] theorem orderly_lower (w : Width) : I.OrderlyExpr (lower w) := by
  induction w with
  | literal value => simp [lower]
  | field id => simp [lower, receiver, OrderlyExpr]
  | binary op lhs rhs ihl ihr =>
    have hoperand : ∀ w, I.OrderlyExpr (lower w) → I.OrderlyExpr (lower.operand w (lower w)) := by
      intro w hw
      cases w <;> simpa [lower.operand, OrderlyExpr] using hw
    rw [lower, OrderlyExpr]
    exact ⟨hoperand lhs ihl, hoperand rhs ihr⟩

@[simp] theorem orderly_defaultValue (type : FieldType) : I.OrderlyExpr (defaultValue type) := by
  cases type <;> simp [defaultValue, OrderlyExpr, OrderlyAll]

@[simp] theorem orderly_inputRest : I.OrderlyExpr inputRest := by
  simp [inputRest, buffer, OrderlyExpr, OrderlyAll]

@[simp] theorem orderly_outputRoom : I.OrderlyExpr outputRoom := by
  simp [outputRoom, buffer, OrderlyExpr, OrderlyAll]

theorem quiet_fail {kind case : String} {fields : List (String × Expr)}
    (h : I.OrderlyFields fields) : I.Quiet (fail kind case fields) :=
  quiet_perform (by simpa [OrderlyExpr, OrderlyAll] using h)

end Parts

theorem quiet_require {s : Subject} {kind case : String} {available expected : Expr}
    (ha : I.OrderlyExpr available) (he : I.OrderlyExpr expected) :
    I.Quiet (s.require kind case available expected) := by
  apply quiet_when
  · rw [OrderlyExpr]
    exact ⟨ha, he⟩
  · apply orderlyBlock_of_quiet
    intro t ht
    obtain rfl := List.mem_singleton.mp ht
    exact quiet_fail (by simp [OrderlyFields, ha, he])

theorem quiet_requireInput {s : Subject} {expected : Expr} (h : I.OrderlyExpr expected) :
    I.Quiet (s.requireInput expected) :=
  quiet_require orderly_inputRest h

theorem quiet_requireElements (s : Subject) (width : Option Nat) :
    ∀ t ∈ s.requireElements width, I.Quiet t := by
  cases width with
  | none => simp [Subject.requireElements]
  | some n =>
    have hexpected : I.Quiet (declare "expected"
        (.method (.var "count") "saturating_mul" [.nat n])) :=
      quiet_binding (by simp [OrderlyExpr, OrderlyAll])
    simp [Subject.requireElements, hexpected, quiet_requireInput]

section Transfers

omit [LawfulMonad m]

theorem quiet_declareSize {name : String} (w : Width) : I.Quiet (declareSize name (lower w)) :=
  quiet_binding (orderly_lower w)

theorem quiet_fill {target : Expr} (h : I.OrderlyExpr target) : I.Quiet (Subject.fill target) :=
  quiet_perform (by simp [buffer, OrderlyExpr, OrderlyAll, h])

theorem quiet_putSlice {bytes : Expr} (h : I.OrderlyExpr bytes) :
    I.Quiet (Subject.putSlice bytes) :=
  quiet_perform (by simp [buffer, OrderlyExpr, OrderlyAll, h])

theorem quiet_nested (s : Subject) (isElement : Bool) (name : String) :
    I.Quiet (perform (.propagate (.method (s.place isElement) name [buffer]))) :=
  quiet_perform (by simp [buffer, OrderlyExpr, OrderlyAll])

end Transfers

/-- The statements that read a value are quiet. -/
theorem quiet_decode {s : Subject} {registry : Registry} {isElement : Bool} {type : FieldType}
    {b : Block} (h : s.decode registry isElement type = .ok b) : ∀ t ∈ b, I.Quiet t := by
  induction type generalizing isElement b with
  | scalar k =>
    obtain rfl := Except.ok.inj h
    have hget : I.Quiet (perform (.assign (s.place isElement)
        (.method buffer (scalarOperation "get" k s.info.endian) []))) :=
      quiet_perform (by simp [buffer, OrderlyExpr, OrderlyAll])
    simp [quiet_requireInput, hget]
  | bytes length =>
    obtain rfl := Except.ok.inj h
    simp [quiet_requireInput, quiet_fill]
  | byteRun =>
    obtain ⟨w, _, rfl⟩ := Subject.decode_byteRun.mp h
    have hassign : I.Quiet (perform (.assign (s.place isElement)
        (.vector (.nat 0) (.var "len")))) := quiet_perform (by simp [OrderlyExpr])
    simp [quiet_declareSize, quiet_requireInput, quiet_fill, hassign]
  | slice element ih =>
    obtain ⟨w, inner, _, hinner, rfl⟩ := Subject.decode_slice.mp h
    have hassign : I.Quiet (perform (.assign (s.place isElement)
        (.call (.path ["Vec", "with_capacity"]) [.method (.var "count") "min" [inputRest]]))) :=
      quiet_perform (by simp [OrderlyExpr, OrderlyAll])
    have hpush : I.Quiet (perform (.method (s.place isElement) "push" [defaultValue element])) :=
      quiet_perform (by simp [OrderlyExpr, OrderlyAll])
    have hloop : I.Quiet (forElements (perform (.method (s.place isElement) "push"
        [defaultValue element]) :: inner)) :=
      quiet_forElements (orderlyBlock_of_quiet (List.forall_mem_cons.mpr ⟨hpush, ih hinner⟩))
    intro t ht
    simp only [List.mem_append, List.mem_cons, List.not_mem_nil, or_false] at ht
    rcases ht with (rfl | ht) | rfl | rfl
    · exact quiet_declareSize w
    · exact quiet_requireElements s _ t ht
    · exact hassign
    · exact hloop
  | nested path =>
    obtain rfl := Except.ok.inj h
    simp [quiet_nested]
  | boxed target =>
    obtain rfl := Except.ok.inj h
    simp [quiet_nested]
  | constant value =>
    obtain ⟨n, _, rfl⟩ := Subject.decode_constant.mp h
    have hactual : I.Quiet (.binding true "actual" none
        (.repetition (.literal .zeroByte) (.nat n))) := quiet_binding (by simp [OrderlyExpr])
    intro t ht
    simp only [List.mem_cons, List.not_mem_nil, or_false] at ht
    rcases ht with rfl | rfl | rfl | rfl
    · exact quiet_requireInput (orderly_nat _)
    · exact hactual
    · exact quiet_fill (orderly_var _)
    · apply quiet_when
      · simp [OrderlyExpr]
      · apply orderlyBlock_of_quiet
        intro t ht
        obtain rfl := List.mem_singleton.mp ht
        exact quiet_fail (by simp [OrderlyFields, OrderlyExpr, OrderlyAll])

/-- The statements that write a value are quiet. -/
theorem quiet_encode {s : Subject} {isElement : Bool} {type : FieldType} {b : Block}
    (h : s.encode isElement type = .ok b) : ∀ t ∈ b, I.Quiet t := by
  have hroom : ∀ {expected : Expr}, I.OrderlyExpr expected → I.Quiet (s.requireRoom expected) :=
    fun he => quiet_require orderly_outputRoom he
  have hstored : ∀ {expected : Expr}, I.OrderlyExpr expected →
      I.Quiet (s.requireStored expected) :=
    fun he => quiet_require (by simp [OrderlyExpr, OrderlyAll]) he
  induction type generalizing isElement b with
  | scalar k =>
    obtain rfl := Except.ok.inj h
    have hput : I.Quiet (perform (.method buffer (scalarOperation "put" k s.info.endian)
        [s.place isElement])) := quiet_perform (by simp [buffer, OrderlyExpr, OrderlyAll])
    simp [hroom, hput]
  | bytes length =>
    obtain rfl := Except.ok.inj h
    simp [hroom, quiet_putSlice]
  | byteRun =>
    obtain ⟨w, _, rfl⟩ := Subject.encode_byteRun.mp h
    have hrun : I.Quiet (Subject.putSlice
        (.index (s.place isElement) (.range none (.var "len")))) :=
      quiet_putSlice (by simp [OrderlyExpr])
    simp [quiet_declareSize, hroom, hstored, hrun]
  | slice element ih =>
    obtain ⟨w, inner, _, hinner, rfl⟩ := Subject.encode_slice.mp h
    have hloop : I.Quiet (forElements inner) :=
      quiet_forElements (orderlyBlock_of_quiet (ih hinner))
    simp [quiet_declareSize, hstored, hloop]
  | nested path =>
    obtain rfl := Except.ok.inj h
    simp [quiet_nested]
  | boxed target =>
    obtain rfl := Except.ok.inj h
    simp [quiet_nested]
  | constant value =>
    obtain ⟨n, _, rfl⟩ := Subject.encode_constant.mp h
    have hpadded : I.Quiet (perform (.call (.var "write_padded")
        [buffer, .literal (.bytes value.toUTF8.toList), .nat n])) :=
      quiet_perform (by simp [buffer, OrderlyExpr, OrderlyAll])
    simp only [List.forall_mem_cons]
    exact ⟨hroom (orderly_nat _), hpadded, by simp⟩

/-- Every field is transferred in a quiet block of its own. -/
theorem quiet_transferFields {registry : Registry}
    {transfer : Subject → Except TransferError Block} {r : RecordDecl} {body : Block}
    (htransfer : ∀ s b, transfer s = .ok b → ∀ t ∈ b, I.Quiet t)
    (h : transferFields registry transfer r = .ok body) : ∀ t ∈ body, I.Quiet t := by
  intro t ht
  obtain ⟨f, _, info, own, _, hown, rfl⟩ := exists_of_forall₂ (transferFields_eq_ok h).flip ht
  exact quiet_block (htransfer _ own hown)

omit [LawfulMonad m] in
theorem orderly_procedure {r : RecordDecl} {name kind : String} {parameters : List Parameter}
    {body : Block} (h : ∀ t ∈ body, I.Quiet t) :
    I.OrderlyItem (procedure r name kind parameters body) := by
  have hbody : I.OrderlyBlock (body ++ [.expr (.call (.var "Ok") [.unit]) false]) :=
    orderlyBlock_append h (by simp [OrderlyExpr, OrderlyAll])
  simp [procedure, OrderlyItem, OrderlyFunctions, OrderlyBlock, OrderlyStmt, OrderlyExpr,
    OrderlyAll, hbody]

theorem orderly_decoder {registry : Registry} {r : RecordDecl} {i : Item}
    (h : decoder registry r = .ok i) : I.OrderlyItem i := by
  obtain ⟨blocks, hblocks, rfl⟩ := decoder_eq_ok h
  exact orderly_procedure (quiet_transferFields (fun _ _ => quiet_decode) hblocks)

theorem orderly_encoder {registry : Registry} {r : RecordDecl} {i : Item}
    (h : encoder registry r = .ok i) : I.OrderlyItem i := by
  obtain ⟨blocks, hblocks, rfl⟩ := encoder_eq_ok h
  exact orderly_procedure (quiet_transferFields (fun _ _ => quiet_encode) hblocks)

section Items

omit [LawfulMonad m]

theorem orderlyItems_iff {items : List Item} :
    I.OrderlyItems items ↔ ∀ i ∈ items, I.OrderlyItem i := by
  induction items with
  | nil => simp [OrderlyItems]
  | cons i items ih => simp [OrderlyItems, ih]

/-- A part of the file whose items are orderly, if there are any. -/
def OrderlyPart (I : Interpretation m Env V) (p : Part) : Prop :=
  ∀ items, p.items = .ok items → I.OrderlyItems items

theorem orderly_declaration (r : RecordDecl) (origin : Option String) :
    I.OrderlyItems (declaration r origin) := by
  have hfields : ∀ fields : List FieldDecl, I.OrderlyFields
      (fields.map fun f => (escape f.id, defaultValue f.type)) := by
    intro fields
    induction fields with
    | nil => simp [OrderlyFields]
    | cons f fields ih => simp [OrderlyFields, ih]
  simp [declaration, OrderlyItems, OrderlyItem, OrderlyFunctions, OrderlyBlock, OrderlyStmt,
    OrderlyExpr, hfields]

theorem orderly_wire (r : RecordDecl) : I.OrderlyItem (wire r) := by
  simp [wire, receiver, buffer, OrderlyItem, OrderlyFunctions, OrderlyBlock, OrderlyStmt,
    OrderlyExpr, OrderlyAll]

theorem orderly_writePadded : I.OrderlyItem writePadded := by
  simp [writePadded, declare, Subject.putSlice, perform, buffer, OrderlyItem, OrderlyBlock,
    OrderlyStmt, OrderlyExpr, OrderlyAll]

end Items

/-- All that is generated is orderly. -/
theorem orderly_generateItems (c : Compilation) : I.OrderlyPart (generateItems c) := by
  intro items hitems
  refine orderlyItems_iff.mpr fun i hi => ?_
  obtain himport | ⟨r, _, hemits⟩ | hhelper := (mem_generateItems hitems i).mp hi
  · simp only [imports, List.mem_cons, List.not_mem_nil, or_false] at himport
    rcases himport with rfl | rfl <;> simp [OrderlyItem]
  · cases hemits with
    | type _ hdeclared => exact orderlyItems_iff.mp (orderly_declaration r _) i hdeclared
    | decode _ hdecoder => exact orderly_decoder hdecoder
    | encode _ hencoder => exact orderly_encoder hencoder
    | wire _ _ => exact orderly_wire r
    | found _ => simp [placeholder, OrderlyItem]
  · rw [eq_of_mem_helpers hhelper]
    exact orderly_writePadded

omit [LawfulMonad m] in
theorem settled_of_orderly (b : Block) (h : I.OrderlyBlock b) : I.effects.Settled b := by
  -- The block inside of a statement is no tail of the list, but it is smaller.
  induction hsize : sizeOf b using Nat.strong_induction_on generalizing b with
  | _ n ih =>
    subst hsize
    cases b with
    | nil => simp only [Effects.Settled]
    | cons s ss =>
      simp only [OrderlyBlock] at h
      obtain ⟨hs, hunit, hss⟩ := h
      have hrest : I.effects.Settled ss :=
        ih _ (by simp only [List.cons.sizeOf_spec]; omega) ss hss rfl
      have hstmt : I.effects.SettledStmt s := by
        unfold Effects.SettledStmt
        split
        · rename_i body _
          simp only [OrderlyStmt, OrderlyExpr] at hs
          refine ih _ ?_ body hs rfl
          simp only [List.cons.sizeOf_spec, Stmt.expr.sizeOf_spec, Expr.block.sizeOf_spec]
          omega
        · trivial
      rw [Effects.Settled]
      exact ⟨hstmt, hunit, hrest⟩

theorem outlines_generate (c : Compilation) :
    (generate c true).2.map I.outlines = (generate c false).2.map I.outlines := by
  cases hitems : (generateItems c).items with
  | error e => simp only [generate, hitems]
  | ok items =>
    have hflat := outlines_flattenItems items (orderly_generateItems (I := I) c items hitems)
    cases hfault : faultOfItems? items with
    | some fault => simp only [generate, hitems, hfault]
    | none => simp [generate, hitems, hfault, Except.map, hflat]

end Interpretation

/-- Removing needless scopes changes no behaviour. A settled block keeps its effects, in their order
and each under its bindings, and the bindings and the value it ends with, whatever the effects are.
So closures, functions and files keep their meanings, and what is generated means the same with
needless scopes and without. -/
theorem flattening_preserves_behaviour {D : Type w} :
    (∀ E : Effects m Env V D, E.Lexical → ∀ b, E.Settled b → ∀ env,
      E.runBlock (flattenBlock b) env = E.runBlock b env) ∧
    ∀ I : Interpretation m Env V,
      (∀ e, I.OrderlyExpr e → I.eval e.flatten = I.eval e) ∧
      (∀ items, I.OrderlyItems items → I.outlines (flattenItems items) = I.outlines items) ∧
      ∀ c, (generate c true).1 = (generate c false).1 ∧
        (generate c true).2.map I.outlines = (generate c false).2.map I.outlines := by
  refine ⟨?_, ?_⟩
  · intro E hE b hb env
    rw [Effects.runBlock_flattenBlock hE hb]
  · intro I
    refine ⟨?_, ?_, ?_⟩
    · intro e he
      exact (Interpretation.eval_flatten e he).1
    · intro items hitems
      exact Interpretation.outlines_flattenItems items hitems
    · intro c
      exact ⟨rfl, Interpretation.outlines_generate c⟩

/-- Notes every name that is used, with the names visible there. -/
def tracing : Interpretation (StateM (List (String × List String))) (List String) String where
  unit := "()"
  reach _ env := pure env
  hoist declarations env :=
    pure (declarations.filterMap (fun
      | .constant _ name => some name
      | .function signature _ => some signature.name
      | _ => none) ++ env)
  form form parts env :=
    match form with
    | .path segments => do
      let name := "::".intercalate segments
      modify (· ++ [(name, env)])
      pure name
    | _ => parts.foldlM (fun _ part => part env) "()"
  control _ parts env := parts.forM fun part => do let _ ← part env
  bind _ name _ value env := do
    let _ ← value env
    pure (name :: env)

/-- The block `{ a; { b; } } { let x = c; x; } if d { e } {};`. -/
def scopes : Block :=
  [.expr (.block none false
      [perform (.var "a"), .expr (.block none false [perform (.var "b")]) false]) false,
    .expr (.block none false [declare "x" (.var "c"), perform (.var "x")]) false,
    when (.var "d") [.expr (.var "e") false],
    perform (.block none false [])]

/-- The same as `a; b; { let x = c; x; } if d { e }`. -/
def flatScopes : Block :=
  [perform (.var "a"), perform (.var "b"),
    .expr (.block none false [declare "x" (.var "c"), perform (.var "x")]) false,
    when (.var "d") [.expr (.var "e") false]]

theorem scopes_quiet : ∀ s ∈ scopes, tracing.Quiet s := by
  have hvar : ∀ name, tracing.Quiet (perform (.var name)) :=
    fun name => Interpretation.quiet_perform (Interpretation.orderly_var name)
  have hinner := Interpretation.quiet_block (b := [perform (.var "b")])
    (by simpa using hvar "b")
  have hfirst := Interpretation.quiet_block
    (b := [perform (.var "a"), .expr (.block none false [perform (.var "b")]) false])
    (by simpa using ⟨hvar "a", hinner⟩)
  have hbinding : tracing.Quiet (declare "x" (.var "c")) :=
    Interpretation.quiet_binding (Interpretation.orderly_var "c")
  have hsecond := Interpretation.quiet_block (b := [declare "x" (.var "c"), perform (.var "x")])
    (by simpa using ⟨hbinding, hvar "x"⟩)
  have hwhen : tracing.Quiet (when (.var "d") [.expr (.var "e") false]) :=
    Interpretation.quiet_when (Interpretation.orderly_var "d")
      (by simp [Interpretation.OrderlyBlock, Interpretation.OrderlyStmt])
  have hlast : tracing.Quiet (perform (.block none false [])) :=
    Interpretation.quiet_perform
      (by simp [Interpretation.OrderlyExpr, Interpretation.OrderlyBlock])
  simp only [scopes, List.forall_mem_cons]
  exact ⟨hfirst, hsecond, hwhen, hlast, by simp⟩

theorem flattening_preserves_behaviour_scopes :
    tracing.effects.Settled scopes ∧ flattenBlock scopes = flatScopes ∧
      (∀ env, tracing.effects.runBlock flatScopes env = tracing.effects.runBlock scopes env) ∧
      tracing.OrderlyItems [.function { name := "f" } scopes] ∧
      tracing.outlines (flattenItems [.function { name := "f" } scopes]) =
        tracing.outlines [.function { name := "f" } scopes] := by
  have horderly := Interpretation.orderlyBlock_of_quiet scopes_quiet
  have hsettled := Interpretation.settled_of_orderly scopes horderly
  have hitems : tracing.OrderlyItems [.function { name := "f" } scopes] := by
    simpa [Interpretation.OrderlyItems, Interpretation.OrderlyItem] using horderly
  have hflat : flattenBlock scopes = flatScopes := rfl
  have hrun := flattening_preserves_behaviour.1 tracing.effects Interpretation.effects_lexical
    scopes hsettled
  have houtlines := ((flattening_preserves_behaviour (D := Unit)).2 tracing).2.1 _ hitems
  exact ⟨hsettled, hflat, fun env => hflat ▸ hrun env, hitems, houtlines⟩

example : (tracing.effects.runBlock scopes ["buf"]).run [] =
    ((["buf"], "()"), [("a", ["buf"]), ("b", ["buf"]), ("c", ["buf"]), ("x", ["x", "buf"]),
      ("d", ["buf"]), ("e", ["buf"])]) := by
  rfl

end WireRecords.Program
