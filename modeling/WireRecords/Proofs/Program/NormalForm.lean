import WireRecords.Proofs.Program.Flatten

/-!
# Flat blocks are a normal form

A flat block has no plain block left that only groups expressions, and flattening it again changes
nothing. Braces and the values of inner blocks are all that is lost: the statements are the same in
the same order, some with a semicolon added. The passes over a file are in normal form as well,
since flattening a body commutes with flattening what stands inside it.
-/
namespace WireRecords.Program

/-- `Inside inner b`: the statements `inner` stand in a plain block, which is a statement of `b` or
of another such block. -/
inductive Inside : Block → Block → Prop
  | here {inner b : Block} {hasSemicolon : Bool}
      (h : .expr (.block none false inner) hasSemicolon ∈ b) : Inside inner b
  | deeper {inner mid b : Block} {hasSemicolon : Bool} (h : Inside inner mid)
      (hmid : .expr (.block none false mid) hasSemicolon ∈ b) : Inside inner b

/-- Every plain block inside has a statement that is no expression. -/
def Flat (b : Block) : Prop :=
  ∀ inner, Inside inner b → ∃ s ∈ inner, ∀ e hasSemicolon, s ≠ .expr e hasSemicolon

variable {b ss : Block} {s : Stmt}

/-! ### What is flat -/

theorem isSpliceable_eq_false :
    isSpliceable b = false ↔ ∃ s ∈ b, ∀ e hasSemicolon, s ≠ .expr e hasSemicolon := by
  simp only [isSpliceable, List.all_eq_false]
  refine exists_congr fun s => and_congr_right fun _ => ?_
  cases s <;> simp

theorem inside_iff {inner : Block} :
    Inside inner b ↔ ∃ body hasSemicolon, .expr (.block none false body) hasSemicolon ∈ b ∧
      (inner = body ∨ Inside inner body) := by
  constructor
  · rintro (h | ⟨h, hmid⟩)
    · exact ⟨_, _, h, .inl rfl⟩
    · exact ⟨_, _, hmid, .inr h⟩
  · rintro ⟨body, hasSemicolon, h, rfl | hinner⟩
    · exact .here h
    · exact .deeper hinner h

/-- What is asked of a flat block, one level at a time. -/
theorem flat_iff : Flat b ↔ ∀ body hasSemicolon,
    .expr (.block none false body) hasSemicolon ∈ b → isSpliceable body = false ∧ Flat body := by
  constructor
  · intro h body hasSemicolon hmem
    refine ⟨isSpliceable_eq_false.mpr (h body (.here hmem)), fun inner hinner => ?_⟩
    exact h inner (.deeper hinner hmem)
  · intro h inner hinner
    obtain ⟨body, hasSemicolon, hmem, rfl | hinner⟩ := inside_iff.mp hinner
    · exact isSpliceable_eq_false.mp (h _ _ hmem).1
    · exact (h _ _ hmem).2 inner hinner

theorem flat_nil : Flat [] := flat_iff.mpr (by simp)

theorem flat_append : Flat (b ++ ss) ↔ Flat b ∧ Flat ss := by
  rw [flat_iff, flat_iff (b := b), flat_iff (b := ss)]
  simp only [List.mem_append, or_imp, forall_and]
  exact and_and_and_comm

theorem flat_cons : Flat (s :: ss) ↔ Flat [s] ∧ Flat ss := flat_append (b := [s])

theorem flat_block {body : Block} {hasSemicolon : Bool} :
    Flat [.expr (.block none false body) hasSemicolon] ↔ isSpliceable body = false ∧ Flat body := by
  rw [flat_iff]
  simp

theorem flat_other (h : ∀ body hasSemicolon, s ≠ .expr (.block none false body) hasSemicolon) :
    Flat [s] := by
  refine flat_iff.mpr fun body hasSemicolon hmem => ?_
  exact absurd (List.mem_singleton.mp hmem).symm (h body hasSemicolon)

/-- Whether a semicolon follows a statement does not matter. -/
theorem Flat.semicolon {e : Expr} {hasSemicolon : Bool} (h : Flat [.expr e hasSemicolon])
    (other : Bool) : Flat [.expr e other] := by
  by_cases he : ∃ body, e = .block none false body
  · obtain ⟨body, rfl⟩ := he
    exact flat_block.mpr (flat_block.mp h)
  · apply flat_other
    rintro body _ ⟨rfl, _⟩
    exact he ⟨body, rfl⟩

theorem Flat.dropValue (h : Flat b) : Flat (dropValue b) := by
  fun_induction Program.dropValue b with
  | case1 => exact h
  | case2 e hasSemicolon => exact h.semicolon true
  | case3 s ss hne ih =>
    obtain ⟨hs, hss⟩ := flat_cons.mp h
    exact flat_cons.mpr ⟨hs, ih hss⟩

/-! ### Flattening makes blocks flat -/

theorem flat_flattenStmt (isLast : Bool)
    (hinner : ∀ body hasSemicolon, s = .expr (.block none false body) hasSemicolon →
      Flat (flattenBlock body)) : Flat (flattenStmt isLast s) := by
  unfold flattenStmt
  split
  · rename_i body hasSemicolon
    have hflat := hinner body hasSemicolon rfl
    dsimp only
    split
    · split
      · exact hflat
      · exact hflat.dropValue
    · rename_i hkept
      exact flat_block.mpr ⟨by simpa using hkept, hflat⟩
  · rename_i hother
    exact flat_other fun body hasSemicolon => hother body hasSemicolon

theorem flat_flattenBlock : (b : Block) → Flat (flattenBlock b)
  | [] => by simpa only [flattenBlock] using flat_nil
  | s :: ss => by
    rw [flattenBlock]
    refine flat_append.mpr ⟨flat_flattenStmt _ ?_, flat_flattenBlock ss⟩
    rintro body hasSemicolon rfl
    exact flat_flattenBlock body
termination_by b => sizeOf b

/-- A flat block stays as it is. -/
theorem Flat.flattenBlock_eq : (b : Block) → Flat b → flattenBlock b = b
  | [], _ => by simp only [flattenBlock]
  | s :: ss, h => by
    obtain ⟨hs, hss⟩ := flat_cons.mp h
    rw [flattenBlock, Flat.flattenBlock_eq ss hss]
    suffices hstmt : flattenStmt ss.isEmpty s = [s] by rw [hstmt, List.singleton_append]
    unfold flattenStmt
    split
    · rename_i body hasSemicolon
      obtain ⟨hkept, hbody⟩ := flat_block.mp hs
      simp only [Flat.flattenBlock_eq body hbody, hkept, Bool.false_eq_true, if_false]
    · rfl
termination_by b => sizeOf b

theorem flattenBlock_flattenBlock (b : Block) : flattenBlock (flattenBlock b) = flattenBlock b :=
  Flat.flattenBlock_eq _ (flat_flattenBlock b)

/-! ### The statements without braces -/

mutual

/-- A statement without its braces, if it is a plain block. -/
def Stmt.unbraced : Stmt → List Stmt
  | .expr (.block none false body) _ => unbraced body
  | s => [s]

/-- The statements of a block in order, those of plain blocks inside it without their braces. -/
def unbraced : Block → List Stmt
  | [] => []
  | s :: ss => s.unbraced ++ unbraced ss

end

/-- The same statement, maybe with a semicolon added. -/
inductive Terminated : Stmt → Stmt → Prop
  | same (s : Stmt) : Terminated s s
  | added (e : Expr) : Terminated (.expr e false) (.expr e true)

theorem Terminated.trans {s t u : Stmt} (h : Terminated s t) (g : Terminated t u) :
    Terminated s u := by
  cases h with
  | same => exact g
  | added e =>
    cases g
    exact .added e

/-- The same statements, some with a semicolon added. -/
def TerminatedAll : List Stmt → List Stmt → Prop := List.Forall₂ Terminated

theorem TerminatedAll.refl (ss : List Stmt) : TerminatedAll ss ss :=
  List.forall₂_same.mpr fun s _ => .same s

theorem TerminatedAll.trans {as bs cs : List Stmt} (h : TerminatedAll as bs)
    (g : TerminatedAll bs cs) : TerminatedAll as cs := by
  induction h generalizing cs with
  | nil => exact g
  | cons hab _ ih =>
    cases g with
    | cons hbc hcs => exact .cons (hab.trans hbc) (ih hcs)

theorem TerminatedAll.append {as bs cs ds : List Stmt} (h : TerminatedAll as bs)
    (g : TerminatedAll cs ds) : TerminatedAll (as ++ cs) (bs ++ ds) :=
  List.rel_append h g

theorem unbraced_append (b ss : Block) : unbraced (b ++ ss) = unbraced b ++ unbraced ss := by
  induction b with
  | nil => simp [unbraced]
  | cons s b ih => simp [unbraced, ih]

theorem unbraced_semicolon (e : Expr) (hasSemicolon : Bool) :
    TerminatedAll (Stmt.expr e hasSemicolon).unbraced (Stmt.expr e true).unbraced := by
  by_cases he : ∃ body, e = .block none false body
  · obtain ⟨body, rfl⟩ := he
    simpa only [Stmt.unbraced] using TerminatedAll.refl (unbraced body)
  · have hother : ∀ other, (Stmt.expr e other).unbraced = [.expr e other] := by
      intro other
      unfold Stmt.unbraced
      split
      · rename_i heq
        simp only [Stmt.expr.injEq] at heq
        exact absurd ⟨_, heq.1⟩ he
      · rfl
    rw [hother, hother]
    cases hasSemicolon with
    | true => exact .refl _
    | false => exact .cons (.added e) .nil

theorem unbraced_dropValue (b : Block) : TerminatedAll (unbraced b) (unbraced (dropValue b)) := by
  fun_induction dropValue b with
  | case1 => exact .refl _
  | case2 e hasSemicolon =>
    simpa only [unbraced, List.append_nil] using unbraced_semicolon e hasSemicolon
  | case3 s ss hne ih =>
    rw [unbraced, unbraced]
    exact (TerminatedAll.refl _).append ih

/-- Flattening removes braces and adds semicolons, and does nothing else. -/
theorem unbraced_flattenBlock :
    (b : Block) → TerminatedAll (unbraced b) (unbraced (flattenBlock b))
  | [] => by simpa only [flattenBlock] using .refl _
  | s :: ss => by
    rw [flattenBlock, unbraced, unbraced_append]
    refine TerminatedAll.append ?_ (unbraced_flattenBlock ss)
    unfold flattenStmt
    split
    · rename_i body hasSemicolon
      have hbody := unbraced_flattenBlock body
      rw [Stmt.unbraced]
      dsimp only
      split
      · split
        · exact hbody
        · exact hbody.trans (unbraced_dropValue _)
      · simpa only [unbraced, Stmt.unbraced, List.append_nil] using hbody
    · simpa only [unbraced, List.append_nil] using TerminatedAll.refl s.unbraced
termination_by b => sizeOf b

/-! ### Files -/

theorem flattenStmts_append (b ss : Block) :
    flattenStmts (b ++ ss) = flattenStmts b ++ flattenStmts ss := by
  induction b with
  | nil => simp [flattenStmts]
  | cons s b ih => simp [flattenStmts, ih]

theorem isEmpty_flattenStmts (b : Block) : (flattenStmts b).isEmpty = b.isEmpty := by
  cases b <;> simp [flattenStmts]

theorem flattenStmts_dropValue (b : Block) :
    flattenStmts (dropValue b) = dropValue (flattenStmts b) := by
  fun_induction dropValue b with
  | case1 => simp [flattenStmts, dropValue]
  | case2 e hasSemicolon => simp [flattenStmts, Stmt.flatten, dropValue]
  | case3 s ss hne ih =>
    rw [flattenStmts, flattenStmts, ih, dropValue]
    intro e hasSemicolon hs hss
    cases s with
    | expr value other => exact hne value other rfl (Interpretation.flattenStmts_eq_nil.mp hss)
    | binding => simp [Stmt.flatten] at hs
    | invocation => simp [Stmt.flatten] at hs
    | item => simp [Stmt.flatten] at hs

/-- An expression stays a plain block, and none becomes one. -/
theorem Expr.flatten_eq_block {e : Expr} {body : Block} (h : e.flatten = .block none false body) :
    ∃ inner, e = .block none false inner := by
  cases e with
  | block label hasAttribute inner =>
    simp only [Expr.flatten, Expr.block.injEq] at h
    obtain ⟨rfl, rfl, _⟩ := h
    exact ⟨inner, rfl⟩
  | range start stop => cases start <;> simp [Expr.flatten] at h
  | branch condition inner otherwise => cases otherwise <;> simp [Expr.flatten] at h
  | _ => simp [Expr.flatten] at h

theorem flattenStmt_flatten (isLast : Bool)
    (hinner : ∀ body hasSemicolon, s = .expr (.block none false body) hasSemicolon →
      flattenBlock (flattenStmts body) = flattenStmts (flattenBlock body)) :
    flattenStmt isLast s.flatten = flattenStmts (flattenStmt isLast s) := by
  by_cases hs : ∃ body hasSemicolon, s = .expr (.block none false body) hasSemicolon
  · obtain ⟨body, hasSemicolon, rfl⟩ := hs
    have hbody := hinner body hasSemicolon rfl
    simp only [Stmt.flatten, Expr.flatten, flattenStmt, hbody, isSpliceable_flattenStmts]
    split
    · split
      · rfl
      · exact (flattenStmts_dropValue _).symm
    · simp [flattenStmts, Stmt.flatten, Expr.flatten]
  · have hkeep : ∀ t : Stmt,
        (∀ body hasSemicolon, t ≠ .expr (.block none false body) hasSemicolon) →
        flattenStmt isLast t = [t] := by
      intro t ht
      unfold flattenStmt
      split
      · exact absurd rfl (ht _ _)
      · rfl
    rw [hkeep s fun body hasSemicolon h => hs ⟨body, hasSemicolon, h⟩, hkeep]
    · simp [flattenStmts]
    · intro body hasSemicolon h
      cases s with
      | expr e other =>
        simp only [Stmt.flatten, Stmt.expr.injEq] at h
        obtain ⟨inner, rfl⟩ := Expr.flatten_eq_block h.1
        exact hs ⟨inner, other, rfl⟩
      | binding => simp [Stmt.flatten] at h
      | invocation => simp [Stmt.flatten] at h
      | item => simp [Stmt.flatten] at h

/-- A body may be flattened before or after the closures and functions inside it. -/
theorem flattenBlock_flattenStmts :
    (b : Block) → flattenBlock (flattenStmts b) = flattenStmts (flattenBlock b)
  | [] => by simp only [flattenStmts, flattenBlock]
  | s :: ss => by
    rw [flattenStmts, flattenBlock, flattenBlock, flattenStmts_append, isEmpty_flattenStmts,
      flattenBlock_flattenStmts ss, flattenStmt_flatten]
    rintro body hasSemicolon rfl
    exact flattenBlock_flattenStmts body
termination_by b => sizeOf b

/-- A body that is flattened twice, with all inside it. -/
theorem flattenBody_idem (h : flattenStmts (flattenStmts b) = flattenStmts b) :
    flattenBlock (flattenStmts (flattenBlock (flattenStmts b))) =
      flattenBlock (flattenStmts b) := by
  rw [← flattenBlock_flattenStmts (flattenStmts b), flattenBlock_flattenBlock, h]

mutual

theorem Expr.flatten_flatten : (e : Expr) → e.flatten.flatten = e.flatten
  | .path _ | .literal _ | .unit | .vector _ _ => by simp only [Expr.flatten]
  | .paren inner | .deref inner | .borrow _ inner | .propagate inner | .cast inner _
  | .field inner _ | .returned inner | .range none inner => by
    simp only [Expr.flatten, inner.flatten_flatten]
  | .binary _ lhs rhs | .assign lhs rhs | .index lhs rhs | .range (some lhs) rhs
  | .repetition lhs rhs => by
    simp only [Expr.flatten, lhs.flatten_flatten, rhs.flatten_flatten]
  | .call callee arguments | .method callee _ arguments => by
    simp only [Expr.flatten, callee.flatten_flatten, flattenExprs_flattenExprs arguments]
  | .construct _ fields => by simp only [Expr.flatten, flattenFields_flattenFields fields]
  | .closure _ body => by
    simp only [Expr.flatten, flattenBody_idem (flattenStmts_flattenStmts body)]
  | .block _ _ body | .endless body | .unchecked body => by
    simp only [Expr.flatten, flattenStmts_flattenStmts body]
  | .branch condition body none | .forEach _ condition body | .whileLoop condition body => by
    simp only [Expr.flatten, condition.flatten_flatten, flattenStmts_flattenStmts body]
  | .branch condition body (some otherwise) => by
    simp only [Expr.flatten, condition.flatten_flatten, flattenStmts_flattenStmts body,
      flattenStmts_flattenStmts otherwise]

theorem flattenExprs_flattenExprs :
    (es : List Expr) → flattenExprs (flattenExprs es) = flattenExprs es
  | [] => by simp only [flattenExprs]
  | e :: es => by simp only [flattenExprs, e.flatten_flatten, flattenExprs_flattenExprs es]

theorem flattenFields_flattenFields :
    (fields : List (String × Expr)) → flattenFields (flattenFields fields) = flattenFields fields
  | [] => by simp only [flattenFields]
  | (_, value) :: fields => by
    simp only [flattenFields, value.flatten_flatten, flattenFields_flattenFields fields]

theorem Stmt.flatten_flatten : (s : Stmt) → s.flatten.flatten = s.flatten
  | .expr value _ | .binding _ _ _ value => by simp only [Stmt.flatten, value.flatten_flatten]
  | .invocation _ _ => by simp only [Stmt.flatten]
  | .item item => by simp only [Stmt.flatten, item.flatten_flatten]

theorem flattenStmts_flattenStmts :
    (b : Block) → flattenStmts (flattenStmts b) = flattenStmts b
  | [] => by simp only [flattenStmts]
  | s :: ss => by simp only [flattenStmts, s.flatten_flatten, flattenStmts_flattenStmts ss]

theorem Item.flatten_flatten : (i : Item) → i.flatten.flatten = i.flatten
  | .imports _ _ _ | .constant _ _ | .struct _ _ _ => by simp only [Item.flatten]
  | .function _ body => by
    simp only [Item.flatten, flattenBody_idem (flattenStmts_flattenStmts body)]
  | .methods _ _ functions => by
    simp only [Item.flatten, flattenFunctions_flattenFunctions functions]
  | .trait _ functions => by simp only [Item.flatten, flattenDefaults_flattenDefaults functions]
  | .module _ items => by simp only [Item.flatten, flattenItems_flattenItems items]

theorem flattenFunctions_flattenFunctions :
    (fs : List (Signature × Block)) → flattenFunctions (flattenFunctions fs) = flattenFunctions fs
  | [] => by simp only [flattenFunctions]
  | (_, body) :: fs => by
    simp only [flattenFunctions, flattenBody_idem (flattenStmts_flattenStmts body),
      flattenFunctions_flattenFunctions fs]

theorem flattenDefaults_flattenDefaults :
    (fs : List (Signature × Block)) → flattenDefaults (flattenDefaults fs) = flattenDefaults fs
  | [] => by simp only [flattenDefaults]
  | (_, body) :: fs => by
    simp only [flattenDefaults, flattenStmts_flattenStmts body, flattenDefaults_flattenDefaults fs]

theorem flattenItems_flattenItems :
    (is : List Item) → flattenItems (flattenItems is) = flattenItems is
  | [] => by simp only [flattenItems]
  | i :: is => by simp only [flattenItems, i.flatten_flatten, flattenItems_flattenItems is]

end

/-- Flattening a block leaves no plain block inside that consists of expressions alone, and nothing
to do for flattening it again; without braces, the statements are those of the block up to added
semicolons. What it does to a file is also done only once. -/
theorem flattening_reaches_normal_form (b : Block) (file : List Item) :
    Flat (flattenBlock b) ∧ flattenBlock (flattenBlock b) = flattenBlock b ∧
      TerminatedAll (unbraced b) (unbraced (flattenBlock b)) ∧
      flattenItems (flattenItems file) = flattenItems file :=
  ⟨flat_flattenBlock b, flattenBlock_flattenBlock b, unbraced_flattenBlock b,
    flattenItems_flattenItems file⟩

end WireRecords.Program
