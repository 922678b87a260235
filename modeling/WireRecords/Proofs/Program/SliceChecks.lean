import WireRecords.Proofs.Program.Contents
import WireRecords.Proofs.Program.Generated

/-!
# Procedures without the check for slices

Before the elements of a slice are read, the number of bytes that they take is bound to a name and
compared with the input. Here both statements are taken out of the procedures of a file. What is left
of a procedure is again one that transfers its fields block by block, and it does not matter whether
the checks go before or after a file is made flat.
-/
namespace WireRecords.Program

/-- Binds the bytes that the elements of a slice take. No other binding of a procedure has this
name. -/
def Stmt.bindsExpected : Stmt → Bool
  | .binding _ name _ _ => name == "expected"
  | _ => false

/-- Takes out such bindings, each with the statement behind it that compares it with the input. -/
def dropSliceChecks : Block → Block
  | [] => []
  | [s] => [s]
  | s :: check :: ss =>
    if s.bindsExpected then dropSliceChecks ss else s :: dropSliceChecks (check :: ss)

/-- The statements of a field stand in a block of their own. -/
def Stmt.withoutSliceChecks : Stmt → Stmt
  | .expr (.block none false body) hasSemicolon =>
    .expr (.block none false (dropSliceChecks body)) hasSemicolon
  | s => s

/-- The body of a procedure is a call of the boundary. -/
def boundaryWithoutSliceChecks : Block → Block
  | [.expr (.call callee [record, .closure result body]) hasSemicolon] =>
    [.expr (.call callee [record, .closure result (body.map Stmt.withoutSliceChecks)]) hasSemicolon]
  | b => b

/-- An item whose procedures, if it has any, do not check slices. -/
def Item.withoutSliceChecks : Item → Item
  | .methods none target functions =>
    .methods none target (functions.map fun f => (f.1, boundaryWithoutSliceChecks f.2))
  | i => i

/-! ### Blocks -/

theorem dropSliceChecks_sublist (b : Block) : (dropSliceChecks b).Sublist b := by
  fun_induction dropSliceChecks b with
  | case1 => exact .slnil
  | case2 s => exact .refl _
  | case3 s check ss _ ih => exact (ih.cons check).cons s
  | case4 s check ss _ ih => exact ih.cons_cons s

theorem dropSliceChecks_eq_self {b : Block} (h : ∀ t ∈ b, t.bindsExpected = false) :
    dropSliceChecks b = b := by
  fun_induction dropSliceChecks b with
  | case1 => rfl
  | case2 s => rfl
  | case3 s check ss hs ih => simp [h s List.mem_cons_self] at hs
  | case4 s check ss _ ih => rw [ih fun t ht => h t (List.mem_cons_of_mem _ ht)]

/-- Of the statements for a slice the check is left out. -/
theorem dropSliceChecks_slice (s : Subject) (width : Option Nat) (count : Expr) (a loop : Stmt)
    (ha : a.bindsExpected = false) :
    dropSliceChecks ([declareSize "count" count] ++ s.requireElements width ++ [a, loop]) =
      [declareSize "count" count, a, loop] := by
  have hcount : (declareSize "count" count).bindsExpected = false := rfl
  cases width with
  | none => simp [Subject.requireElements, dropSliceChecks, hcount, ha]
  | some w =>
    have hexpected : (declare "expected"
        (.method (.var "count") "saturating_mul" [.nat w])).bindsExpected = true := rfl
    simp [Subject.requireElements, dropSliceChecks, hcount, hexpected, ha]

/-! ### Flat blocks -/

/-- A block that can become part of the block around it. -/
def Stmt.isPlainBlock : Stmt → Bool
  | .expr (.block none false _) _ => true
  | _ => false

theorem Stmt.isPlainBlock_expr (e : Expr) (a b : Bool) :
    (Stmt.expr e a).isPlainBlock = (Stmt.expr e b).isPlainBlock := by
  cases e with
  | block label hasAttribute body => cases label <;> cases hasAttribute <;> rfl
  | _ => rfl

theorem Stmt.isPlainBlock_flatten (t : Stmt) : t.flatten.isPlainBlock = t.isPlainBlock := by
  cases t with
  | expr e hasSemicolon =>
    cases e with
    | block label hasAttribute body => cases label <;> cases hasAttribute <;> rfl
    | range start stop => cases start <;> rfl
    | branch condition body otherwise => cases otherwise <;> rfl
    | _ => rfl
  | _ => rfl

theorem Stmt.bindsExpected_flatten (t : Stmt) : t.flatten.bindsExpected = t.bindsExpected := by
  cases t <;> rfl

theorem Stmt.withoutSliceChecks_eq_self {t : Stmt} (h : t.isPlainBlock = false) :
    t.withoutSliceChecks = t := by
  unfold Stmt.withoutSliceChecks
  split
  · simp [Stmt.isPlainBlock] at h
  · rfl

theorem isPlainBlock_of_mem_flattenStmts {b : Block} (h : ∀ t ∈ b, t.isPlainBlock = false) :
    ∀ t ∈ flattenStmts b, t.isPlainBlock = false := by
  induction b with
  | nil => simp [flattenStmts]
  | cons s ss ih =>
    rw [flattenStmts, List.forall_mem_cons, Stmt.isPlainBlock_flatten]
    exact ⟨h s List.mem_cons_self, ih fun t ht => h t (List.mem_cons_of_mem _ ht)⟩

theorem isPlainBlock_of_mem_dropValue {b : Block} (h : ∀ t ∈ b, t.isPlainBlock = false) :
    ∀ t ∈ dropValue b, t.isPlainBlock = false := by
  fun_induction dropValue b with
  | case1 => exact h
  | case2 e hasSemicolon =>
    intro t ht
    obtain rfl := List.mem_singleton.mp ht
    rw [Stmt.isPlainBlock_expr e true hasSemicolon]
    exact h _ (List.mem_singleton_self _)
  | case3 s ss _ ih =>
    rw [List.forall_mem_cons] at h ⊢
    exact ⟨h.1, ih h.2⟩

theorem flattenBlock_eq_self {b : Block} (h : ∀ t ∈ b, t.isPlainBlock = false) :
    flattenBlock b = b := by
  induction b with
  | nil => simp only [flattenBlock]
  | cons s ss ih =>
    rw [List.forall_mem_cons] at h
    have hs : ∀ isLast, flattenStmt isLast s = [s] := by
      intro isLast
      unfold flattenStmt
      split
      · simp [Stmt.isPlainBlock] at h
      · rfl
    rw [flattenBlock, hs, ih h.2, List.singleton_append]

theorem dropSliceChecks_flattenStmts (b : Block) :
    dropSliceChecks (flattenStmts b) = flattenStmts (dropSliceChecks b) := by
  fun_induction dropSliceChecks b with
  | case1 => simp only [flattenStmts, dropSliceChecks]
  | case2 s => simp only [flattenStmts, dropSliceChecks]
  | case3 s check ss hs ih =>
    simp only [flattenStmts, dropSliceChecks, Stmt.bindsExpected_flatten, if_pos hs, ih]
  | case4 s check ss hs ih =>
    rw [flattenStmts] at ih
    simp only [flattenStmts, dropSliceChecks, Stmt.bindsExpected_flatten, if_neg hs, ih]

/-- Statements among which no block can be spliced; and the checks in them, if there are any, are not
what keeps them in a block of their own. -/
structure Separable (body : Block) : Prop where
  inner : ∀ t ∈ body, t.isPlainBlock = false
  scope : isSpliceable (dropSliceChecks body) = isSpliceable body

theorem withoutSliceChecks_flattenStmt {body : Block} (h : Separable body) :
    (flattenStmt false (.expr (.block none false (flattenStmts body)) false)).map
        Stmt.withoutSliceChecks =
      flattenStmt false (.expr (.block none false (flattenStmts (dropSliceChecks body))) false) := by
  have hinner := isPlainBlock_of_mem_flattenStmts h.inner
  have hinner' := isPlainBlock_of_mem_flattenStmts fun t ht =>
    h.inner t ((dropSliceChecks_sublist body).subset ht)
  simp only [flattenStmt, flattenBlock_eq_self hinner, flattenBlock_eq_self hinner',
    isSpliceable_flattenStmts, h.scope]
  cases hsplice : isSpliceable body with
  | false => simp [Stmt.withoutSliceChecks, dropSliceChecks_flattenStmts]
  | true =>
    -- Expressions alone bind nothing, so there is no check among them.
    have hself : dropSliceChecks body = body := by
      refine dropSliceChecks_eq_self fun t ht => ?_
      have ht' := List.all_eq_true.mp hsplice t ht
      cases t <;> simp_all [Stmt.bindsExpected]
    have hkept : (dropValue (flattenStmts body)).map Stmt.withoutSliceChecks =
        dropValue (flattenStmts body) := by
      refine (List.map_congr_left fun t ht => ?_).trans (List.map_id _)
      exact Stmt.withoutSliceChecks_eq_self (isPlainBlock_of_mem_dropValue hinner t ht)
    simp [hself, hkept]

/-! ### Procedures -/

/-- Taking out checks and making blocks flat can change places. -/
theorem withoutSliceChecks_flattenBlock {blocks : Block} (last : Stmt)
    (hlast : last.isPlainBlock = false)
    (h : ∀ t ∈ blocks, ∃ body, t = .expr (.block none false body) false ∧ Separable body) :
    (flattenBlock (flattenStmts (blocks ++ [last]))).map Stmt.withoutSliceChecks =
      flattenBlock (flattenStmts (blocks.map Stmt.withoutSliceChecks ++ [last])) := by
  induction blocks with
  | nil =>
    have hflat : ∀ t ∈ flattenStmts [last], t.isPlainBlock = false :=
      isPlainBlock_of_mem_flattenStmts (by simpa using hlast)
    rw [List.nil_append, List.map_nil, List.nil_append, flattenBlock_eq_self hflat]
    refine (List.map_congr_left fun t ht => ?_).trans (List.map_id _)
    exact Stmt.withoutSliceChecks_eq_self (hflat t ht)
  | cons t blocks ih =>
    rw [List.forall_mem_cons] at h
    obtain ⟨⟨body, rfl, hbody⟩, hblocks⟩ := h
    have hrest : ∀ b : Block, (flattenStmts (b ++ [last])).isEmpty = false := by
      intro b
      cases b <;> simp [flattenStmts]
    have hmap : Stmt.withoutSliceChecks (.expr (.block none false body) false) =
        .expr (.block none false (dropSliceChecks body)) false := rfl
    simp only [List.cons_append, List.map_cons, hmap, flattenStmts, flattenBlock, Stmt.flatten,
      Expr.flatten, hrest, List.map_append, withoutSliceChecks_flattenStmt hbody, ih hblocks]

section Procedure

variable {r : RecordDecl} {name kind : String} {parameters : List Parameter} {blocks : Block}

theorem withoutSliceChecks_procedure :
    (procedure r name kind parameters blocks).withoutSliceChecks =
      procedure r name kind parameters (blocks.map Stmt.withoutSliceChecks) := by
  simp [procedure, Item.withoutSliceChecks, boundaryWithoutSliceChecks, Stmt.withoutSliceChecks]

theorem withoutSliceChecks_flatten_procedure
    (h : ∀ t ∈ blocks, ∃ body, t = .expr (.block none false body) false ∧ Separable body) :
    (procedure r name kind parameters blocks).flatten.withoutSliceChecks =
      (procedure r name kind parameters (blocks.map Stmt.withoutSliceChecks)).flatten := by
  have hblocks := withoutSliceChecks_flattenBlock (.expr (.call (.var "Ok") [.unit]) false) rfl h
  simp only [procedure, Item.flatten, flattenFunctions, flattenStmts, Stmt.flatten, Expr.flatten,
    flattenExprs, flattenBlock, flattenStmt, List.append_nil, Expr.text, Item.withoutSliceChecks,
    List.map_cons, List.map_nil, boundaryWithoutSliceChecks, hblocks]

end Procedure

/-! ### Statements that read -/

section Decode

variable {s : Subject} {registry : Registry} {isElement : Bool} {type : FieldType} {b : Block}

/-- Only slices are checked as a whole. -/
theorem bindsExpected_of_decode (htype : ∀ element, type ≠ .slice element)
    (h : s.decode registry isElement type = .ok b) :
    ∀ t ∈ b, t.bindsExpected = false ∧ t.isPlainBlock = false := by
  cases type with
  | slice element => exact absurd rfl (htype element)
  | scalar k =>
    obtain rfl := Except.ok.inj h
    exact List.forall_mem_cons.mpr ⟨⟨rfl, rfl⟩, List.forall_mem_singleton.mpr ⟨rfl, rfl⟩⟩
  | bytes length =>
    obtain rfl := Except.ok.inj h
    exact List.forall_mem_cons.mpr ⟨⟨rfl, rfl⟩, List.forall_mem_singleton.mpr ⟨rfl, rfl⟩⟩
  | byteRun =>
    obtain ⟨w, _, rfl⟩ := Subject.decode_byteRun.mp h
    simp [declareSize, Subject.requireInput, Subject.require, when, perform, Subject.fill,
      Stmt.bindsExpected, Stmt.isPlainBlock]
  | nested path =>
    obtain rfl := Except.ok.inj h
    exact List.forall_mem_singleton.mpr ⟨rfl, rfl⟩
  | boxed target =>
    obtain rfl := Except.ok.inj h
    exact List.forall_mem_singleton.mpr ⟨rfl, rfl⟩
  | constant value =>
    obtain ⟨n, _, rfl⟩ := Subject.decode_constant.mp h
    simp [Subject.requireInput, Subject.require, when, perform, Subject.fill,
      Stmt.bindsExpected, Stmt.isPlainBlock]

theorem separable_of_decode (h : s.decode registry isElement type = .ok b) : Separable b := by
  by_cases hslice : ∃ element, type = .slice element
  · obtain ⟨element, rfl⟩ := hslice
    obtain ⟨w, inner, _, _, rfl⟩ := Subject.decode_slice.mp h
    have hcheck : ∀ t ∈ s.requireElements (registry.elementWidth? element),
        t.isPlainBlock = false := by
      cases registry.elementWidth? element with
      | none => simp [Subject.requireElements]
      | some width => exact List.forall_mem_cons.mpr ⟨rfl, List.forall_mem_singleton.mpr rfl⟩
    constructor
    · intro t ht
      simp only [List.mem_append, List.mem_cons, List.not_mem_nil, or_false] at ht
      rcases ht with (rfl | ht) | rfl | rfl
      · rfl
      · exact hcheck t ht
      · rfl
      · rfl
    · rw [dropSliceChecks_slice _ _ _ _ _ rfl]
      rfl
  · have hdirect := bindsExpected_of_decode (fun element htype => hslice ⟨element, htype⟩) h
    refine ⟨fun t ht => (hdirect t ht).2, ?_⟩
    rw [dropSliceChecks_eq_self fun t ht => (hdirect t ht).1]

end Decode

end WireRecords.Program
