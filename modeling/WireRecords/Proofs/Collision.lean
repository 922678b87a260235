import Mathlib.Data.Set.Card
import WireRecords.Collision

/-!
# Sets of declarations

A set holds its declarations in the order of their symbols, each symbol once. Whatever is put into
it, it answers for a symbol with the declaration that came last.
-/
namespace WireRecords

/-! ### The order of symbols -/

theorem SymbolKind.rank_injective : Function.Injective rank := by
  intro a b h
  cases a <;> cases b <;> first | rfl | simp [rank] at h

namespace Symbol

theorem order_eq {a b : Symbol} (h : a.order b = .eq) : a = b := by
  obtain ⟨subject, kind⟩ := a
  obtain ⟨subject', kind'⟩ := b
  simp only [order, Ordering.then_eq_eq, Std.LawfulEqCmp.compare_eq_iff_eq] at h
  obtain ⟨rfl, hrank⟩ := h
  rw [SymbolKind.rank_injective hrank]

instance : Std.TransCmp order :=
  inferInstanceAs (Std.TransCmp (compareLex (compareOn subject) (compareOn fun s => s.kind.rank)))

theorem ne_of_order {a b : Symbol} (h : a.order b = .lt) : a ≠ b := by
  rintro rfl
  have hself : a.order a = .eq := Std.ReflCmp.compare_self
  simp [hself] at h

end Symbol

namespace CollisionSet

/-- The declarations stand in the order of their symbols, and no symbol stands twice. -/
def Ordered (s : CollisionSet) : Prop :=
  s.declarations.Pairwise fun d e => d.symbol.order e.symbol = .lt

instance (s : CollisionSet) : Decidable s.Ordered :=
  inferInstanceAs (Decidable (s.declarations.Pairwise fun d e => d.symbol.order e.symbol = .lt))

theorem ordered_empty : Ordered {} := List.Pairwise.nil

theorem provenance?_empty (subject : String) (kind : SymbolKind) :
    provenance? {} subject kind = none := rfl

theorem provenance?_cons (d : Declaration) (ds : List Declaration) (subject : String)
    (kind : SymbolKind) :
    provenance? ⟨d :: ds⟩ subject kind =
      if d.symbol = ⟨subject, kind⟩ then some d.provenance else provenance? ⟨ds⟩ subject kind := by
  by_cases hd : d.symbol = ⟨subject, kind⟩ <;> simp [provenance?, hd]

theorem contains_iff {s : CollisionSet} {subject : String} {kind : SymbolKind} :
    s.contains subject kind = true ↔ ∃ d ∈ s.declarations, d.symbol = ⟨subject, kind⟩ := by
  simp [contains, provenance?]

theorem contains_eq_false_iff {s : CollisionSet} {subject : String} {kind : SymbolKind} :
    s.contains subject kind = false ↔ s.provenance? subject kind = none := by
  simp [contains]

/-! ### One declaration more -/

theorem provenance?_place (d : Declaration) (ds : List Declaration) (subject : String)
    (kind : SymbolKind) :
    provenance? ⟨place d ds⟩ subject kind =
      if d.symbol = ⟨subject, kind⟩ then some d.provenance else provenance? ⟨ds⟩ subject kind := by
  induction ds with
  | nil => exact provenance?_cons d [] subject kind
  | cons e es ih =>
    simp only [place]
    split
    · exact provenance?_cons d _ subject kind
    · rename_i heq
      -- The declaration that gives way has the symbol of the new one.
      simp only [provenance?_cons, Symbol.order_eq heq]
      split <;> rfl
    · rename_i hgt
      have hne : e.symbol ≠ d.symbol := Symbol.ne_of_order (Std.OrientedCmp.gt_iff_lt.mp hgt)
      simp only [provenance?_cons, ih]
      by_cases hd : d.symbol = ⟨subject, kind⟩
      · simp [hd, hd ▸ hne]
      · simp [hd]

theorem provenance?_insert (s : CollisionSet) (d : Declaration) (subject : String)
    (kind : SymbolKind) :
    (s.insert d).1.provenance? subject kind =
      if d.symbol = ⟨subject, kind⟩ then some d.provenance else s.provenance? subject kind :=
  provenance?_place d s.declarations subject kind

theorem mem_place {d e : Declaration} {ds : List Declaration} (h : e ∈ place d ds) :
    e = d ∨ e ∈ ds := by
  induction ds with
  | nil => simpa [place] using h
  | cons f fs ih =>
    simp only [place] at h
    split at h
    · exact List.mem_cons.mp h
    · exact (List.mem_cons.mp h).imp_right (List.mem_cons_of_mem f)
    · rcases List.mem_cons.mp h with rfl | h
      · exact Or.inr List.mem_cons_self
      · exact (ih h).imp_right (List.mem_cons_of_mem f)

theorem Ordered.insert {s : CollisionSet} (h : s.Ordered) (d : Declaration) :
    (s.insert d).1.Ordered := by
  obtain ⟨ds⟩ := s
  simp only [Ordered, CollisionSet.insert] at h ⊢
  induction ds with
  | nil => simp [place]
  | cons e es ih =>
    obtain ⟨hfirst, hrest⟩ := List.pairwise_cons.mp h
    simp only [place]
    split
    · rename_i hlt
      refine List.pairwise_cons.mpr ⟨fun f hf => ?_, h⟩
      rcases List.mem_cons.mp hf with rfl | hf
      · exact hlt
      · exact Std.TransCmp.lt_trans hlt (hfirst f hf)
    · rename_i heq
      exact List.pairwise_cons.mpr ⟨fun f hf => Symbol.order_eq heq ▸ hfirst f hf, hrest⟩
    · rename_i hgt
      refine List.pairwise_cons.mpr ⟨fun f hf => ?_, ih hrest⟩
      rcases mem_place hf with rfl | hf
      · exact Std.OrientedCmp.gt_iff_lt.mp hgt
      · exact hfirst f hf

/-! ### Many declarations more -/

theorem insertAll_append (s : CollisionSet) (ds es : List Declaration) :
    (s.insertAll (ds ++ es)).1 = ((s.insertAll ds).1.insertAll es).1 := by
  induction ds generalizing s with
  | nil => rfl
  | cons d ds ih => exact ih (s.insert d).1

theorem Ordered.insertAll {s : CollisionSet} (h : s.Ordered) (ds : List Declaration) :
    (s.insertAll ds).1.Ordered := by
  induction ds generalizing s with
  | nil => exact h
  | cons d ds ih => exact ih (h.insert d)

theorem contains_insertAll {s : CollisionSet} {ds : List Declaration} {subject : String}
    {kind : SymbolKind} :
    (s.insertAll ds).1.contains subject kind = true ↔
      s.contains subject kind = true ∨ ∃ d ∈ ds, d.symbol = ⟨subject, kind⟩ := by
  induction ds generalizing s with
  | nil => simp [insertAll]
  | cons d ds ih =>
    have hstep : (s.insert d).1.contains subject kind = true ↔
        s.contains subject kind = true ∨ d.symbol = ⟨subject, kind⟩ := by
      simp only [contains, provenance?_insert]
      by_cases hd : d.symbol = ⟨subject, kind⟩ <;> simp [hd]
    refine (ih (s := (s.insert d).1)).trans ?_
    simp [hstep, or_assoc]

/-- Symbols declared in one place: they are found there, and all others where they were. -/
theorem provenance?_insertAll_map (s : CollisionSet) (symbols : List Symbol)
    (provenance subject : String) (kind : SymbolKind) :
    (s.insertAll (symbols.map (⟨·, provenance⟩))).1.provenance? subject kind =
      if ⟨subject, kind⟩ ∈ symbols then some provenance else s.provenance? subject kind := by
  induction symbols generalizing s with
  | nil => simp [insertAll]
  | cons symbol symbols ih =>
    refine (ih (s.insert ⟨symbol, provenance⟩).1).trans ?_
    rw [provenance?_insert]
    by_cases hm : (⟨subject, kind⟩ : Symbol) ∈ symbols
    · simp [hm]
    · simp [hm, eq_comm]

/-- What a set has is taken from it, and all else from the set it is merged into. -/
theorem Ordered.provenance?_merge {other : CollisionSet} (h : other.Ordered) (s : CollisionSet)
    (subject : String) (kind : SymbolKind) :
    (s.merge other).1.provenance? subject kind =
      (other.provenance? subject kind).or (s.provenance? subject kind) := by
  obtain ⟨ds⟩ := other
  simp only [merge, Ordered] at h ⊢
  induction ds generalizing s with
  | nil => rfl
  | cons d ds ih =>
    obtain ⟨hfirst, hrest⟩ := List.pairwise_cons.mp h
    refine (ih (s.insert d).1 hrest).trans ?_
    rw [provenance?_insert, provenance?_cons]
    by_cases hd : d.symbol = ⟨subject, kind⟩
    · -- No later declaration has the symbol again.
      have hnone : provenance? ⟨ds⟩ subject kind = none := by
        rw [← contains_eq_false_iff, ← Bool.not_eq_true, contains_iff]
        rintro ⟨e, he, hsymbol⟩
        exact Symbol.ne_of_order (hfirst e he) (hd.trans hsymbol.symm)
      simp [hd, hnone]
    · simp [hd]

/-- A set counts every symbol that it has once. -/
theorem Ordered.size_eq {s : CollisionSet} (h : s.Ordered) :
    s.size = {x : Symbol | s.contains x.subject x.kind = true}.ncard := by
  have hnodup : (s.declarations.map (·.symbol)).Nodup :=
    List.pairwise_map.mpr (h.imp Symbol.ne_of_order)
  have hset : {x : Symbol | s.contains x.subject x.kind = true} =
      ((s.declarations.map (·.symbol)).toFinset : Set Symbol) := by
    ext x
    simp [contains_iff]
  rw [hset, Set.ncard_coe_finset, List.toFinset_card_of_nodup hnodup, List.length_map, size]

/-! ### Declarations in regenerable places -/

/-- A set is detected from the declarations that are not in regenerable places. -/
theorem detect_eq (isRegenerable : String → Bool) (ds : List Declaration) :
    (detect isRegenerable ds).1 =
      (insertAll {} (ds.filter fun d => !isRegenerable d.provenance)).1 := by
  have hgo : ∀ s, (detect.go isRegenerable s ds).1 =
      (s.insertAll (ds.filter fun d => !isRegenerable d.provenance)).1 := by
    induction ds with
    | nil => exact fun _ => rfl
    | cons d ds ih =>
      intro s
      cases hd : isRegenerable d.provenance <;> simp [detect.go, hd, ih, insertAll]
  exact hgo {}

theorem ordered_detect (isRegenerable : String → Bool) (ds : List Declaration) :
    (detect isRegenerable ds).1.Ordered := by
  rw [detect_eq]
  exact ordered_empty.insertAll _

/-- The set of declarations that come from nowhere special has the symbols of all of them. -/
theorem contains_detect {ds : List Declaration} {subject : String} {kind : SymbolKind} :
    (detect (fun _ => false) ds).1.contains subject kind = true ↔
      ∃ d ∈ ds, d.symbol = ⟨subject, kind⟩ := by
  rw [detect_eq, contains_insertAll]
  simp [contains, provenance?_empty]

end CollisionSet

end WireRecords
