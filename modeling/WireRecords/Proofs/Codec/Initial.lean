import WireRecords.Proofs.Codec.Value

/-!
# Initial values

A record has an initial value when records contained as a whole end somewhere: `Grounded`. Then as
many levels suffice as there are records, since a stage at which nothing new is grounded is the last.
-/
namespace WireRecords

/-- Stages that only grow, and stop growing once they pause, are complete after as many steps as
there are elements. -/
theorem stage_card {α : Type} {stage : Nat → α → Prop} {s : Finset α}
    (hmono : ∀ {n a}, stage n a → stage (n + 1) a)
    (hpause : ∀ {n}, (∀ a ∈ s, stage (n + 1) a → stage n a) →
      ∀ a ∈ s, stage (n + 2) a → stage (n + 1) a)
    {n : Nat} {a : α} (ha : a ∈ s) (h : stage n a) : stage s.card a := by
  classical
  have hgrow : ∀ n, n ≤ (s.filter (stage n)).card ∨
      ∃ k < n, ∀ a ∈ s, stage (k + 1) a → stage k a := by
    intro n
    induction n with
    | zero => exact Or.inl (Nat.zero_le _)
    | succ n ih =>
      rcases ih with hn | ⟨k, hk, hstop⟩
      · by_cases hstop : ∀ a ∈ s, stage (n + 1) a → stage n a
        · exact Or.inr ⟨n, Nat.lt_succ_self n, hstop⟩
        · push Not at hstop
          obtain ⟨b, hb, hnew, hold⟩ := hstop
          have hsub : s.filter (stage n) ⊂ s.filter (stage (n + 1)) := by
            rw [Finset.ssubset_iff_of_subset]
            · exact ⟨b, by simp [hb, hnew], by simp [hold]⟩
            · intro c hc
              simp only [Finset.mem_filter] at hc ⊢
              exact ⟨hc.1, hmono hc.2⟩
          have := Finset.card_lt_card hsub
          exact Or.inl (by omega)
      · exact Or.inr ⟨k, by omega, hstop⟩
  obtain ⟨k, hk, hstop⟩ : ∃ k ≤ s.card, ∀ a ∈ s, stage (k + 1) a → stage k a := by
    rcases hgrow (s.card + 1) with hn | ⟨k, hk, hstop⟩
    · have := Finset.card_filter_le s (stage (s.card + 1))
      omega
    · exact ⟨k, by omega, hstop⟩
  have hlast : ∀ m, ∀ a ∈ s, stage (k + m + 1) a → stage (k + m) a := by
    intro m
    induction m with
    | zero => exact hstop
    | succ m ih => exact hpause ih
  have hdown : ∀ m, stage (k + m) a → stage k a := by
    intro m
    induction m with
    | zero => exact id
    | succ m ih => exact fun hm => ih (hlast m a ha hm)
  have hup : ∀ {i j}, i ≤ j → stage i a → stage j a := by
    intro i j hij hi
    induction hij with
    | refl => exact hi
    | step _ ih => exact hmono ih
  exact hup hk (hdown n (hup (Nat.le_add_left n k) h))

namespace Codec

/-- What is contained as a whole in a record, at most `depth` levels of it, ends in records that
contain nothing as a whole and in variable-length integers. -/
def Grounded (r : Registry) : Nat → String → Prop
  | 0, _ => False
  | depth + 1, path =>
    match r.find? path with
    | some e => ∀ f ∈ e.fields, ∀ p, f.decl.type.target? = some p → Grounded r depth p
    | none => path = Varint.path

theorem Grounded.record {r : Registry} {depth : Nat} {path : String} {e : RecordEntry}
    (hf : r.find? path = some e) : Grounded r (depth + 1) path ↔
      ∀ f ∈ e.fields, ∀ p, f.decl.type.target? = some p → Grounded r depth p := by
  simp [Grounded, hf]

theorem Grounded.varint {r : Registry} {depth : Nat} {path : String} (hf : r.find? path = none) :
    Grounded r (depth + 1) path ↔ path = Varint.path := by
  simp [Grounded, hf]

theorem Grounded.succ {r : Registry} {depth : Nat} {path : String}
    (h : Grounded r depth path) : Grounded r (depth + 1) path := by
  induction depth generalizing path with
  | zero => exact False.elim h
  | succ depth ih =>
    cases hf : r.find? path with
    | none => exact (Grounded.varint hf).mpr ((Grounded.varint hf).mp h)
    | some e =>
      rw [Grounded.record hf] at h ⊢
      exact fun f hmem p hp => ih (h f hmem p hp)

theorem Grounded.mono {r : Registry} {m n : Nat} {path : String} (hmn : m ≤ n)
    (h : Grounded r m path) : Grounded r n path := by
  induction hmn with
  | refl => exact h
  | step _ ih => exact ih.succ

/-- The names that a procedure can be found under. -/
def names (r : Registry) : Finset String :=
  insert Varint.path (r.entries.map (·.id)).toFinset

theorem names_card (r : Registry) : (names r).card ≤ r.entries.length + 1 := by
  refine (Finset.card_insert_le _ _).trans (Nat.succ_le_succ ?_)
  exact (List.toFinset_card_le _).trans (List.length_map _).le

theorem mem_names {r : Registry} {path : String} {e : RecordEntry} (h : r.find? path = some e) :
    path ∈ names r := by
  refine Finset.mem_insert_of_mem (List.mem_toFinset.mpr (List.mem_map.mpr ⟨e, ?_, ?_⟩))
  · exact Registry.mem_entries_of_find? h
  · exact Registry.id_of_find? h

theorem Grounded.mem_names {r : Registry} {depth : Nat} {path : String}
    (h : Grounded r depth path) : path ∈ names r := by
  cases depth with
  | zero => exact False.elim h
  | succ depth =>
    cases hf : r.find? path with
    | none =>
      rw [(Grounded.varint hf).mp h]
      exact Finset.mem_insert_self _ _
    | some e => exact Codec.mem_names hf

/-- No more levels are needed than there are records, and one for the integers. -/
theorem Grounded.bound {r : Registry} {depth : Nat} {path : String}
    (h : Grounded r depth path) : Grounded r (r.entries.length + 1) path := by
  refine Grounded.mono (names_card r) (stage_card Grounded.succ ?_ h.mem_names h)
  intro n hpause a _ ha
  cases hf : r.find? a with
  | none => exact (Grounded.varint hf).mpr ((Grounded.varint hf).mp ha)
  | some e =>
    rw [Grounded.record hf] at ha ⊢
    exact fun f hmem p hp => hpause p (ha f hmem p hp).mem_names (ha f hmem p hp)

/-- An initial value of a type has that type. -/
theorem initialOf_fits_plain {allowed : String → Prop} {r : Registry} {type : FieldType}
    {nested : String → Value} (hp : type.Plain allowed)
    (hnested : ∀ p, type.target? = some p → (nested p).fits r type = true) :
    (initialOf nested type).fits r type = true := by
  cases hp with
  | scalar s =>
    refine Value.fits_scalar.mpr ⟨0, rfl, ?_⟩
    cases s <;> decide
  | bytes length => exact Value.fits_bytes.mpr ⟨_, rfl, by simp⟩
  | nested ha => exact hnested _ rfl
  | boxed ha => exact hnested _ rfl

theorem initialOf_fits {r : Registry} {before : List RecordedField} {info : FieldMeta}
    {type : FieldType} {nested : String → Value} (hf : info.Determined before type)
    (hs : type.isStored = true)
    (hnested : ∀ p, type.target? = some p → (nested p).fits r type = true) :
    (initialOf nested type).fits r type = true := by
  cases hf with
  | plain hp => exact initialOf_fits_plain hp hnested
  | constant hw => simp [FieldType.isStored] at hs
  | byteRun hw refs => exact Value.fits_byteRun.mpr ⟨[], rfl⟩
  | slice hw hp refs => exact Value.fits_slice.mpr ⟨[], rfl, by simp⟩

section Determined

variable {allowed : String → Prop} {r : Registry} (hr : r.Determined)

include hr

/-- A value of a type shows that what the type contains as a whole ends. -/
theorem grounded_of_fits {n : Nat} {v : Value} {type : FieldType} {path : String}
    (ht : type.target? = some path) (hv : v.fits r type = true) (hn : v.depth < n) :
    Grounded r n path := by
  induction n generalizing v type path with
  | zero => omega
  | succ n ih =>
    cases hf : r.find? path with
    | none => exact (Grounded.varint hf).mpr ((Value.fits_varint ht hf).mp hv).1
    | some e =>
      have he := hr hf
      obtain ⟨fs, rfl, hfit⟩ := (Value.fits_record ht hf he.nodup).mp hv
      rw [Grounded.record hf]
      intro f hmem p hp
      have hstored : f.decl.type.isStored = true := by
        rcases FieldType.target?_eq_some hp with h | h <;> simp [h, FieldType.isStored]
      have hkey : f.decl.id ∈ fs.keys := by
        rw [hfit.keys]
        exact List.mem_map_of_mem (RecordEntry.mem_stored.mpr ⟨hmem, hstored⟩)
      have hdepth := Fields.get_depth_le hkey
      simp only [Value.depth] at hn
      exact ih hp (hfit.value f hmem hstored) (by omega)

theorem initialTo_fits {n : Nat} {type : FieldType} {path : String}
    (ht : type.target? = some path) (h : Grounded r n path) :
    (initialTo r n path).fits r type = true := by
  induction n generalizing type path with
  | zero => exact False.elim h
  | succ n ih =>
    cases hf : r.find? path with
    | none =>
      have hpath := (Grounded.varint hf).mp h
      simp only [initialTo, hf]
      exact (Value.fits_varint ht hf).mpr ⟨hpath, 0, rfl, by decide⟩
    | some e =>
      have he := hr hf
      simp only [initialTo, hf]
      refine (Value.fits_record ht hf he.nodup).mpr ⟨_, rfl, ?_, ?_⟩
      · simp [Fields.keys, RecordEntry.stored, Function.comp_def]
      · intro f hmem hs
        obtain ⟨before, after, hsplit⟩ := List.append_of_mem hmem
        have hget := Fields.get_map (fun g => initialOf (initialTo r n) g.decl.type)
          (RecordEntry.stored_nodup he.nodup) (RecordEntry.mem_stored.mpr ⟨hmem, hs⟩)
        rw [RecordEntry.stored] at hget
        rw [hget]
        refine initialOf_fits (he.field hsplit) hs fun p hp => ih hp ?_
        exact (Grounded.record hf).mp h f hmem p hp

/-- The initial value of a record is one of its values, if it has any. -/
theorem initial_fits {n : Nat} {path : String} (h : Grounded r n path) :
    (initial r path).fits r (.nested path) = true :=
  initialTo_fits hr rfl h.bound

/-- The initial value of a type with a value has that type. -/
theorem fresh_fits {v : Value} {type : FieldType} (hp : type.Plain allowed)
    (hv : v.fits r type = true) : (initialOf (initial r) type).fits r type = true :=
  initialOf_fits_plain hp fun _ ht =>
    initialTo_fits hr ht (grounded_of_fits hr ht hv (Nat.lt_succ_self _)).bound

end Determined

end Codec

end WireRecords
