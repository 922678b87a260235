import Mathlib

/-!
# Steps that can fail

What comes of two steps in a row, and of one step for every member of a list. Mapping a list
succeeds exactly if its members go to the results one by one.
-/
namespace WireRecords

section Lists

variable {α β : Type} {R : α → β → Prop} {as : List α} {bs : List β}

theorem exists_of_forall₂ (h : List.Forall₂ R as bs) {a : α} (ha : a ∈ as) : ∃ b ∈ bs, R a b := by
  induction h with
  | nil => simp at ha
  | cons hab hrest ih =>
    rcases List.mem_cons.mp ha with rfl | ha
    · exact ⟨_, List.mem_cons_self, hab⟩
    · obtain ⟨b, hb, hR⟩ := ih ha
      exact ⟨b, List.mem_cons_of_mem _ hb, hR⟩

theorem forall_iff_of_forall₂ {P : α → Prop} {Q : β → Prop} (h : List.Forall₂ R as bs)
    (hiff : ∀ {a b}, b ∈ bs → R a b → (P a ↔ Q b)) : (∀ a ∈ as, P a) ↔ ∀ b ∈ bs, Q b := by
  constructor
  · intro has b hb
    obtain ⟨a, ha, hab⟩ := exists_of_forall₂ h.flip hb
    exact (hiff hb hab).mp (has a ha)
  · intro hbs a ha
    obtain ⟨b, hb, hab⟩ := exists_of_forall₂ h ha
    exact (hiff hb hab).mpr (hbs b hb)

end Lists

variable {α β ε : Type}

theorem ok_of_toOption {x : Except ε α} {a : α} (h : x.toOption = some a) : x = .ok a := by
  cases x with
  | error e => simp [Except.toOption] at h
  | ok b => simpa [Except.toOption] using h

/-! ### Two steps -/

section Bind

variable {x : Except ε α} {next : α → Except ε β}

/-- What fails in two steps fails in one of them. -/
theorem bind_eq_error {e : ε} (h : x >>= next = .error e) :
    x = .error e ∨ ∃ a, x = .ok a ∧ next a = .error e := by
  cases x with
  | error e' => exact Or.inl (by simpa [bind, Except.bind] using h)
  | ok a => exact Or.inr ⟨a, rfl, h⟩

theorem bind_eq_ok {b : β} (h : x >>= next = .ok b) : ∃ a, x = .ok a ∧ next a = .ok b := by
  cases x with
  | error e => simp [bind, Except.bind] at h
  | ok a => exact ⟨a, rfl, h⟩

theorem exists_bind_eq_ok :
    (∃ b, x >>= next = .ok b) ↔ ∃ a, x = .ok a ∧ ∃ b, next a = .ok b := by
  constructor
  · rintro ⟨b, h⟩
    obtain ⟨a, ha, hb⟩ := bind_eq_ok h
    exact ⟨a, ha, b, hb⟩
  · rintro ⟨a, rfl, b, hb⟩
    exact ⟨b, hb⟩

end Bind

/-! ### A step for what may be absent -/

section Option

variable {f : α → Except ε β} {o : Option α}

theorem option_mapM_eq_ok {ob : Option β} : o.mapM f = .ok ob ↔
    (o = none ∧ ob = none) ∨ ∃ a b, o = some a ∧ f a = .ok b ∧ ob = some b := by
  cases o with
  | none =>
    simp only [Option.mapM_none, pure, Except.pure, Except.ok.injEq, true_and, reduceCtorEq,
      false_and, exists_false, or_false]
    exact eq_comm
  | some a =>
    simp only [Option.mapM_some, Functor.map, Except.map]
    cases ha : f a with
    | error e => simp [ha]
    | ok b =>
      simp only [Except.ok.injEq, reduceCtorEq, false_and, Option.some.injEq, false_or]
      constructor
      · rintro rfl
        exact ⟨a, b, rfl, ha, rfl⟩
      · rintro ⟨_, b', rfl, hb, rfl⟩
        rw [ha] at hb
        rw [Except.ok.inj hb]

theorem option_mapM_eq_error {e : ε} (h : o.mapM f = .error e) :
    ∃ a, o = some a ∧ f a = .error e := by
  cases o with
  | none => simp [pure, Except.pure] at h
  | some a =>
    simp only [Option.mapM_some, Functor.map, Except.map] at h
    cases ha : f a with
    | ok b => simp [ha] at h
    | error e' => exact ⟨a, rfl, by simpa [ha] using h⟩

end Option

/-! ### A step for every member -/

section MapM

variable {f : α → Except ε β} {as : List α} {bs : List β}

theorem mapM_cons_eq_ok {a : α} : (a :: as).mapM f = .ok bs ↔
    ∃ b rest, f a = .ok b ∧ as.mapM f = .ok rest ∧ bs = b :: rest := by
  rw [List.mapM_cons]
  constructor
  · intro h
    obtain ⟨b, hb, h⟩ := bind_eq_ok h
    obtain ⟨rest, hrest, h⟩ := bind_eq_ok h
    exact ⟨b, rest, hb, hrest, (Except.ok.inj h).symm⟩
  · rintro ⟨b, rest, hb, hrest, rfl⟩
    rw [hb, hrest]
    rfl

theorem mapM_eq_ok : as.mapM f = .ok bs ↔ List.Forall₂ (fun a b => f a = .ok b) as bs := by
  induction as generalizing bs with
  | nil =>
    rw [List.forall₂_nil_left_iff, List.mapM_nil]
    simp [pure, Except.pure, eq_comm]
  | cons a as ih =>
    rw [mapM_cons_eq_ok, List.forall₂_cons_left_iff]
    simp only [ih, exists_and_left]

theorem mem_of_mapM (h : as.mapM f = .ok bs) {b : β} (hb : b ∈ bs) : ∃ a ∈ as, f a = .ok b :=
  exists_of_forall₂ (mapM_eq_ok.mp h).flip hb

theorem mem_of_mapM_eq_error {e : ε} (h : as.mapM f = .error e) : ∃ a ∈ as, f a = .error e := by
  induction as with
  | nil => simp [pure, Except.pure] at h
  | cons a as ih =>
    rw [List.mapM_cons] at h
    obtain ha | ⟨_, _, h⟩ := bind_eq_error h
    · exact ⟨a, by simp, ha⟩
    obtain has | ⟨_, _, h⟩ := bind_eq_error h
    · obtain ⟨a', ha', hf⟩ := ih has
      exact ⟨a', by simp [ha'], hf⟩
    · simp [pure, Except.pure] at h

/-- A list is mapped exactly if every member is. -/
theorem exists_mapM_eq_ok : (∃ bs, as.mapM f = .ok bs) ↔ ∀ a ∈ as, ∃ b, f a = .ok b := by
  constructor
  · rintro ⟨bs, h⟩ a ha
    obtain ⟨b, _, hb⟩ := exists_of_forall₂ (mapM_eq_ok.mp h) ha
    exact ⟨b, hb⟩
  · intro h
    induction as with
    | nil => exact ⟨[], rfl⟩
    | cons a as ih =>
      obtain ⟨b, hb⟩ := h a List.mem_cons_self
      obtain ⟨bs, hbs⟩ := ih fun a' ha' => h a' (List.mem_cons_of_mem a ha')
      exact ⟨b :: bs, mapM_cons_eq_ok.mpr ⟨b, bs, hb, hbs, rfl⟩⟩

theorem pairwise_of_mapM {R : α → α → Prop} {S : β → β → Prop} (h : as.mapM f = .ok bs)
    (has : as.Pairwise R)
    (hRS : ∀ {a a' b b'}, f a = .ok b → f a' = .ok b' → R a a' → S b b') : bs.Pairwise S := by
  induction as generalizing bs with
  | nil =>
    obtain rfl : [] = bs := by simpa [pure, Except.pure] using h
    exact .nil
  | cons a as ih =>
    obtain ⟨b, rest, hb, hrest, rfl⟩ := mapM_cons_eq_ok.mp h
    obtain ⟨hfirst, hlater⟩ := List.pairwise_cons.mp has
    refine List.pairwise_cons.mpr ⟨fun b' hb' => ?_, ih hrest hlater⟩
    obtain ⟨a', ha', hf⟩ := mem_of_mapM hrest hb'
    exact hRS hb hf (hfirst a' ha')

end MapM

end WireRecords
