import WireRecords.Proofs.Codec.Sound
import WireRecords.Proofs.Session

/-!
# Widths in a session

A sealed record can be sealed again, and then its width is added up anew. So its width is not fixed
for good: it follows what has become known of the records in its slices.
-/
namespace WireRecords.Registry

/-- A sealed record is changed by no call but one that seals it again. -/
theorem find?_perform_of_sealed {r : Registry} {record : String} {e : RecordEntry}
    (hname : record ≠ anonymous) (he : r.find? record = some e) (hs : e.isSealed = true)
    {call : Call} (hcall : call ≠ .sealRecord record) :
    (r.perform call).1.find? record = some e := by
  by_cases hne : record = call.record
  · have hrefused : ∀ span, r.openRecord record span = .error (.duplicateRecord record span e.span) :=
      fun span => by simp [openRecord, hname, he]
    have hkept : (r.perform call).1 = r := by
      cases call with
      | openRecord id span =>
        obtain rfl : record = id := hne
        simp [perform, hrefused]
      | put id field info =>
        obtain rfl : record = id := hne
        simp [perform, put, he, hs]
      | sealRecord id =>
        obtain rfl : record = id := hne
        exact absurd rfl hcall
      | analyze d =>
        obtain rfl : record = d.id := hne
        simp [perform, WireRecords.analyze, hrefused]
    rw [hkept, he]
  · rw [(steps_perform r call).find?_of_ne hne, he]

theorem find?_after_of_sealed {r : Registry} {record : String} {e : RecordEntry}
    (hname : record ≠ anonymous) (he : r.find? record = some e) (hs : e.isSealed = true)
    {calls : List Call} (hcalls : .sealRecord record ∉ calls) :
    (r.after calls).find? record = some e := by
  induction calls generalizing r with
  | nil => exact he
  | cons call calls ih =>
    rw [List.mem_cons, not_or] at hcalls
    exact ih (find?_perform_of_sealed hname he hs (Ne.symm hcalls.1)) hcalls.2

/-- Sealing a record adds up the widths that its fields have at that time. -/
theorem width?_perform_sealRecord {r : Registry} {record : String} {e : RecordEntry}
    (he : r.find? record = some e) :
    (r.perform (.sealRecord record)).1.width? record =
      match totalWidth 0 (e.fields.map r.fieldWidth?) with
      | .ok width => width
      | .error _ => r.width? record := by
  simp only [perform, sealRecord, he]
  cases totalWidth 0 (e.fields.map r.fieldWidth?) with
  | error fault => rfl
  | ok width =>
    change (r.insert { e with isSealed := true, width }).width? record = width
    rw [width?_insert, if_pos (id_of_find? he).symm]

/-- No record that has a name holds a slice of records without one. -/
def NamesElements (r : Registry) : Prop :=
  ∀ ⦃id e⦄, id ≠ anonymous → r.find? id = some e →
    ∀ f ∈ e.fields, f.decl.type ≠ .slice (.nested anonymous)

theorem NamesElements.of_extends {r r' : Registry} (hnamed : r'.NamesElements)
    (h : ∀ {id e}, id ≠ anonymous → r.find? id = some e →
      ∃ later, r'.find? id = some later ∧ e.Extends later) : r.NamesElements := by
  intro id e hname he f hf
  obtain ⟨later, hlater, hextends⟩ := h hname he
  exact hnamed hname hlater f (hextends.fields.subset hf)

/-- The known width of a record that has a name is what its fields add up to now. -/
def AddsUp (r : Registry) : Prop :=
  ∀ ⦃id e w⦄, id ≠ anonymous → r.find? id = some e → e.width = some w →
    e.isSealed = true ∧ totalWidth 0 (e.fields.map r.fieldWidth?) = .ok (some w)

theorem fieldWidth?_of_named {r r' : Registry} (hkeep : Keeps r r') {f : RecordedField} {n : Nat}
    (hf : f.decl.type ≠ .slice (.nested anonymous)) (h : r.fieldWidth? f = some n) :
    r'.fieldWidth? f = some n := by
  have helement : ∀ {element width}, f.decl.type = .slice element →
      r.elementWidth? element = some width → r'.elementWidth? element = some width := by
    intro element width htype hwidth
    cases element with
    | nested path =>
      refine hkeep ?_ hwidth
      rintro rfl
      exact hf htype
    | _ => exact hwidth
  unfold fieldWidth? at h ⊢
  split
  · rename_i w hkind hwidth
    simp only [hkind, hwidth] at h
    split
    · rename_i count element hfold htype
      simp only [hfold, htype] at h
      obtain ⟨width, helem, hmul⟩ := Option.bind_eq_some_iff.mp h
      exact Option.bind_eq_some_iff.mpr ⟨width, helement htype helem, hmul⟩
    · rename_i hother
      split at h
      · exact absurd ‹_› (hother _ _ ‹_›)
      · exact h
  · rename_i hother
    split at h
    · exact absurd ‹_› (hother _ ‹_›)
    · simp at h

/-- A known total is still the same where known widths are kept. -/
theorem totalWidth_of_keeps {r r' : Registry} (hkeep : Keeps r r') {fields : List RecordedField}
    (hfields : ∀ f ∈ fields, f.decl.type ≠ .slice (.nested anonymous)) {w : Nat}
    (h : totalWidth 0 (fields.map r.fieldWidth?) = .ok (some w)) :
    totalWidth 0 (fields.map r'.fieldWidth?) = .ok (some w) := by
  obtain ⟨ns, hns, _⟩ := totalWidth_eq_some h
  have hsame : fields.map r'.fieldWidth? = fields.map r.fieldWidth? := by
    refine List.map_congr_left fun f hf => ?_
    have hmem : r.fieldWidth? f ∈ ns.map some := hns ▸ List.mem_map_of_mem hf
    obtain ⟨n, _, hn⟩ := List.mem_map.mp hmem
    rw [← hn, fieldWidth?_of_named hkeep (hfields f hf) hn.symm]
  rw [hsame, h]

section Step

variable {id : String} {r r' : Registry} (h : Step id r r') (hr : r.AddsUp)

include h hr

theorem Step.keeps : Keeps r r' := by
  intro name w hname hw
  obtain ⟨e, he, hwidth⟩ := Option.bind_eq_some_iff.mp hw
  obtain ⟨hs, htotal⟩ := hr hname he hwidth
  by_cases hne : name = id
  · subst hne
    cases h with
    | opened fresh =>
      rcases fresh with ha | hnone
      · exact absurd ha hname
      · simp [hnone] at he
    | @extended e' f found isOpen fresh =>
      obtain rfl : e = e' := Option.some.inj (he.symm.trans found)
      simp [isOpen] at hs
    | @completed e' width found total =>
      obtain rfl : e = e' := Option.some.inj (he.symm.trans found)
      -- Sealed again, the record gets the total that its width was already.
      obtain rfl : width = some w := Except.ok.inj (total.symm.trans htotal)
      rw [width?_insert, if_pos (id_of_find? found).symm]
  · rw [width?, h.find?_of_ne hne]
    exact hw

theorem Step.addsUp (hnamed : r'.NamesElements) : r'.AddsUp := by
  intro name e' w hname he' hwidth
  have hkeep := h.keeps hr
  have hfields := hnamed hname he'
  by_cases hne : name = id
  · subst hne
    cases h with
    | opened fresh =>
      rw [find?_insert, if_pos rfl, Option.some.injEq] at he'
      simp [← he'] at hwidth
    | @extended e f found isOpen fresh =>
      rw [find?_insert, if_pos (id_of_find? found).symm, Option.some.injEq] at he'
      subst he'
      have hs := (hr hname found hwidth).1
      simp [isOpen] at hs
    | @completed e width found total =>
      rw [find?_insert, if_pos (id_of_find? found).symm, Option.some.injEq] at he'
      subst he'
      obtain rfl : width = some w := hwidth
      exact ⟨rfl, totalWidth_of_keeps hkeep hfields total⟩
  · rw [h.find?_of_ne hne] at he'
    obtain ⟨hs, htotal⟩ := hr hname he' hwidth
    exact ⟨hs, totalWidth_of_keeps hkeep hfields htotal⟩

end Step

/-- Known widths last in a session that never records a slice of records without a name. -/
theorem keeps_after {r : Registry} (hr : r.AddsUp) (calls : List Call)
    (hnamed : (r.after calls).NamesElements) : Keeps r (r.after calls) ∧ (r.after calls).AddsUp := by
  refine after_induction
    (motive := fun r' => r'.NamesElements → Keeps r r' ∧ r'.AddsUp)
    (fun _ => ⟨fun _ _ _ hw => hw, hr⟩) (fun {id m m'} hkept hstep hnamed => ?_) calls hnamed
  obtain ⟨hkeep, hadds⟩ := hkept (hnamed.of_extends hstep.extends)
  have hlast := hstep.keeps hadds
  exact ⟨fun _ _ hname hw => hlast hname (hkeep hname hw), hstep.addsUp hadds hnamed⟩

theorem Reached.addsUp {r : Registry} (h : Reached r) (hnamed : r.NamesElements) : r.AddsUp := by
  obtain ⟨calls, rfl⟩ := h
  exact (keeps_after (fun _ _ _ _ hfind => by simp [find?] at hfind) calls hnamed).2

/-- The width of a sealed record that has a name is the same after any calls among which none seals
it again. To seal it again is to add up the widths of its fields anew, from what is known of other
records by then. This can make a width known that was not; a width that is known lasts through every
call, unless a record that has a name holds a slice of records without one. -/
theorem sealed_width_after {r : Registry} (h : Reached r) {record : String}
    (hname : record ≠ anonymous) {e : RecordEntry} (he : r.find? record = some e)
    (hs : e.isSealed = true) (calls : List Call) :
    (.sealRecord record ∉ calls → (r.after calls).width? record = r.width? record) ∧
    (r.after (calls ++ [.sealRecord record])).width? record =
      (match totalWidth 0 (e.fields.map (r.after calls).fieldWidth?) with
      | .ok width => width
      | .error _ => (r.after calls).width? record) ∧
    ((r.after calls).NamesElements → ∀ w, r.width? record = some w →
      (r.after calls).width? record = some w) := by
  refine ⟨fun hcalls => ?_, ?_, fun hnamed w hw => ?_⟩
  · rw [width?, width?, find?_after_of_sealed hname he hs hcalls, he]
  · obtain ⟨later, hlater, hextends⟩ := after_extends hname he calls
    rw [← (hextends.complete hs).2, ← width?_perform_sealRecord hlater, after_append]
    rfl
  · have hadds := h.addsUp (hnamed.of_extends fun hname he => after_extends hname he calls)
    exact (keeps_after hadds calls hnamed).1 hname hw

/-- The pairs have no width before there are items. -/
theorem sealed_width_after_pairs :
    Reached (after {} [pairs]) ∧ "Pairs" ≠ anonymous ∧
    (∃ e, (after {} [pairs]).find? "Pairs" = some e ∧ e.isSealed = true) ∧
    ((after {} [pairs]).after [item]).width? "Pairs" = none ∧
    ((after {} [pairs]).after [item, .sealRecord "Pairs"]).width? "Pairs" = some 2 := by
  have h : Reached (after {} [pairs]) := ⟨[pairs], rfl⟩
  obtain ⟨e, he, hs, htotal⟩ : ∃ e, (after {} [pairs]).find? "Pairs" = some e ∧ e.isSealed = true ∧
      totalWidth 0 (e.fields.map ((after {} [pairs]).after [item]).fieldWidth?) = .ok (some 2) :=
    ⟨⟨"Pairs", default, [⟨⟨default, "items", .slice (.nested "Item")⟩,
      ⟨some (.literal 2), .little, .literal⟩⟩], true, none⟩, by decide +kernel⟩
  obtain ⟨hkept, hagain, _⟩ := sealed_width_after h (by decide) he hs [item]
  refine ⟨h, by decide, ⟨e, he, hs⟩, ?_, ?_⟩
  · have hnone : (after {} [pairs]).width? "Pairs" = none := by decide +kernel
    exact (hkept (by decide)).trans hnone
  · rw [htotal] at hagain
    exact hagain

/-- To seal the pairs again when there are items gives them a width. -/
theorem sealed_width_changes :
    ∃ (calls later : List Call) (record : String), record ≠ anonymous ∧
      ((after {} calls).find? record).map (·.isSealed) = some true ∧
      (after {} (calls ++ later)).width? record ≠ (after {} calls).width? record :=
  ⟨[pairs], [item, .sealRecord "Pairs"], "Pairs", by decide +kernel⟩

end WireRecords.Registry
