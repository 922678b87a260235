import WireRecords.Proofs.Codec.Endless
import WireRecords.Proofs.Codec.RoundTrip

/-!
# The receiver leaves no trace

Two runs of the same procedure are compared, on the same bytes and into two values of the record.
A width is computed only from fields that both runs have already overwritten, elements of slices
start from initial values, and what is read in place is read by the same argument one level below.
So the two runs end alike.
-/
namespace WireRecords.Codec

section Levels

variable {r : Registry} (hr : r.Determined)

include hr

/-- With the same levels on both sides, two receivers make no difference even to failures. -/
theorem readTo_simulates_self (n : Nat) (bytes : List UInt8) :
    Simulates r (fun _ => True) bytes (readTo r n) (readTo r n) := by
  induction n with
  | zero =>
    intro path a b bs q _ _ _ h
    simp [readTo] at h
  | succ n ih =>
    -- Elements start from the same value in both runs.
    have hfresh : SimulatesFresh r (fun _ => True) bytes (readTo r n) (readTo r n) :=
      fun _ _ q _ h _ => ⟨q, h, .refl q⟩
    exact readLevel_simulates hr trivial (readTo_consumes r n) ih hfresh

theorem readTo_rel {path : String} {v w : Value} (hv : v.fits r (.nested path) = true)
    (hw : w.fits r (.nested path) = true) (n : Nat) (bytes : List UInt8) :
    Option.Rel Agrees (readTo r n path v bytes) (readTo r n path w bytes) := by
  have hsim := readTo_simulates_self hr n bytes
  cases hfirst : readTo r n path v bytes with
  | some q =>
    obtain ⟨q', hsecond, hagree⟩ := hsim (List.suffix_refl _) hv hw hfirst trivial
    rw [hsecond]
    exact .some hagree
  | none =>
    cases hsecond : readTo r n path w bytes with
    | none => exact .none
    | some q =>
      obtain ⟨q', hend, _⟩ := hsim (List.suffix_refl _) hw hv hsecond trivial
      rw [hfirst] at hend
      cases hend

/-- A value of a record can be replaced by a fresh one. -/
theorem readInto_rel {path : String} {v : Value} (hv : v.fits r (.nested path) = true)
    (bytes : List UInt8) :
    Option.Rel Agrees (readInto r path (some v) bytes)
      ((decode r path bytes).map fun q => ⟨some q.value, q.rest, q.error⟩) := by
  have hinitial := initial_fits hr (grounded_of_fits hr rfl hv (Nat.lt_succ_self _))
  have hrel := readTo_rel hr hv hinitial (readDepth r bytes) bytes
  rw [readInto, decode, read, read]
  generalize readTo r (readDepth r bytes) path v bytes = a at hrel ⊢
  generalize readTo r (readDepth r bytes) path (initial r path) bytes = b at hrel ⊢
  cases hrel with
  | none => exact .none
  | some hagree => exact .some ⟨hagree.rest, hagree.error, fun h => congrArg some (hagree.value h)⟩

end Levels

/-- Reading a record of an accepted run into two of its values ends alike, with any number of
levels: with the same error or none, with the same bytes left, and without an error with equal
values. So a receiver can be replaced by a fresh value. Where no record leads to itself, both
readings do come to an end. -/
theorem reading_ignores_receiver {config : Config} {units : List CompilationUnit} {p : Progress}
    (h : compile config units = .ok p) (hread : Readable p.compilation.records) {path : String}
    {v w : Value} (hv : v.fits p.compilation.registry (.nested path) = true)
    (hw : w.fits p.compilation.registry (.nested path) = true) (bytes : List UInt8) :
    (∀ n, Option.Rel Agrees (readTo p.compilation.registry n path v bytes)
      (readTo p.compilation.registry n path w bytes)) ∧
    Option.Rel Agrees (read p.compilation.registry path v bytes)
      (read p.compilation.registry path w bytes) ∧
    Option.Rel Agrees (readInto p.compilation.registry path (some v) bytes)
      ((decode p.compilation.registry path bytes).map fun q => ⟨some q.value, q.rest, q.error⟩) ∧
    ((∀ id, ¬ Relation.TransGen (Leads p.compilation.registry) id id) →
      ∃ a b, read p.compilation.registry path v bytes = some a ∧
        read p.compilation.registry path w bytes = some b ∧ Agrees a b) := by
  have hr := compile_determined h
  have hlevels := fun n => readTo_rel hr hv hw n bytes
  refine ⟨hlevels, hlevels _, readInto_rel hr hv bytes, fun hacyclic => ?_⟩
  have hpath := (grounded_of_fits hr rfl hv (Nat.lt_succ_self _)).mem_names
  obtain ⟨a, ha⟩ := ends_of_acyclic (compile_closed h hread) hacyclic hpath v bytes
  obtain ⟨b, hb⟩ := ends_of_acyclic (compile_closed h hread) hacyclic hpath w bytes
  have hrel := hlevels (readDepth p.compilation.registry bytes)
  rw [ha _ le_rfl, hb _ le_rfl] at hrel
  cases hrel with
  | some hagree => exact ⟨a, b, ha _ le_rfl, hb _ le_rfl, hagree⟩

theorem packets_readable : ∃ p ∈ (compile {} packets).toOption,
    Readable p.compilation.records ∧
    loosePacket.fits p.compilation.registry (.nested "Packet") = true ∧
    exactPacket.fits p.compilation.registry (.nested "Packet") = true ∧
    ∀ e ∈ p.compilation.registry.entries, ∀ inner ∈ leads p.compilation.registry e.fields,
      (p.compilation.registry.find? inner).isNone := by
  decide +kernel

/-- Bytes of a packet that end within its second item, read into two packets with other items. -/
theorem reading_ignores_packet :
    ∃ p, compile {} packets = .ok p ∧
      ∃ a b, read p.compilation.registry "Packet" loosePacket (packetBytes.take 5) = some a ∧
        read p.compilation.registry "Packet" exactPacket (packetBytes.take 5) = some b ∧
        Agrees a b := by
  obtain ⟨p, hp, hread, hloose, hexact, hleads⟩ := packets_readable
  have hcompile := compile_of_toOption hp
  refine ⟨p, hcompile,
    (reading_ignores_receiver hcompile hread hloose hexact _).2.2.2 fun id hcycle => ?_⟩
  -- What leads anywhere leads to an integer, which leads nowhere.
  obtain ⟨_, ⟨e, he, _⟩, _⟩ := Relation.TransGen.head'_iff.mp hcycle
  obtain ⟨_, _, e', he', hlast⟩ := Relation.TransGen.tail'_iff.mp hcycle
  have hnone := hleads e' (Registry.mem_entries_of_find? he') id hlast
  simp [he] at hnone

end WireRecords.Codec
