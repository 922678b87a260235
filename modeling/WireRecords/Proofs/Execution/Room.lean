import WireRecords.Proofs.Codec.RoundTrip
import WireRecords.Proofs.Execution.Files

/-!
# Writing in limited room

Room is asked for piece by piece and never for a record as a whole. Each piece is written as a whole
or not at all, and what a piece consists of does not depend on the room. So where writing comes to the
bytes `b` in some room, it does so in any room that holds them, and in less room it stops before the
first piece that does not fit, with a beginning of `b` written.
-/
namespace WireRecords.Codec

/-- Writing of `b` stopped for want of room: the next piece takes `expected` bytes, and less is
left. -/
structure StopsShort (room : Nat) (b : List UInt8) (w : Writing) : Prop where
  written : w.bytes <+: b
  fits : w.bytes.length ≤ room
  error : ∃ record field actual expected,
    w.error = some (.shortWrite record field actual expected) ∧ actual = room - w.bytes.length ∧
      actual < expected ∧ w.bytes.length + expected ≤ b.length

/-- Writing comes to `b` where there is room for it, and stops short elsewhere. -/
def Fills (write : Nat → Option Writing) (b : List UInt8) : Prop :=
  ∀ room, (b.length ≤ room → write room = some ⟨b, none⟩) ∧
    (room < b.length → ∃ w, write room = some w ∧ StopsShort room b w)

/-- What is written is the same in any room in which it can be written. -/
def Steady (write : Nat → Option Writing) : Prop :=
  ∀ ⦃room b⦄, write room = some ⟨b, none⟩ → Fills write b

theorem Steady.congr {write write' : Nat → Option Writing} (h : Steady write')
    (heq : ∀ room, write room = write' room) : Steady write := by
  obtain rfl : write = write' := funext heq
  exact h

/-- Writing that never succeeds. -/
theorem steady_of_fails {write : Nat → Option Writing}
    (h : ∀ room b, write room ≠ some ⟨b, none⟩) : Steady write :=
  fun room b hb => absurd hb (h room b)

/-! ### Pieces -/

theorem fills_put (name : FieldName) (bytes : List UInt8) :
    Fills (fun room => some (put name bytes room)) bytes := by
  refine fun room => ⟨fun hroom => by simpa using put_ok.mpr ⟨rfl, hroom⟩, fun hroom => ?_⟩
  refine ⟨_, rfl, ?_⟩
  rw [put, if_pos hroom]
  exact ⟨List.nil_prefix, Nat.zero_le _, name.record, name.field, room, bytes.length, rfl, rfl, hroom,
    by simp⟩

theorem steady_put (name : FieldName) (bytes : List UInt8) :
    Steady (fun room => some (put name bytes room)) := by
  intro room b hb
  obtain ⟨rfl, _⟩ := put_ok.mp (Option.some.inj hb)
  exact fills_put name b

theorem fills_varint {r : Registry} (hfind : r.find? Varint.path = none) (n : Nat) (v : Value) :
    Fills (writeTo r (n + 1) Varint.path v) (Varint.encode v.word) := by
  intro room
  rw [Varint.length_encode]
  simp only [writeTo, hfind, if_true, Varint.write]
  refine ⟨fun hroom => by rw [if_neg (Nat.not_lt.mpr hroom)], fun hroom => ?_⟩
  rw [if_pos hroom]
  exact ⟨_, rfl, List.nil_prefix, Nat.zero_le _, "Varint", "value", room, _, rfl, rfl, hroom,
    by simp [Varint.length_encode]⟩

section Sequence

variable {first second : Nat → Option Writing}

/-- A piece, and another one in the room that is left. -/
theorem Fills.sequence {b₁ b₂ : List UInt8} (h₁ : Fills first b₁) (h₂ : Fills second b₂) :
    Fills (fun room =>
      match first room with
      | none => none
      | some w =>
        if w.error.isSome then some w else w.append (second (room - w.bytes.length)))
      (b₁ ++ b₂) := by
  intro room
  rw [List.length_append]
  refine ⟨fun hroom => ?_, fun hroom => ?_⟩
  · have hfirst := (h₁ room).1 (by omega)
    have hsecond := (h₂ (room - b₁.length)).1 (by omega)
    exact sequence_ok.mpr ⟨b₁, b₂, hfirst, hsecond, rfl⟩
  · by_cases hfits : b₁.length ≤ room
    · -- The first piece fits, so the second stops short.
      obtain ⟨w, hw, hshort⟩ := (h₂ (room - b₁.length)).2 (by omega)
      refine ⟨{ w with bytes := b₁ ++ w.bytes }, ?_, ?_⟩
      · simp [(h₁ room).1 hfits, Writing.append, hw]
      · obtain ⟨record, field, actual, expected, herror, hactual, hless, hexpected⟩ := hshort.error
        have hlen := hshort.fits
        refine ⟨(List.prefix_append_right_inj b₁).mpr hshort.written, ?_, record, field, actual,
          expected, herror, ?_, hless, ?_⟩
        · simp only [List.length_append]
          omega
        · simp only [List.length_append]
          omega
        · simp only [List.length_append]
          omega
    · obtain ⟨w, hw, hshort⟩ := (h₁ room).2 (by omega)
      obtain ⟨record, field, actual, expected, herror, hactual, hless, hexpected⟩ := hshort.error
      refine ⟨w, by simp [hw, herror], hshort.written.trans (List.prefix_append _ _), hshort.fits,
        record, field, actual, expected, herror, hactual, hless, ?_⟩
      simp only [List.length_append]
      omega

theorem Steady.sequence (h₁ : Steady first) (h₂ : Steady second) :
    Steady (fun room =>
      match first room with
      | none => none
      | some w =>
        if w.error.isSome then some w else w.append (second (room - w.bytes.length))) := by
  intro room b hb
  obtain ⟨b₁, b₂, hfirst, hsecond, rfl⟩ := sequence_ok.mp hb
  exact (h₁ hfirst).sequence (h₂ hsecond)

theorem steady_empty : Steady (fun _ => some {}) := by
  intro room b hb
  obtain rfl : [] = b := congrArg Writing.bytes (Option.some.inj hb)
  exact fun room => ⟨fun _ => rfl, fun hroom => absurd hroom (Nat.not_lt_zero _)⟩

end Sequence

/-! ### Records -/

section Level

variable {N : Writer} (hN : ∀ path v, Steady (N path v))

theorem steady_writeElements {E : Value → Nat → Option Writing} (hE : ∀ v, Steady (E v))
    (vs : List Value) : Steady (writeElements E vs) := by
  induction vs with
  | nil => exact steady_empty
  | cons v vs ih => exact (hE v).sequence ih

include hN

theorem steady_writePlain (name : FieldName) (endian : Endian) (v : Value) (type : FieldType) :
    Steady (fun room => writePlain N name endian v room type) := by
  have hnone : Steady (fun _ => none) := steady_of_fails (by simp)
  cases type with
  | scalar s => exact steady_put name (s.encode endian v.asInteger)
  | bytes length => exact steady_put name v.asBytes
  | nested path => exact hN path v
  | boxed target =>
    cases target with
    | nested path => exact hN path v
    | _ => exact hnone
  | _ => exact hnone

theorem steady_writeField (record : String) (fs : Fields) (f : RecordedField) :
    Steady (writeField N record fs f) := by
  have hplain := steady_writePlain hN ⟨record, f.decl.id⟩ f.info.endian (fs.get f.decl.id) f.decl.type
  cases htype : f.decl.type with
  | constant value =>
    cases hwidth : f.info.width.bind Width.fold with
    | none => exact steady_of_fails (by simp [writeField, htype, hwidth])
    | some width =>
      refine (steady_put ⟨record, f.decl.id⟩ (padded value width)).congr fun room => ?_
      simp only [writeField, htype, hwidth]
  | byteRun =>
    cases hwidth : f.info.width with
    | none => exact steady_of_fails (by simp [writeField, htype, hwidth])
    | some w =>
      cases hlength : fs.measure w with
      | error fault => exact steady_of_fails (by simp [writeField, htype, hwidth, hlength])
      | ok length =>
        by_cases hshort : (fs.get f.decl.id).asBytes.length < length
        · exact steady_of_fails (by simp [writeField, htype, hwidth, hlength, hshort])
        · refine (steady_put ⟨record, f.decl.id⟩
            ((fs.get f.decl.id).asBytes.take length)).congr fun room => ?_
          simp only [writeField, htype, hwidth, hlength, if_neg hshort]
  | slice element =>
    cases hwidth : f.info.width with
    | none => exact steady_of_fails (by simp [writeField, htype, hwidth])
    | some w =>
      cases hcount : fs.measure w with
      | error fault => exact steady_of_fails (by simp [writeField, htype, hwidth, hcount])
      | ok count =>
        by_cases hshort : (fs.get f.decl.id).asItems.length < count
        · exact steady_of_fails (by simp [writeField, htype, hwidth, hcount, hshort])
        · have helement := fun v =>
            steady_writePlain hN ⟨record, f.decl.id⟩ f.info.endian v element
          refine (steady_writeElements helement
            ((fs.get f.decl.id).asItems.take count)).congr fun room => ?_
          simp only [writeField, htype, hwidth, hcount, if_neg hshort]
  | scalar s => exact hplain.congr fun room => by simp only [writeField, htype]
  | bytes length => exact hplain.congr fun room => by simp only [writeField, htype]
  | nested path => exact hplain.congr fun room => by simp only [writeField, htype]
  | boxed target => exact hplain.congr fun room => by simp only [writeField, htype]

theorem steady_writeFields (record : String) (fs : Fields) (fields : List RecordedField) :
    Steady (writeFields N record fs fields) := by
  induction fields with
  | nil => exact steady_empty
  | cons f fields ih => exact (steady_writeField hN record fs f).sequence ih

end Level

theorem steady_writeTo (r : Registry) (n : Nat) (path : String) (v : Value) :
    Steady (writeTo r n path v) := by
  induction n generalizing path v with
  | zero => exact steady_of_fails (by simp [writeTo])
  | succ n ih =>
    cases hfind : r.find? path with
    | some e =>
      refine (steady_writeFields ih e.id v.asFields e.fields).congr fun room => ?_
      exact writeTo_record hfind n
    | none =>
      by_cases hpath : path = Varint.path
      · intro room b hb
        subst hpath
        obtain rfl := writeTo_varint_ok hfind hb
        exact fills_varint hfind n v
      · exact steady_of_fails (by simp [writeTo, hfind, hpath])

end WireRecords.Codec

namespace WireRecords.Execution

open Codec Program

/-- In every accepted run whose records nest only records that have a name and variable-length
integers, a value that can be encoded is written in any room that holds its encoding. In less room
writing stops short, and what has been written is a beginning of the encoding. The procedures of a
file that is generated for the run do the same. -/
theorem limited_room_writes_beginning {config : Config} {units : List CompilationUnit} {p : Progress}
    (h : compile config units = .ok p) (hread : Readable (named p.compilation)) {path : String}
    (hpath : path ∈ (named p.compilation).map (·.id)) {v : Value}
    (hv : v.fits p.compilation.registry (.nested path) = true) {b : List UInt8}
    (hb : encode p.compilation.registry path v = some (.ok b)) :
    (∀ room,
      (b.length ≤ room → write p.compilation.registry path v room = some ⟨b, none⟩) ∧
      (room < b.length → ∃ w, write p.compilation.registry path v room = some w ∧
        StopsShort room b w)) ∧
    ∀ isFlat items, (generate (p.compilation.against {}) isFlat).2 = .ok items → ∀ room,
      (b.length ≤ room →
        runWrite p.compilation.registry items (v.depth + 1) path v room = .ok ⟨b, none⟩) ∧
      (room < b.length → ∃ w,
        runWrite p.compilation.registry items (v.depth + 1) path v room = .ok w ∧
          StopsShort room b w) := by
  have hfills := steady_writeTo p.compilation.registry (v.depth + 1) path v (encode_ok.mp hb)
  refine ⟨hfills, fun isFlat items hitems room => ?_⟩
  rw [runWrite_eq (covers_of_generated h hitems hread) (Or.inl hpath) hv room]
  refine ⟨fun hroom => ?_, fun hroom => ?_⟩
  · rw [(hfills room).1 hroom]
    rfl
  · obtain ⟨w, hw, hshort⟩ := (hfills room).2 hroom
    exact ⟨w, by rw [hw]; rfl, hshort⟩

theorem packets_generated : ∃ p ∈ (compile {} packets).toOption, Readable (named p.compilation) ∧
    ((generate (p.compilation.against {}) true).2.toOption).isSome = true ∧
      "Packet" ∈ (named p.compilation).map (·.id) ∧
      loosePacket.fits p.compilation.registry (.nested "Packet") = true ∧
      encode p.compilation.registry "Packet" loosePacket = some (.ok packetBytes) := by
  decide +kernel

/-- Room for eight bytes of a packet that takes fifteen ends within its last item. -/
theorem limited_room_writes_packet :
    ∃ p items w, compile {} packets = .ok p ∧ Readable (named p.compilation) ∧
      (generate (p.compilation.against {}) true).2 = .ok items ∧
      "Packet" ∈ (named p.compilation).map (·.id) ∧
      loosePacket.fits p.compilation.registry (.nested "Packet") = true ∧
      encode p.compilation.registry "Packet" loosePacket = some (.ok packetBytes) ∧
      runWrite p.compilation.registry items (loosePacket.depth + 1) "Packet" loosePacket 15 =
        .ok ⟨packetBytes, none⟩ ∧
      runWrite p.compilation.registry items (loosePacket.depth + 1) "Packet" loosePacket 8 = .ok w ∧
      StopsShort 8 packetBytes w := by
  obtain ⟨p, hp, hread, hgenerated, hpacket, hfits, hencode⟩ := packets_generated
  have h := compile_of_toOption hp
  obtain ⟨items, hsome⟩ := Option.isSome_iff_exists.mp hgenerated
  have hitems := ok_of_toOption hsome
  obtain ⟨_, hrun⟩ := limited_room_writes_beginning h hread hpacket hfits hencode
  obtain ⟨w, hw, hshort⟩ := (hrun true items hitems 8).2 (by decide)
  exact ⟨p, items, w, h, hread, hitems, hpacket, hfits, hencode,
    (hrun true items hitems 15).1 (by decide), hw, hshort⟩

end WireRecords.Execution
