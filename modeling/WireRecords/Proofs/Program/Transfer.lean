import WireRecords.Program.Generation
import WireRecords.Proofs.Sequencing

/-!
# What is generated to transfer fields

The statements for a field are generated if the width is known that they need. Here it is said what
they are then, for the types that need one, and what the procedure of a record consists of.
-/
namespace WireRecords.Program

namespace Subject

variable {s : Subject} {registry : Registry} {isElement : Bool} {element : FieldType}
  {value : String} {b : Block}

/-! ### Statements that read -/

theorem decode_byteRun : s.decode registry isElement .byteRun = .ok b ↔
    ∃ w, s.info.width = some w ∧
      b = [declareSize "len" (lower w), s.requireInput (.var "len"),
        perform (.assign (s.place isElement) (.vector (.nat 0) (.var "len"))),
        fill (s.place isElement)] := by
  simp only [decode.eq_def, FieldType.transfer, width]
  cases s.info.width with
  | none => simp
  | some w => simp [eq_comm]

theorem decode_slice : s.decode registry isElement (.slice element) = .ok b ↔
    ∃ w inner, s.info.width = some w ∧ s.decode registry true element = .ok inner ∧
      b = [declareSize "count" (lower w)] ++ s.requireElements (registry.elementWidth? element) ++
        [perform (.assign (s.place isElement) (.call (.path ["Vec", "with_capacity"])
            [.method (.var "count") "min" [inputRest]])),
          forElements (perform (.method (s.place isElement) "push" [defaultValue element]) ::
            inner)] := by
  simp only [decode, width]
  cases s.info.width with
  | none => simp
  | some w =>
    cases s.decode registry true element with
    | error e => simp
    | ok inner => simp [eq_comm]

theorem decode_constant : s.decode registry isElement (.constant value) = .ok b ↔
    ∃ n, s.info.width.bind Width.fold = some n ∧
      b = [s.requireInput (.nat n),
        .binding true "actual" none (.repetition (.literal .zeroByte) (.nat n)),
        fill (.var "actual"),
        when (.binary "!=" (.var "actual") (.deref (.literal (.bytes (Codec.padded value n)))))
          [fail "DecodeError" "ContentMismatch"
            [("record", .text s.record), ("field", .text s.field.id),
              ("expected", .method (.literal (.bytes (Codec.padded value n))) "to_vec" []),
              ("actual", .method (.var "actual") "to_vec" [])]]] := by
  simp only [decode, fixedWidth]
  cases s.info.width.bind Width.fold with
  | none => simp
  | some n => simp [eq_comm]

/-! ### Statements that write -/

theorem encode_byteRun : s.encode isElement .byteRun = .ok b ↔
    ∃ w, s.info.width = some w ∧
      b = [declareSize "len" (lower w), s.requireStored (.var "len"), s.requireRoom (.var "len"),
        putSlice (.index (s.place isElement) (.range none (.var "len")))] := by
  simp only [encode.eq_def, FieldType.transfer, width]
  cases s.info.width with
  | none => simp
  | some w => simp [eq_comm]

theorem encode_slice : s.encode isElement (.slice element) = .ok b ↔
    ∃ w inner, s.info.width = some w ∧ s.encode true element = .ok inner ∧
      b = [declareSize "count" (lower w), s.requireStored (.var "count"), forElements inner] := by
  simp only [encode, width]
  cases s.info.width with
  | none => simp
  | some w =>
    cases s.encode true element with
    | error e => simp
    | ok inner => simp [eq_comm]

theorem encode_constant : s.encode isElement (.constant value) = .ok b ↔
    ∃ n, s.info.width.bind Width.fold = some n ∧
      b = [s.requireRoom (.nat n),
        perform (.call (.var "write_padded")
          [buffer, .literal (.bytes value.toUTF8.toList), .nat n])] := by
  simp only [encode, fixedWidth]
  cases s.info.width.bind Width.fold with
  | none => simp
  | some n => simp [eq_comm]

end Subject

/-! ### Procedures -/

section Procedures

variable {registry : Registry} {r : RecordDecl} {i : Item}

/-- The statements of every field stand in a block of their own. -/
theorem transferFields_eq_ok {transfer : Subject → Except TransferError Block} {body : Block}
    (h : transferFields registry transfer r = .ok body) :
    List.Forall₂ (fun f s => ∃ info own, registry.get r.id f.id = .ok info ∧
      transfer ⟨r.id, f, info⟩ = .ok own ∧ s = Stmt.expr (.block none false own) false)
      r.fields body := by
  refine (mapM_eq_ok.mp h).imp fun f s hs => ?_
  split at hs
  · simp at hs
  · rename_i info hget
    split at hs
    · simp at hs
    · rename_i own hown
      exact ⟨info, own, hget, hown, (Except.ok.inj hs).symm⟩

theorem decoder_eq_ok (h : decoder registry r = .ok i) :
    ∃ blocks, transferFields registry (fun sub => sub.decode registry false sub.field.type) r =
        .ok blocks ∧
      i = procedure r "read_binary" "DecodeError"
        [.receiver true, .typed "buf" (.reference true (.bounded "Buf"))] blocks := by
  unfold decoder at h
  split at h
  · simp at h
  · rename_i blocks hblocks
    exact ⟨blocks, hblocks, (Except.ok.inj h).symm⟩

theorem encoder_eq_ok (h : encoder registry r = .ok i) :
    ∃ blocks, transferFields registry (fun sub => sub.encode false sub.field.type) r =
        .ok blocks ∧
      i = procedure r "write_binary" "EncodeError"
        [.receiver false, .typed "buf" (.reference true (.bounded "BufMut"))] blocks := by
  unfold encoder at h
  split at h
  · simp at h
  · rename_i blocks hblocks
    exact ⟨blocks, hblocks, (Except.ok.inj h).symm⟩

end Procedures

end WireRecords.Program
