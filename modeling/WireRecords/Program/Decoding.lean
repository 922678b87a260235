import WireRecords.Codec.Value
import WireRecords.Program.Transfer

/-!
# Reading procedures

The procedure that reads a record. Every read is preceded by a check that the input is long enough.
-/
namespace WireRecords.Program

def inputRest : Expr := .method buffer "remaining" []

namespace Subject

/-- Fails unless the input holds `expected` more bytes. -/
def requireInput (s : Subject) (expected : Expr) : Stmt :=
  s.require "DecodeError" "ShortRead" inputRest expected

/-- Reads bytes until a place is full. -/
def fill (target : Expr) : Stmt :=
  perform (.method buffer "copy_to_slice" [.borrow true target])

/-- Rejects input that is too short for all elements, if their width is known. -/
def requireElements (s : Subject) : Option Nat → Block
  | none => []
  | some width =>
    [declare "expected" (.method (.var "count") "saturating_mul" [.nat width]),
      s.requireInput (.var "expected")]

/-- The statements that read a value of a type. -/
def decode (s : Subject) (registry : Registry) (isElement : Bool) (type : FieldType) :
    Except TransferError Block :=
  match type.transfer, type with
  | .scalar k, _ =>
    let get := scalarOperation "get" k s.info.endian
    .ok [s.requireInput (.nat k.width),
      perform (.assign (s.place isElement) (.method buffer get []))]
  | .byteRun, .bytes length => .ok [s.requireInput (.nat length), fill (s.place isElement)]
  | .byteRun, _ =>
    match s.width with
    | .error e => .error e
    | .ok width =>
      .ok [declareSize "len" width, s.requireInput (.var "len"),
        perform (.assign (s.place isElement) (.vector (.nat 0) (.var "len"))),
        fill (s.place isElement)]
  | .slice, .slice element =>
    match s.width with
    | .error e => .error e
    | .ok count =>
      match s.decode registry true element with
      | .error e => .error e
      | .ok body =>
        let target := s.place isElement
        -- The capacity is bounded by what the input still holds.
        let capacity := Expr.method (.var "count") "min" [inputRest]
        .ok ([declareSize "count" count] ++ s.requireElements (registry.elementWidth? element) ++
          [perform (.assign target (.call (.path ["Vec", "with_capacity"]) [capacity])),
            forElements (perform (.method target "push" [defaultValue element]) :: body)])
  | .nested, _ =>
    .ok [perform (.propagate (.method (s.place isElement) "read_binary" [buffer]))]
  | .constant, .constant value =>
    match s.fixedWidth with
    | .error e => .error e
    | .ok width =>
      let expected := Expr.literal (.bytes (Codec.padded value width))
      .ok [s.requireInput (.nat width),
        .binding true "actual" none (.repetition (.literal .zeroByte) (.nat width)),
        fill (.var "actual"),
        when (.binary "!=" (.var "actual") (.deref expected))
          [fail "DecodeError" "ContentMismatch"
            [("record", .text s.record), ("field", .text s.field.id),
              ("expected", .method expected "to_vec" []),
              ("actual", .method (.var "actual") "to_vec" [])]]]
  | _, _ => .error (.unsupported "decode" s.record s.field type)

end Subject

/-- The procedure that reads a record. -/
def decoder (registry : Registry) (r : RecordDecl) : Except TransferError Item :=
  match transferFields registry (fun s => s.decode registry false s.field.type) r with
  | .error e => .error e
  | .ok body =>
    .ok (procedure r "read_binary" "DecodeError"
      [.receiver true, .typed "buf" (.reference true (.bounded "Buf"))] body)

end WireRecords.Program
