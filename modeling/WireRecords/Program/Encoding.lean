import WireRecords.Program.Transfer

/-!
# Writing procedures

The procedure that writes a record. Every write is preceded by checks that what is stored is long
enough and that the output has room for it.
-/
namespace WireRecords.Program

def outputRoom : Expr := .method buffer "remaining_mut" []

namespace Subject

/-- Fails unless the output has room for `expected` more bytes. -/
def requireRoom (s : Subject) (expected : Expr) : Stmt :=
  s.require "EncodeError" "ShortWrite" outputRoom expected

/-- Fails unless the stored sequence has `expected` items. -/
def requireStored (s : Subject) (expected : Expr) : Stmt :=
  s.require "EncodeError" "ShortBuffer" (.method (s.place false) "len" []) expected

def putSlice (bytes : Expr) : Stmt := perform (.method buffer "put_slice" [.borrow false bytes])

/-- The statements that write a value of a type. -/
def encode (s : Subject) (isElement : Bool) (type : FieldType) : Except TransferError Block :=
  match type.transfer, type with
  | .scalar k, _ =>
    let put := scalarOperation "put" k s.info.endian
    .ok [s.requireRoom (.nat k.width), perform (.method buffer put [s.place isElement])]
  | .byteRun, .bytes length => .ok [s.requireRoom (.nat length), putSlice (s.place isElement)]
  | .byteRun, _ =>
    match s.width with
    | .error e => .error e
    | .ok width =>
      .ok [declareSize "len" width, s.requireStored (.var "len"), s.requireRoom (.var "len"),
        putSlice (.index (s.place isElement) (.range none (.var "len")))]
  | .slice, .slice element =>
    match s.width with
    | .error e => .error e
    | .ok count =>
      match s.encode true element with
      | .error e => .error e
      | .ok body =>
        .ok [declareSize "count" count, s.requireStored (.var "count"), forElements body]
  | .nested, _ =>
    .ok [perform (.propagate (.method (s.place isElement) "write_binary" [buffer]))]
  | .constant, .constant value =>
    match s.fixedWidth with
    | .error e => .error e
    | .ok width =>
      .ok [s.requireRoom (.nat width),
        perform (.call (.var "write_padded")
          [buffer, .literal (.bytes value.toUTF8.toList), .nat width])]
  | _, _ => .error (.unsupported "encode" s.record s.field type)

end Subject

/-- The procedure that writes a record. -/
def encoder (registry : Registry) (r : RecordDecl) : Except TransferError Item :=
  match transferFields registry (fun s => s.encode false s.field.type) r with
  | .error e => .error e
  | .ok body =>
    .ok (procedure r "write_binary" "EncodeError"
      [.receiver false, .typed "buf" (.reference true (.bounded "BufMut"))] body)

/-- Whether writing a type needs the helper for constants. -/
def writesConstant : FieldType → Bool
  | .constant _ => true
  | .slice element => writesConstant element
  | _ => false

/-- The helper that writes a constant. -/
def writePadded : Item :=
  let data := Expr.var "data"
  let len := Expr.var "len"
  .function
    { attributes :=
        [.docComment " Write `data` truncated or padded with zeros to `width` bytes."]
      name := "write_padded"
      parameters :=
        [.typed "buf" (.reference true (.bounded "BufMut")),
          .typed "data" (.reference false (.slice (.named "u8"))), .typed "width" usize] }
    [declare "len" (.call (.path ["std", "cmp", "min"]) [.method data "len" [], .var "width"]),
      Subject.putSlice (.index data (.range none len)),
      perform (.method buffer "put_bytes" [.nat 0, .binary "-" (.var "width") len])]

end WireRecords.Program
