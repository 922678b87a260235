import WireRecords.Codec.Integer
import WireRecords.Codec.Read

/-!
# Writing records

What the encode procedure of a record does in a buffer with limited room. When it fails, the bytes
before the failure have been written.
-/
namespace WireRecords.Codec

/-- The bytes written, and the error that ended writing. -/
structure Writing where
  bytes : List UInt8 := []
  error : Option EncodeError := none
deriving DecidableEq, Repr, Inhabited

/-- Writes a record or a type from elsewhere where there is some room. -/
abbrev Writer := String → Value → Nat → Option Writing

/-- Writes all of the bytes, or none of them. -/
def put (name : FieldName) (bytes : List UInt8) (room : Nat) : Writing :=
  if room < bytes.length then
    ⟨[], some (.shortWrite name.record name.field room bytes.length)⟩
  else ⟨bytes, none⟩

/-- Puts one piece of writing behind another. -/
def Writing.append (first : Writing) (second : Option Writing) : Option Writing :=
  second.map fun w => { w with bytes := first.bytes ++ w.bytes }

def writePlain (nested : Writer) (name : FieldName) (endian : Endian) (v : Value) (room : Nat) :
    FieldType → Option Writing
  | .scalar s => some (put name (s.encode endian v.asInteger) room)
  | .bytes _ => some (put name v.asBytes room)
  | .nested path | .boxed (.nested path) => nested path v room
  | _ => none

def writeElements (element : Value → Nat → Option Writing) : List Value → Nat → Option Writing
  | [], _ => some {}
  | v :: vs, room =>
    match element v room with
    | none => none
    | some w =>
      if w.error.isSome then some w
      else w.append (writeElements element vs (room - w.bytes.length))

def writeField (nested : Writer) (record : String) (fs : Fields) (f : RecordedField) (room : Nat) :
    Option Writing :=
  let id := f.decl.id
  let name : FieldName := ⟨record, id⟩
  let broken (fault : ArithmeticFault) : Writing :=
    ⟨[], some (.fault (.ofPanic record (.arithmetic fault)))⟩
  match f.decl.type with
  | .constant value =>
    match f.info.width.bind Width.fold with
    | none => none
    | some width => some (put name (padded value width) room)
  | .byteRun =>
    match f.info.width with
    | none => none
    | some w =>
      match fs.measure w with
      | .error fault => some (broken fault)
      | .ok length =>
        let data := (fs.get id).asBytes
        if data.length < length then some ⟨[], some (.shortBuffer record id data.length length)⟩
        else some (put name (data.take length) room)
  | .slice element =>
    match f.info.width with
    | none => none
    | some w =>
      match fs.measure w with
      | .error fault => some (broken fault)
      | .ok count =>
        let items := (fs.get id).asItems
        if items.length < count then
          some ⟨[], some (.shortBuffer record id items.length count)⟩
        else
          writeElements (fun v room => writePlain nested name f.info.endian v room element)
            (items.take count) room
  | type => writePlain nested name f.info.endian (fs.get id) room type

/-- Writes fields in wire order, up to the first that fails. -/
def writeFields (nested : Writer) (record : String) (fs : Fields) :
    List RecordedField → Nat → Option Writing
  | [], _ => some {}
  | f :: rest, room =>
    match writeField nested record fs f room with
    | none => none
    | some w =>
      if w.error.isSome then some w
      else w.append (writeFields nested record fs rest (room - w.bytes.length))

/-- Writes a record, or a variable-length integer. Records are nested at most `depth` deep. -/
def writeTo (r : Registry) : Nat → Writer
  | 0, _, _, _ => none
  | depth + 1, path, v, room =>
    match r.find? path with
    | some e => writeFields (writeTo r depth) e.id v.asFields e.fields room
    | none =>
      if path = Varint.path then
        match Varint.write v.word room with
        | .ok bytes => some ⟨bytes, none⟩
        | .error e => some ⟨[], some e⟩
      else none

/-- Writes a value where there is room for `room` bytes. -/
def write (r : Registry) (path : String) (v : Value) (room : Nat) : Option Writing :=
  writeTo r (v.depth + 1) path v room

/-- The room of a buffer that grows. -/
def unlimited : Nat := 0x7fffffffffffffff

/-- Writes into a buffer that grows; the bytes count only when all are written. -/
def encode (r : Registry) (path : String) (v : Value) :
    Option (Except EncodeError (List UInt8)) :=
  (write r path v unlimited).map fun w =>
    match w.error with
    | some e => .error e
    | none => .ok w.bytes

end WireRecords.Codec
