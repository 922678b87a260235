import WireRecords.Codec.Integer
import WireRecords.Codec.Value

/-!
# Reading records

What the decode procedure of a record does. It changes its receiver field by field: when it fails,
the fields before the failure have their new values.
-/
namespace WireRecords.Codec

/-- A value after reading, the bytes that are left, and the error that ended reading. -/
structure Reading (α : Type) where
  value : α
  rest : List UInt8
  error : Option DecodeError := none
deriving Repr

/-- Reads a record or a type from elsewhere into a receiver; `none` when there is no such type, or
when records are nested deeper than expected. -/
abbrev Reader := String → Value → List UInt8 → Option (Reading Value)

/-- The field that is being read, for error messages. -/
structure FieldName where
  record : String
  field : String
deriving DecidableEq, Repr, Inhabited

/-- Takes the next `count` bytes. -/
def take (name : FieldName) (count : Nat) (bytes : List UInt8) :
    Except DecodeError (List UInt8 × List UInt8) :=
  if bytes.length < count then
    .error (.shortRead name.record name.field bytes.length count)
  else .ok (bytes.take count, bytes.drop count)

/-- Reads a value that is not a sequence of computed length. -/
def readPlain (nested : Reader) (name : FieldName) (endian : Endian) (receiver : Value)
    (bytes : List UInt8) : FieldType → Option (Reading Value)
  | .scalar s =>
    match take name s.width bytes with
    | .ok (word, rest) => some ⟨.integer (s.decode endian word), rest, none⟩
    | .error e => some ⟨receiver, bytes, some e⟩
  | .bytes length =>
    match take name length bytes with
    | .ok (data, rest) => some ⟨.bytes data, rest, none⟩
    | .error e => some ⟨receiver, bytes, some e⟩
  | .nested path | .boxed (.nested path) => nested path receiver bytes
  | _ => none

/-- Reads `count` elements one after the other. An element that fails is kept as far as it came. -/
def readElements (element : List UInt8 → Option (Reading Value)) :
    Nat → List UInt8 → Option (Reading (List Value))
  | 0, bytes => some ⟨[], bytes, none⟩
  | count + 1, bytes =>
    match element bytes with
    | none => none
    | some ⟨v, rest, some e⟩ => some ⟨[v], rest, some e⟩
    | some ⟨v, rest, none⟩ =>
      (readElements element count rest).map fun q => { q with value := v :: q.value }

/-- A product that stops at the largest word. -/
def saturatingMul (a b : Nat) : Nat := min (a * b) (wordCount - 1)

/-- Refuses a slice early when its elements have a fixed width and cannot all be there. -/
def checkSlice (r : Registry) (name : FieldName) (element : FieldType) (count : Nat)
    (bytes : List UInt8) : Option DecodeError :=
  match r.elementWidth? element with
  | some width =>
    let expected := saturatingMul count width
    if bytes.length < expected then
      some (.shortRead name.record name.field bytes.length expected)
    else none
  | none => none

/-- Reads a field into a record with the given fields. -/
def readField (r : Registry) (nested : Reader) (record : String) (fs : Fields) (f : RecordedField)
    (bytes : List UInt8) : Option (Reading Fields) :=
  let id := f.decl.id
  let name : FieldName := ⟨record, id⟩
  let broken (fault : ArithmeticFault) : Reading Fields :=
    ⟨fs, bytes, some (.fault (.ofPanic record (.arithmetic fault)))⟩
  match f.decl.type with
  | .constant value =>
    match f.info.width.bind Width.fold with
    | none => none
    | some width =>
      match take name width bytes with
      | .error e => some ⟨fs, bytes, some e⟩
      | .ok (actual, rest) =>
        if actual = padded value width then some ⟨fs, rest, none⟩
        else some ⟨fs, rest, some (.contentMismatch record id actual (padded value width))⟩
  | .byteRun =>
    match f.info.width with
    | none => none
    | some w =>
      match fs.measure w with
      | .error fault => some (broken fault)
      | .ok length =>
        match take name length bytes with
        | .error e => some ⟨fs, bytes, some e⟩
        | .ok (data, rest) => some ⟨fs.set id (.bytes data), rest, none⟩
  | .slice element =>
    match f.info.width with
    | none => none
    | some w =>
      match fs.measure w with
      | .error fault => some (broken fault)
      | .ok count =>
        match checkSlice r name element count bytes with
        | some e => some ⟨fs, bytes, some e⟩
        | none =>
          let fresh := initialOf (initial r) element
          let one (bytes : List UInt8) := readPlain nested name f.info.endian fresh bytes element
          (readElements one count bytes).map fun q =>
            ⟨fs.set id (.list q.value), q.rest, q.error⟩
  | type =>
    (readPlain nested name f.info.endian (fs.get id) bytes type).map fun q =>
      ⟨fs.set id q.value, q.rest, q.error⟩

/-- Reads fields in wire order, up to the first that fails. -/
def readFields (r : Registry) (nested : Reader) (record : String) :
    Fields → List RecordedField → List UInt8 → Option (Reading Fields)
  | fs, [], bytes => some ⟨fs, bytes, none⟩
  | fs, f :: rest, bytes =>
    match readField r nested record fs f bytes with
    | some ⟨fs, bytes, none⟩ => readFields r nested record fs rest bytes
    | failed => failed

/-- Reads a record, or a variable-length integer. Records are nested at most `depth` deep. -/
def readTo (r : Registry) : Nat → Reader
  | 0, _, _, _ => none
  | depth + 1, path, receiver, bytes =>
    match r.find? path with
    | some e =>
      (readFields r (readTo r depth) e.id receiver.asFields e.fields bytes).map fun q =>
        ⟨.record q.value, q.rest, q.error⟩
    | none =>
      if path = Varint.path then
        let q := Varint.read bytes
        match q.result with
        | .ok n => some ⟨.integer n, q.rest, none⟩
        | .error e => some ⟨receiver, q.rest, some e⟩
      else none

/-- A bound on how deeply records are nested in an input. -/
def readDepth (r : Registry) (bytes : List UInt8) : Nat :=
  (bytes.length + 1) * (r.entries.length + 1)

/-- Reads into a receiver. -/
def read (r : Registry) : Reader := fun path receiver bytes =>
  readTo r (readDepth r bytes) path receiver bytes

/-- Reads into a receiver that may be missing; then nothing is consumed. -/
def readInto (r : Registry) (path : String) (receiver : Option Value) (bytes : List UInt8) :
    Option (Reading (Option Value)) :=
  match receiver with
  | some v => (read r path v bytes).map fun q => ⟨some q.value, q.rest, q.error⟩
  | none => some ⟨none, bytes, some (.absentReceiver path)⟩

/-- Reads a fresh value. -/
def decode (r : Registry) (path : String) (bytes : List UInt8) : Option (Reading Value) :=
  read r path (initial r path) bytes

end WireRecords.Codec
