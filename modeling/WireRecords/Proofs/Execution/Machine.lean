import WireRecords.Codec.Write
import WireRecords.Program.Generation
import WireRecords.Proofs.Codec.Value
import WireRecords.Proofs.Program.Meaning

/-!
# A machine for procedures

An interpretation under which the procedures of a file can be run. The machine holds one record, an
input, an output with limited room and the mutable bindings, and checks every access: reading behind
the end of the input, writing where there is no room, and an index or a range outside of what is
stored halt it for good. Breaking off in the middle of a width is different, for that is what the
boundary around a procedure recovers from.
-/
namespace WireRecords.Execution

open Codec Program

/-- Where a value is stored. -/
inductive Place where
  | self
  | field (id : String)
  | element (id : String) (index : Nat)
  /-- A mutable binding. -/
  | slot (index : Nat)
deriving DecidableEq, Repr

/-- What a procedure can report. -/
inductive Failure where
  | fault (fault : Fault)
  | decode (error : DecodeError)
  | encode (error : EncodeError)
deriving DecidableEq, Repr

/-- What an expression evaluates to. -/
inductive Datum where
  | unit
  | bool (value : Bool)
  | number (value : Nat)
  | text (value : String)
  | value (value : Value)
  | place (place : Place)
  | buffer
  | range (start stop : Nat)
  | function (path : List String)
  /-- The default of a type that is known only where it is used. -/
  | default
  | failure (failure : Failure)
  | result (failure : Option Failure)
deriving Repr

/-- Why a machine does nothing any more. -/
inductive Halt where
  /-- An access outside of the input, the output or what is stored. -/
  | outOfRange
  /-- More levels of records than expected, or a default value without end. -/
  | endless
  /-- Something that is no meaningful procedure. -/
  | stuck
deriving DecidableEq, Repr

/-- How a computation ends early. -/
inductive Stop where
  | returned (value : Datum)
  | panicked (cause : Panic)
  | halted (halt : Halt)
deriving Repr

structure Machine where
  /-- The fields of the record. -/
  fields : Fields
  input : List UInt8 := []
  output : List UInt8 := []
  /-- How many bytes the output still takes. -/
  room : Nat := 0
  slots : List Value := []
deriving Repr

namespace Machine

/-- What is stored at a place. -/
def get? (s : Machine) : Place → Option Value
  | .self => some (.record s.fields)
  | .field id => s.fields.lookup id
  | .element id i =>
    match s.fields.lookup id with
    | some (.list items) => items[i]?
    | _ => none
  | .slot i => s.slots[i]?

/-- Stores a value at a place that there is. -/
def put (s : Machine) : Place → Value → Machine
  | .self, v => { s with fields := v.asFields }
  | .field id, v => { s with fields := s.fields.set id v }
  | .element id i, v =>
    { s with fields := s.fields.set id (.list ((s.fields.get id).asItems.set i v)) }
  | .slot i, v => { s with slots := s.slots.set i v }

/-- Behind bytes that were written. -/
def wrote (s : Machine) (bytes : List UInt8) : Machine :=
  { s with output := s.output ++ bytes, room := s.room - bytes.length }

end Machine

/-! ### Computations -/

/-- A computation on a machine. What it has done remains when it ends early. -/
def Exec (α : Type) : Type := Machine → Except Stop α × Machine

namespace Exec

variable {α β : Type}

instance : Monad Exec where
  pure a := fun s => (.ok a, s)
  bind x f := fun s =>
    match x s with
    | (.ok a, s) => f a s
    | (.error e, s) => (.error e, s)

theorem pure_eq (a : α) (s : Machine) : (pure a : Exec α) s = (.ok a, s) := rfl

theorem bind_eq (x : Exec α) (f : α → Exec β) (s : Machine) :
    (x >>= f) s =
      match x s with
      | (.ok a, s) => f a s
      | (.error e, s) => (.error e, s) := rfl

theorem map_eq (f : α → β) (x : Exec α) (s : Machine) :
    (f <$> x) s =
      match x s with
      | (.ok a, s) => (.ok (f a), s)
      | (.error e, s) => (.error e, s) := rfl

instance : LawfulMonad Exec := by
  refine LawfulMonad.mk' Exec (fun x => ?_) (fun _ _ => rfl) fun x f g => ?_
  · funext s
    rw [map_eq]
    rcases x s with ⟨a | a, s'⟩ <;> rfl
  · funext s
    simp only [bind_eq]
    rcases x s with ⟨a | a, s'⟩ <;> rfl

def stop (e : Stop) : Exec α := fun s => (.error e, s)

def halt (h : Halt) : Exec α := stop (.halted h)

def state : Exec Machine := fun s => (.ok s, s)

def modify (f : Machine → Machine) : Exec PUnit := fun s => (.ok .unit, f s)

/-- Goes on with `h` where a computation ends early. -/
def handle (x : Exec α) (h : Stop → Exec α) : Exec α := fun s =>
  match x s with
  | (.ok a, s) => (.ok a, s)
  | (.error e, s) => h e s

def ofOption (halted : Halt) : Option α → Exec α
  | some a => pure a
  | none => halt halted

def load (p : Place) : Exec Value := do
  let s ← state
  ofOption .outOfRange (s.get? p)

def store (p : Place) (v : Value) : Exec PUnit := do
  let _ ← load p
  modify (·.put p v)

end Exec

open Exec

namespace Datum

/-- The value of a datum; that of a place is what is stored there. -/
def toValue : Datum → Exec Value
  | value v => pure v
  | place p => load p
  | _ => halt .stuck

def toNumber : Datum → Exec Nat
  | number n => pure n
  | _ => halt .stuck

def toPlace : Datum → Exec Place
  | place p => pure p
  | _ => halt .stuck

def toBytes (d : Datum) : Exec (List UInt8) := do
  match ← d.toValue with
  | .bytes data => pure data
  | _ => halt .stuck

end Datum

/-! ### Operations of the machine -/

/-- Takes bytes from the input. -/
def takeInput (count : Nat) : Exec (List UInt8) := do
  let s ← state
  if s.input.length < count then halt .outOfRange
  else
    modify fun s => { s with input := s.input.drop count }
    pure (s.input.take count)

/-- Appends bytes to the output. -/
def putOutput (bytes : List UInt8) : Exec Datum := do
  let s ← state
  if s.room < bytes.length then halt .outOfRange
  else
    modify (·.wrote bytes)
    pure .unit

/-- Takes a variable-length integer from the input byte by byte. The arguments are those of
`Varint.readGroups`. -/
def takeGroups : Nat → Nat → UInt64 → Exec (Except DecodeError Nat)
  | 0, _, _ => pure (.error (.overflow "Varint" "value"))
  | left + 1, index, value => do
    if (← state).input.isEmpty then
      pure (.error (.shortRead "Varint" "value" index (index + 1)))
    else
      let byte := (← takeInput 1).headD 0
      let group := byte &&& 0x7f
      if index + 1 = Varint.maxLength && 1 < group then
        pure (.error (.overflow "Varint" "value"))
      else
        let value := Varint.place value index group
        if byte &&& 0x80 = 0 then pure (.ok value.toNat) else takeGroups left (index + 1) value

/-- Appends a variable-length integer to the output byte by byte. -/
def putGroups (n : Nat) : Exec Datum :=
  if n < 128 then putOutput [n.toUInt8]
  else do
    let _ ← putOutput [(n % 128 + 128).toUInt8]
    putGroups (n / 128)
termination_by n
decreasing_by omega

/-- The writing procedure of variable-length integers. -/
def putVarint (n : Nat) : Exec (Option EncodeError) := do
  let length := Varint.encodedLength n
  let s ← state
  if s.room < length then pure (some (.shortWrite "Varint" "value" s.room length))
  else
    let _ ← putGroups n
    pure none

def operator? : String → Option Operator
  | "+" => some .add
  | "-" => some .sub
  | "*" => some .mul
  | "/" => some .div
  | "%" => some .rem
  | _ => none

/-- Arithmetic on words breaks off when there is no result. -/
def arithmetic (op : Operator) (a b : Nat) : Exec Datum :=
  match op.apply a b with
  | .ok n => pure (.number n)
  | .error fault => stop (.panicked (.arithmetic fault))

def binary (symbol : String) (a b : Datum) : Exec Datum :=
  match symbol with
  | "<" => do pure (.bool ((← a.toNumber) < (← b.toNumber)))
  | "!=" => do pure (.bool ((← a.toBytes) ≠ (← b.toBytes)))
  | symbol => do
    let op ← ofOption .stuck (operator? symbol)
    arithmetic op (← a.toNumber) (← b.toNumber)

/-- A single element, or the items up to a position. -/
def index (base position : Datum) : Exec Datum := do
  match position with
  | .number i =>
    match ← base.toPlace with
    | .field id =>
      let _ ← load (.element id i)
      pure (.place (.element id i))
    | _ => halt .stuck
  | .range start stop =>
    let data ← base.toBytes
    if stop < start ∨ data.length < stop then halt .outOfRange
    else pure (.value (.bytes ((data.take stop).drop start)))
  | _ => halt .stuck

def repetition (value length : Datum) : Exec Datum := do
  pure (.value (.bytes (List.replicate (← length.toNumber) (← value.toNumber).toUInt8)))

/-- The methods of buffers, numbers and stored values. -/
inductive Method where
  | remaining
  | remainingMut
  | get (scalar : Scalar) (endian : Endian)
  | put (scalar : Scalar) (endian : Endian)
  | copyToSlice
  | putSlice
  | putBytes
  | saturatingMul
  | min
  | len
  | toVec
  | push
  | readBinary
  | writeBinary
deriving DecidableEq, Repr

/-- How integers are named in methods; those without a mark put the highest byte first. -/
def integers : List (String × Scalar × Endian) :=
  [("u8", .u8, .big), ("i8", .i8, .big),
    ("u16", .u16, .big), ("i16", .i16, .big), ("u16_le", .u16, .little), ("i16_le", .i16, .little),
    ("u32", .u32, .big), ("i32", .i32, .big), ("u32_le", .u32, .little), ("i32_le", .i32, .little),
    ("u64", .u64, .big), ("i64", .i64, .big), ("u64_le", .u64, .little), ("i64_le", .i64, .little)]

/-- The methods that move integers in one direction. -/
def integerMethods (direction : String) (method : Scalar → Endian → Method) :
    List (String × Method) :=
  integers.map fun i => (direction ++ i.1, method i.2.1 i.2.2)

def otherMethods : List (String × Method) :=
  [("remaining", .remaining), ("remaining_mut", .remainingMut), ("copy_to_slice", .copyToSlice),
    ("put_slice", .putSlice), ("put_bytes", .putBytes), ("saturating_mul", .saturatingMul),
    ("min", .min), ("len", .len), ("to_vec", .toVec), ("push", .push),
    ("read_binary", .readBinary), ("write_binary", .writeBinary)]

def methods : List (String × Method) :=
  otherMethods ++ integerMethods "get_" .get ++ integerMethods "put_" .put

/-- The record that a procedure works on, and the procedures that it calls. -/
structure Context where
  /-- The types of the fields. -/
  type? : String → Option FieldType
  default? : FieldType → Option Value
  read : String → Value → List UInt8 → Except Halt (Reading Value)
  write : String → Value → Nat → Except Halt Writing
  /-- The helper for constants. -/
  pad : List Datum → Exec Datum

namespace Context

variable (c : Context)

/-- The record whose procedures are those of a place. -/
def target? : Place → Option String
  | .field id => (c.type? id).bind FieldType.target?
  | .element id _ =>
    match c.type? id with
    | some (.slice element) => element.target?
    | _ => none
  | _ => none

/-- What is put behind the elements of a field. -/
def fresh (id : String) : Datum → Exec Value
  | .default =>
    match c.type? id with
    | some (.slice element) => ofOption .endless (c.default? element)
    | _ => halt .stuck
  | d => d.toValue

/-- Takes over what another reading procedure has made of a place and of the input. -/
def received (p : Place) : Except Halt (Reading Value) → Exec Datum
  | .error h => halt h
  | .ok q => do
    modify fun s => { s with input := q.rest }
    store p q.value
    pure (.result (q.error.map .decode))

def readBinary (p : Place) : Exec Datum := do
  let path ← ofOption .stuck (c.target? p)
  let v ← load p
  received p (c.read path v (← state).input)

/-- Takes over what another writing procedure has put out. -/
def sent : Except Halt Writing → Exec Datum
  | .error h => halt h
  | .ok w => do
    modify (·.wrote w.bytes)
    pure (.result (w.error.map .encode))

def writeBinary (p : Place) : Exec Datum := do
  let path ← ofOption .stuck (c.target? p)
  let v ← load p
  sent (c.write path v (← state).room)

/-- A method of a receiver. -/
def method : Method → Datum → List Datum → Exec Datum
  | .remaining, .buffer, [] => do pure (.number (← state).input.length)
  | .remainingMut, .buffer, [] => do pure (.number (← state).room)
  | .get s endian, .buffer, [] => do
    pure (.value (.integer (s.decode endian (← takeInput s.width))))
  | .put s endian, .buffer, [d] => do
    match ← d.toValue with
    | .integer n => putOutput (s.encode endian n)
    | _ => halt .stuck
  | .copyToSlice, .buffer, [d] => do
    let p ← d.toPlace
    let old ← d.toBytes
    store p (.bytes (← takeInput old.length))
    pure .unit
  | .putSlice, .buffer, [d] => do putOutput (← d.toBytes)
  | .putBytes, .buffer, [b, n] => do
    putOutput (List.replicate (← n.toNumber) (← b.toNumber).toUInt8)
  | .saturatingMul, .number a, [d] => do pure (.number (saturatingMul a (← d.toNumber)))
  | .min, .number a, [d] => do pure (.number (min a (← d.toNumber)))
  | .len, d, [] => do
    match ← d.toValue with
    | .bytes data => pure (.number data.length)
    | .list items => pure (.number items.length)
    | _ => halt .stuck
  | .toVec, d, [] => do pure (.value (.bytes (← d.toBytes)))
  | .push, .place (.field id), [d] => do
    let v ← c.fresh id d
    match ← load (.field id) with
    | .list items =>
      store (.field id) (.list (items ++ [v]))
      pure .unit
    | _ => halt .stuck
  | .readBinary, .place p, [.buffer] => c.readBinary p
  | .writeBinary, .place p, [.buffer] => c.writeBinary p
  | _, _, _ => halt .stuck

end Context

/-- An error of the procedures, given its fields by their names. -/
def failure? (path : List String) (fields : List (String × Datum)) : Option Failure :=
  let text (name : String) : Option String :=
    match fields.lookup name with
    | some (.text value) => some value
    | _ => none
  let number (name : String) : Option Nat :=
    match fields.lookup name with
    | some (.number value) => some value
    | _ => none
  let bytes (name : String) : Option (List UInt8) :=
    match fields.lookup name with
    | some (.value (.bytes value)) => some value
    | _ => none
  match path with
  | ["DecodeError", "ShortRead"] => do
    some (.decode (.shortRead (← text "record") (← text "field") (← number "actual")
      (← number "expected")))
  | ["DecodeError", "ContentMismatch"] => do
    some (.decode (.contentMismatch (← text "record") (← text "field") (← bytes "actual")
      (← bytes "expected")))
  | ["EncodeError", "ShortWrite"] => do
    some (.encode (.shortWrite (← text "record") (← text "field") (← number "actual")
      (← number "expected")))
  | ["EncodeError", "ShortBuffer"] => do
    some (.encode (.shortBuffer (← text "record") (← text "field") (← number "actual")
      (← number "expected")))
  | _ => none

/-! ### The interpretation -/

/-- The bindings, the latest first. -/
abbrev Bindings := List (String × Datum)

/-- What a path stands for: a binding, or else a function. -/
def resolve (env : Bindings) : List String → Datum
  | [name] => (env.lookup name).getD (.function [name])
  | path => .function path

/-- A spelled name without its mark. -/
def unescape (name : String) : String :=
  match name.toList with
  | 'r' :: '#' :: cs => String.ofList cs
  | _ => name

def literal : Literal → Datum
  | .integer value => .number value
  | .zeroByte => .number 0
  | .string value => .text value
  | .bytes value => .value (.bytes value)

/-- The early return of an error. -/
def propagate : Datum → Exec Datum
  | .result none => pure .unit
  | .result (some e) => stop (.returned (.result (some e)))
  | _ => halt .stuck

/-- Turns breaking off into an error. -/
def recoverFrom (record : String) : Stop → Exec Datum
  | .panicked cause => pure (.result (some (.fault (.ofPanic record cause))))
  | e => stop e

/-- Leaves a closure with what it returns. -/
def leave : Stop → Exec Datum
  | .returned d => pure d
  | e => stop e

/-- The functions that procedures call. -/
inductive Function where
  | ok
  | err
  | default
  | withCapacity
  | min
  | recover
  | writePadded
deriving DecidableEq, Repr

def functions : List (List String × Function) :=
  [(["Ok"], .ok), (["Err"], .err), (["Default", "default"], .default),
    (["Vec", "with_capacity"], .withCapacity), (["std", "cmp", "min"], .min),
    (["wire9_runtime", "recover"], .recover), (["write_padded"], .writePadded)]

/-- Calls a function. The boundary is the only one that gets a closure, which therefore stands for
its call. -/
def call (c : Context) : Function → List (Bindings → Exec Datum) → Bindings → Exec Datum
  | .ok, [d], env => do
    let _ ← d env
    pure (.result none)
  | .err, [d], env => do
    match ← d env with
    | .failure e => pure (.result (some e))
    | _ => halt .stuck
  | .default, [], _ => pure .default
  | .withCapacity, [d], env => do
    let _ ← (← d env).toNumber
    pure (.value (.list []))
  | .min, [a, b], env => do
    pure (.number (min (← (← a env).toNumber) (← (← b env).toNumber)))
  | .recover, [record, body], env => do
    match ← record env with
    | .text name => handle (body env) (recoverFrom name)
    | _ => halt .stuck
  | .writePadded, arguments, env => do c.pad (← arguments.mapM (· env))
  | _, _, _ => halt .stuck

/-- The word that an integer is converted to. -/
def toWord (type : Ty) (d : Datum) : Exec Datum := do
  match type, ← d.toValue with
  | .path [name] [], .integer n =>
    if name = "usize" then pure (.number (Value.integer n).word) else halt .stuck
  | _, _ => halt .stuck

def form (c : Context) : Form → List (Bindings → Exec Datum) → Bindings → Exec Datum
  | .path path, _, env => pure (resolve env path)
  | .literal value, _, _ => pure (literal value)
  | .unit, _, _ => pure .unit
  | .paren, [e], env => e env
  | .deref, [e], env => e env
  | .borrow _, [e], env => e env
  | .propagate, [e], env => e env >>= propagate
  | .cast type, [e], env => e env >>= toWord type
  | .binary symbol, [a, b], env => do binary symbol (← a env) (← b env)
  | .assign, [place, e], env => do
    let v ← (← e env).toValue
    store (← (← place env).toPlace) v
    pure .unit
  | .call, callee :: arguments, env => do
    match ← callee env with
    | .function path => do
      let f ← ofOption .stuck (functions.lookup path)
      call c f arguments env
    | _ => halt .stuck
  | .method name, base :: arguments, env => do
    let m ← ofOption .stuck (methods.lookup name)
    c.method m (← base env) (← arguments.mapM (· env))
  | .field name, [base], env => do
    match ← base env with
    | .place .self => pure (.place (.field (unescape name)))
    | _ => halt .stuck
  | .index, [base, position], env => do index (← base env) (← position env)
  | .range, [stop], env => do pure (.range 0 (← (← stop env).toNumber))
  | .range, [start, stop], env => do
    pure (.range (← (← start env).toNumber) (← (← stop env).toNumber))
  | .repetition, [value, length], env => do repetition (← value env) (← length env)
  | .vector, [value, length], env => do repetition (← value env) (← length env)
  | .construct path names, parts, env => do
    let data ← parts.mapM (· env)
    pure (.failure (← ofOption .stuck (failure? path (names.zip data))))
  | .returned, [e], env => do stop (.returned (← e env))
  | .closure _, [body], env => handle (body env) leave
  | _, _, _ => halt .stuck

/-- Runs a body for the numbers from `start` on. -/
def forFrom (body : Nat → Exec Datum) : Nat → Nat → Exec PUnit
  | _, 0 => pure .unit
  | start, count + 1 => do
    let _ ← body start
    forFrom body (start + 1) count

def control : Control → List (Bindings → Exec Datum) → Bindings → Exec PUnit
  | .branch, [condition, body], env => do
    match ← condition env with
    | .bool true => do
      let _ ← body env
      pure .unit
    | .bool false => pure .unit
    | _ => halt .stuck
  | .forEach name, [source, body], env => do
    match ← source env with
    | .range start stop => forFrom (fun i => body ((name, .number i) :: env)) start (stop - start)
    | _ => halt .stuck
  | _, _, _ => halt .stuck

/-- What is bound to a name. A mutable binding has a place of its own. -/
def bindName (isMutable : Bool) (name : String) (value : Bindings → Exec Datum) (env : Bindings) :
    Exec Bindings := do
  let d ← value env
  if isMutable then
    let v ← d.toValue
    let s ← state
    modify fun s => { s with slots := s.slots ++ [v] }
    pure ((name, .place (.slot s.slots.length)) :: env)
  else pure ((name, d) :: env)

/-- What is declared inside of a procedure binds nothing. What a macro does is not known. -/
def machine (c : Context) : Interpretation Exec Bindings Datum where
  unit := .unit
  reach d env :=
    match d with
    | .invocation _ _ => halt .stuck
    | _ => pure env
  hoist _ env := pure env
  form := form c
  control := control
  bind isMutable name _ := bindName isMutable name

/-! ### Running a file -/

/-- The names of the parameters behind the receiver. -/
def parameterNames (signature : Signature) : List String :=
  signature.parameters.filterMap fun
    | .typed name _ => some name
    | .receiver _ => none

/-- A function on its own that is declared under a name. -/
def functionOf (name : String) :
    Program.Declaration (Bindings → Exec Datum) → Option (Signature × (Bindings → Exec Datum))
  | .function signature body => if signature.name = name then some (signature, body) else none
  | _ => none

/-- A function that is declared as one of a record. -/
def procedureOf (record name : String) :
    Program.Declaration (Bindings → Exec Datum) → Option (Signature × (Bindings → Exec Datum))
  | .methods none (.path path []) functions =>
    if path = segments record then functions.find? (·.1.name = name) else none
  | _ => none

/-- What the helper of a file does. -/
def padding (c : Context) (items : List Item) (arguments : List Datum) : Exec Datum :=
  match ((machine c).outlines items).findSome? (functionOf "write_padded") with
  | some (signature, body) => handle (body ((parameterNames signature).zip arguments)) leave
  | none => halt .stuck

/-- The procedures of a record of the registry, where those of other records are given. The helper
calls no helper. -/
def contextOf (r : Registry) (items : List Item) (e : RecordEntry)
    (read : String → Value → List UInt8 → Except Halt (Reading Value))
    (write : String → Value → Nat → Except Halt Writing) : Context :=
  let alone : Context :=
    { type? := fun id => (e.fields.find? (·.decl.id == id)).map (·.decl.type)
      default? := fun type =>
        let v := initialOf (initial r) type
        if v.fits r type then some v else none
      read
      write
      pad := fun _ => halt .stuck }
  { alone with pad := padding alone items }

/-- What a computation ends with, unless the machine halts. -/
def completed {α : Type} : Except Stop α × Machine → Except Halt (α × Machine)
  | (.ok a, s) => .ok (a, s)
  | (.error (.halted h), _) => .error h
  | (.error _, _) => .error .stuck

/-- Runs a procedure of a file with its receiver and buffer, up to its result. -/
def runProcedure (c : Context) (items : List Item) (record name : String) (s : Machine) :
    Except Halt (Option Failure × Machine) :=
  match ((machine c).outlines items).findSome? (procedureOf record name) with
  | none => .error .stuck
  | some (signature, body) =>
    let env := ("self", .place .self) :: (parameterNames signature).zip [.buffer]
    match completed (handle (body env) leave s) with
    | .ok (.result failure, s) => .ok (failure, s)
    | .ok _ => .error .stuck
    | .error h => .error h

def Failure.toDecode? : Failure → Option DecodeError
  | fault f => some (.fault f)
  | decode e => some e
  | encode _ => none

def Failure.toEncode? : Failure → Option EncodeError
  | fault f => some (.fault f)
  | encode e => some e
  | decode _ => none

/-- The error of a procedure, where there is one it is of the right kind. -/
def errorOf {ε : Type} (kind : Failure → Option ε) : Option Failure → Except Halt (Option ε)
  | none => .ok none
  | some f =>
    match kind f with
    | some e => .ok (some e)
    | none => .error .stuck

/-- What a reading procedure has made of its receiver and its input. -/
def readingOf : Option Failure × Machine → Except Halt (Reading Value)
  | (failure, s) => (errorOf Failure.toDecode? failure).map fun e => ⟨.record s.fields, s.input, e⟩

/-- What a writing procedure has put out. -/
def writingOf : Option Failure × Machine → Except Halt Writing
  | (failure, s) => (errorOf Failure.toEncode? failure).map fun e => ⟨s.output, e⟩

/-- Runs the reading procedures of a file. Variable-length integers bring their own. -/
def runRead (r : Registry) (items : List Item) :
    Nat → String → Value → List UInt8 → Except Halt (Reading Value)
  | 0, _, _, _ => .error .endless
  | depth + 1, path, v, bytes =>
    match r.find? path with
    | some e =>
      let c := contextOf r items e (runRead r items depth) fun _ _ _ => .error .stuck
      runProcedure c items path "read_binary" { fields := v.asFields, input := bytes } >>= readingOf
    | none =>
      if path = Varint.path then do
        match ← completed (takeGroups Varint.maxLength 0 0 { fields := [], input := bytes }) with
        | (.ok n, s) => pure ⟨.integer n, s.input, none⟩
        | (.error e, s) => pure ⟨v, s.input, some e⟩
      else .error .stuck

/-- Runs the writing procedures of a file. -/
def runWrite (r : Registry) (items : List Item) :
    Nat → String → Value → Nat → Except Halt Writing
  | 0, _, _, _ => .error .endless
  | depth + 1, path, v, room =>
    match r.find? path with
    | some e =>
      let c := contextOf r items e (fun _ _ _ => .error .stuck) (runWrite r items depth)
      runProcedure c items path "write_binary" { fields := v.asFields, room } >>= writingOf
    | none =>
      if path = Varint.path then do
        let (error, s) ← completed (putVarint v.word { fields := [], room })
        pure ⟨s.output, error⟩
      else .error .stuck

end WireRecords.Execution
