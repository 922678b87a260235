import WireRecords.Text.Quoted
import WireRecords.Width

/-!
# Faults and errors of codecs

A procedure that breaks off is stopped at the boundary of its record, where what happened becomes an
error like any other.
-/
namespace WireRecords.Codec

/-- How a procedure can break off. -/
inductive Panic where
  | arithmetic (fault : ArithmeticFault)
  | indexOutOfBounds (length index : Nat)
  | missingValue
  | text (message : String)
  /-- Nothing is known about the cause. -/
  | unknown
deriving DecidableEq, Repr, Inhabited

def Panic.message : Panic → String
  | arithmetic fault => fault.message
  | indexOutOfBounds length index =>
    s!"index out of bounds: the len is {length} but the index is {index}"
  | missingValue => "called `Option::unwrap()` on a `None` value"
  | text message => message
  | unknown => "unknown panic"

/-- What is left of a procedure that broke off. -/
structure Fault where
  record : String
  message : String
deriving DecidableEq, Repr, Inhabited

/-- The fault of a procedure of `record` that broke off. -/
def Fault.ofPanic (record : String) (cause : Panic) : Fault := ⟨record, cause.message⟩

def Fault.text (f : Fault) : String := s!"{f.record}: recovered from fault: {f.message}"

/-- What a procedure comes to: it returns, or it breaks off. -/
inductive Body (α : Type) where
  | done (result : α)
  | panicked (cause : Panic)
deriving Repr

/-- Runs the body of a procedure of `record`; `ofFault` makes a fault one of its errors. -/
def recover {ε α : Type} (ofFault : Fault → ε) (record : String) :
    Body (Except ε α) → Except ε α
  | .done result => result
  | .panicked cause => .error (ofFault (.ofPanic record cause))

inductive DecodeError where
  | shortRead (record field : String) (actual expected : Nat)
  | contentMismatch (record field : String) (actual expected : List UInt8)
  /-- There is no receiver to decode into. -/
  | absentReceiver (record : String)
  | overflow (record field : String)
  | fault (fault : Fault)
deriving DecidableEq, Repr, Inhabited

/-- Bytes as a list of hexadecimal numbers. -/
def byteList (bs : List UInt8) : String :=
  "[" ++ ", ".intercalate (bs.map fun b => String.ofList (Text.hexByte b)) ++ "]"

def DecodeError.message : DecodeError → String
  | shortRead record field actual expected =>
    s!"{record}.{field}: short read: {actual}/{expected}"
  | contentMismatch record field actual expected =>
    s!"{record}.{field}: content mismatch: got " ++ byteList actual ++ ", expected " ++
      byteList expected
  | absentReceiver record => s!"{record}: decode into absent receiver"
  | overflow record field => s!"{record}.{field}: varint overflows a 64-bit integer"
  | fault f => f.text

inductive EncodeError where
  | shortWrite (record field : String) (actual expected : Nat)
  /-- Fewer bytes or elements are stored than the width asks for. -/
  | shortBuffer (record field : String) (actual expected : Nat)
  | fault (fault : Fault)
deriving DecidableEq, Repr, Inhabited

def EncodeError.message : EncodeError → String
  | shortWrite record field actual expected =>
    s!"{record}.{field}: short write: {actual}/{expected}"
  | shortBuffer record field actual expected =>
    s!"{record}.{field}: stored data holds {actual} bytes or elements, {expected} required"
  | fault f => f.text

end WireRecords.Codec
