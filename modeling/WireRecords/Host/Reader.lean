import WireRecords.Host.Outline
import WireRecords.Program.Fault
import WireRecords.Program.Token

/-!
# Reading tokens

A reader takes tokens from the front of a list and passes them on. Marks are passed on as the
operators they are read as, whatever other marks stand next to them.
-/
namespace WireRecords.Host

open Program (Token Delimiter keywords isReserved)

/-- The tokens that are still to be read, and those passed on, the last first. -/
structure Cursor where
  ahead : List Token
  passed : List Token := []
deriving Inhabited

abbrev Reader := StateT Cursor Option

/-! ## Looking ahead -/

/-- What follows an operator. -/
def afterMarks? : List Char → List Token → Option (List Token)
  | [], ts => some ts
  | [c], .punct d _ :: ts => if c = d then some ts else none
  | c :: cs, .punct d true :: ts => if c = d then afterMarks? cs ts else none
  | _, _ => none

def startsOp (s : String) (ts : List Token) : Bool := (afterMarks? s.toList ts).isSome

def startsWord (w : String) : List Token → Bool
  | .ident n :: _ => n == w
  | _ => false

/-- A name that is no keyword. -/
def isPlainName (n : String) : Bool := !keywords.contains n && !isReserved n

def startsName : List Token → Bool
  | .ident n :: _ => isPlainName n
  | _ => false

def startsGroup (d : Delimiter) : List Token → Bool
  | .group e _ :: _ => d = e
  | _ => false

def startsLifetime : List Token → Bool
  | .punct '\'' _ :: .ident _ :: _ => true
  | _ => false

/-- Numbers may have a sign. -/
def startsLiteral : List Token → Bool
  | .literal _ :: _ => true
  | .ident n :: _ => n == "true" || n == "false"
  | .punct '-' _ :: .literal s :: _ => (s.toList.head?.map Char.isDigit).getD false
  | _ => false

/-- A text in quotes, neither bytes nor one that is terminated. -/
def startsText : List Token → Bool
  | .literal s :: _ => s.startsWith "\"" || s.startsWith "r"
  | _ => false

/-- A keyword that starts a path, or a name. -/
def startsSegment (ts : List Token) : Bool :=
  startsName ts ||
    match ts with
    | .ident n :: _ => Program.pathKeywords.contains n
    | _ => false

/-- The tokens after the first one; a lifetime counts as one. -/
def next : List Token → List Token
  | .punct '\'' _ :: .ident _ :: ts => ts
  | _ :: ts => ts
  | [] => []

namespace Reader

def sees (p : List Token → Bool) : Reader Bool := do return p (← get).ahead

def seesOp (s : String) : Reader Bool := sees (startsOp s)

def seesWord (w : String) : Reader Bool := sees (startsWord w)

def seesGroup (d : Delimiter) : Reader Bool := sees (startsGroup d)

def atEnd : Reader Bool := sees List.isEmpty

/-! ## Taking tokens -/

def require (b : Bool) : Reader Unit := if b then pure () else failure

/-- Takes a token as it is. -/
def take : Reader Token := do
  match ← get with
  | ⟨t :: ts, passed⟩ =>
    set (Cursor.mk ts (t :: passed))
    return t
  | _ => failure

def op (s : String) : Reader Unit := do
  let ⟨ahead, passed⟩ ← get
  match afterMarks? s.toList ahead with
  | some rest => set (Cursor.mk rest ((Token.operator s).reverse ++ passed))
  | none => failure

def word (w : String) : Reader Unit := do
  require (← seesWord w)
  discard take

def anyName : Reader String := do
  match ← take with
  | .ident n => return n
  | _ => failure

def name : Reader String := do
  let n ← anyName
  require (isPlainName n)
  return n

def lifetime : Reader Unit := do
  require (← sees startsLifetime)
  discard take
  discard take

/-- A literal, which may have a sign. -/
def literal : Reader Unit := do
  require (← sees startsLiteral)
  if ← seesOp "-" then op "-"
  discard take

/-- Takes a group as it is. -/
def group (d : Delimiter) : Reader Unit := do
  require (← seesGroup d)
  discard take

/-- Reads all tokens of a group. -/
def inside {α : Type} (d : Delimiter) (p : Reader α) : Reader α := do
  match ← get with
  | ⟨.group e body :: rest, passed⟩ =>
    require (d = e)
    match p.run ⟨body, []⟩ with
    | some (a, ⟨[], inner⟩) =>
      set (Cursor.mk rest (.group d inner.reverse :: passed))
      return a
    | _ => failure
  | _ => failure

/-- Reads without passing anything on; the tokens that would have been passed on. -/
def aside {α : Type} (p : Reader α) : Reader (α × List Token) := do
  let ⟨ahead, passed⟩ ← get
  match p.run ⟨ahead, []⟩ with
  | some (a, ⟨rest, inner⟩) =>
    set (Cursor.mk rest passed)
    return (a, inner.reverse)
  | none => failure

/-- Passes tokens on that are not taken. -/
def pass (ts : List Token) : Reader Unit :=
  modify fun c => { c with passed := ts.reverse ++ c.passed }

/-- Reads something; if it is of an unusual form, its tokens are passed on as they are written. -/
def asWritten {α : Type} (p : Reader (α × Bool)) : Reader α := do
  let ⟨ahead, passed⟩ ← get
  let (a, isUnusual) ← p
  if isUnusual then
    let rest := (← get).ahead
    set (Cursor.mk rest ((ahead.take (ahead.length - rest.length)).reverse ++ passed))
  return a

/-! ## Combining readers -/

def whenever (condition : Reader Bool) (p : Reader Unit) : Reader Unit := do
  if ← condition then p

def optionalWord (w : String) : Reader Unit := whenever (seesWord w) (word w)

def optionalOp (s : String) : Reader Unit := whenever (seesOp s) (op s)

/-- Reads while a condition holds. Every turn takes a token, so there are no more turns than
tokens. -/
def repeatWhile (condition : Reader Bool) (p : Reader Unit) : Reader Unit := do
  go ((← get).ahead.length + 1)
where
  go : Nat → Reader Unit
    | 0 => failure
    | n + 1 => do
      if ← condition then
        p
        go n

/-- Reads items up to the end of a group. -/
def untilEnd {α : Type} (p : Reader (List α)) : Reader (List α) := do
  go ((← get).ahead.length + 1)
where
  go : Nat → Reader (List α)
    | 0 => failure
    | n + 1 => do
      if ← atEnd then return []
      let a ← p
      return a ++ (← go n)

/-- Reads a list with commas up to where `stop` holds. The last comma may be missing. -/
def commaList (stop : Reader Bool) (p : Reader Unit) : Reader Unit := do
  go ((← get).ahead.length + 1)
where
  go : Nat → Reader Unit
    | 0 => failure
    | n + 1 => do
      if ← stop then return
      p
      if ← stop then return
      op ","
      go n

/-- A member of a list with commas. -/
structure Entry where
  isLifetime : Bool
  tokens : List Token
  /-- The comma after it, if there is one. -/
  comma : List Token := []
deriving Inhabited

/-- Reads the members of a list with commas up to where `stop` holds, given a reader that finds
whether a member is a lifetime. -/
def entries (stop p : Reader Bool) : Reader (List Entry) := do
  go ((← get).ahead.length + 1)
where
  go : Nat → Reader (List Entry)
    | 0 => failure
    | n + 1 => do
      if ← stop then return []
      let (isLifetime, tokens) ← aside p
      if ← stop then return [{ isLifetime, tokens }]
      let ((), comma) ← aside (op ",")
      return { isLifetime, tokens, comma } :: (← go n)

/-- Reads a list with commas, and passes its lifetimes on before its other members. -/
def lifetimesFirst (stop p : Reader Bool) : Reader Unit := do
  let (lifetimes, others) := (← entries stop p).partition (·.isLifetime)
  let isJoined := lifetimes.getLast?.any (·.comma.isEmpty) && !others.isEmpty
  pass (lifetimes.flatMap fun e => e.tokens ++ e.comma)
  if isJoined then pass (Token.operator ",")
  pass (others.flatMap fun e => e.tokens ++ e.comma)

/-- Reads a mark and what it introduces, which are passed on only if there is something. -/
def introduced (mark p : Reader Unit) (close : Reader Unit := pure ()) : Reader Unit := do
  let before := (← get).passed
  mark
  let marked := (← get).passed.length
  p
  let isEmpty := (← get).passed.length == marked
  close
  if isEmpty then modify ({ · with passed := before })

/-- A group of items with commas. -/
def commaGroup (d : Delimiter) (p : Reader Unit) : Reader Unit := inside d (commaList atEnd p)

end Reader

end WireRecords.Host
