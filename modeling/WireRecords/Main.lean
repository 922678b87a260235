import WireRecords.Cli.Run

/-!
# The program

Reads the files that a run asks for, and puts out what the run leads to.
-/
namespace WireRecords.Main

open Cli

def fileError : IO.Error → FileError
  | .noFileOrDirectory .. => .missing
  | .inappropriateType _ 20 _ => .notDirectory
  | .inappropriateType _ 21 _ => .isDirectory
  | .invalidArgument _ 36 _ => .tooLong
  | e => .other (toString e)

/-- The text of a file, or why there is none. -/
def load (path : String) : IO (Except FileError String) := do
  try
    return textOfBytes (← IO.FS.readBinFile path).toList
  catch e => return .error (fileError e)

/-- Writes a file; why it cannot be written. -/
def store (path text : String) : IO (Option FileError) := do
  try
    IO.FS.writeFile path text
    return none
  catch e => return some (fileError e)

def report (o : Outcome) : IO UInt32 := do
  IO.print o.stdout
  IO.eprint o.stderr
  return o.code.toUInt32

/-- Puts out a product. -/
def deliver (p : Product) : IO Outcome := do
  match p.file? with
  | none => return { stdout := p.shown }
  | some (path, text) =>
    match ← store path text with
    | none => return { stdout := p.shown }
    | some e => return (RunError.unwritable path e).outcome

def perform (request : Request) : IO Outcome := do
  let texts ← request.files.mapM fun path => return (path, ← load path)
  match request.product fun path => (texts.lookup path).getD (.error .missing) with
  | .error e => return e.outcome
  | .ok p => deliver p

end WireRecords.Main

open WireRecords in
def main (arguments : List String) : IO UInt32 := do
  match Cli.Request.ofArguments arguments with
  | .error e => Main.report (Cli.RunError.usage e).outcome
  | .ok request => Main.report (← Main.perform request)
