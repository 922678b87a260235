/-!
# Files

A working directory: files with the names on the way to them. A directory exists as long as a file
is below it, and so do the directories above the working directory. Paths are resolved name by
name, so that `a/..` needs a directory `a`.
-/
namespace WireRecords

/-- Why a file cannot be read or written. -/
inductive FileError where
  | missing
  | notDirectory
  | isDirectory
  /-- A name on the path, or the path itself, is too long. -/
  | tooLong
  /-- A path holds a character that no name may hold. -/
  | nullCharacter
  /-- The bytes are no text. -/
  | notText
  /-- Any other reason, in the words of the system. -/
  | other (reason : String)
deriving DecidableEq, Repr, Inhabited

namespace FileError

def message : FileError → String
  | missing => "No such file or directory (os error 2)"
  | notDirectory => "Not a directory (os error 20)"
  | isDirectory => "Is a directory (os error 21)"
  | tooLong => "File name too long (os error 36)"
  | nullCharacter => "file name contained an unexpected NUL byte"
  | notText => "stream did not contain valid UTF-8"
  | other reason => reason

end FileError

/-! ## Paths -/

namespace Path

/-- The names on a path. -/
def names (path : String) : List String := (path.splitOn "/").filter (· ≠ "")

/-- Where a path starts: in the working directory, or at the root of all directories. -/
def start (path : String) : List String := if path.startsWith "/" then ["/"] else []

/-- A slash at the end asks for a directory. -/
def isDirectory (path : String) : Bool := path.endsWith "/"

/-- The most bytes that a name has. -/
def nameLimit : Nat := 255

/-- The most bytes that a path has. -/
def limit : Nat := 4095

/-- Refuses what cannot be a path. -/
def check (path : String) : Except FileError Unit :=
  if path.any (· = '\x00') then .error .nullCharacter
  else if path.isEmpty then .error .missing
  else if limit < path.utf8ByteSize then .error .tooLong
  else .ok ()

/-- The path of a name below a directory. -/
def below (directory name : String) : String :=
  if name.startsWith "/" then name
  else if directory.isEmpty || directory.endsWith "/" then directory ++ name
  else directory ++ "/" ++ name

/-- The last name of a path, if it names something below a directory. -/
def fileName? (path : String) : Option String :=
  match (path.splitOn "/").filter (fun n => n ≠ "" && n ≠ ".") |>.getLast? with
  | some ".." => none
  | name? => name?

/-- What follows the last point of a name. A point at the start does not count. -/
def extension? (name : String) : Option String :=
  match name.splitOn "." with
  | [_] => none
  | ["", _] => none
  | parts => parts.getLast?

end Path

/-- Files with the names on the way to them. -/
structure Files where
  entries : List (List String × List UInt8) := []
deriving DecidableEq, Repr, Inhabited

namespace Files

def ofList (files : List (String × List UInt8)) : Files :=
  ⟨files.map fun (path, bytes) => (Path.names path, bytes)⟩

/-- What is found at a place. -/
inductive Node where
  | file (bytes : List UInt8)
  | directory
deriving DecidableEq, Repr, Inhabited

/-- A place above all that is known, which can only be a directory. -/
def isAbove (place : List String) : Bool := place.all (· = "..") || place = ["/"]

/-- The directory that holds a place. The root holds itself. -/
def parent (place : List String) : List String :=
  if place = ["/"] then place
  else if isAbove place then place ++ [".."]
  else place.dropLast

def node? (fs : Files) (place : List String) : Option Node :=
  match fs.entries.lookup place with
  | some bytes => some (.file bytes)
  | none =>
    if isAbove place || fs.entries.any (place.isPrefixOf ·.1) then some .directory else none

/-- The place that names lead to, from a directory, and what is found there. -/
def resolve (fs : Files) (place : List String) : List String → Except FileError (List String × Node)
  | [] => .ok (place, .directory)
  | "." :: names => fs.resolve place names
  | ".." :: names => fs.resolve (parent place) names
  | name :: names =>
    let next := place ++ [name]
    if Path.nameLimit < name.utf8ByteSize then .error .tooLong
    else
      match fs.node? next with
      | none => .error .missing
      | some .directory => fs.resolve next names
      | some (.file bytes) =>
        if names.isEmpty then .ok (next, .file bytes) else .error .notDirectory

/-- The place of a path, and what is found there. -/
def find (fs : Files) (path : String) : Except FileError (List String × Node) := do
  Path.check path
  match ← fs.resolve (Path.start path) (Path.names path) with
  | (place, .file bytes) =>
    if Path.isDirectory path then .error .notDirectory else .ok (place, .file bytes)
  | (place, .directory) => .ok (place, .directory)

def contains (fs : Files) (path : String) : Bool :=
  match fs.find path with
  | .ok _ => true
  | .error _ => false

def read (fs : Files) (path : String) : Except FileError (List UInt8) :=
  match fs.find path with
  | .ok (_, .file bytes) => .ok bytes
  | .ok (_, .directory) => .error .isDirectory
  | .error e => .error e

end Files

/-- The text that bytes stand for. -/
def textOfBytes (bytes : List UInt8) : Except FileError String :=
  match String.fromUTF8? ⟨bytes.toArray⟩ with
  | some text => .ok text
  | none => .error .notText

def bytesOfText (text : String) : List UInt8 := text.toUTF8.toList

namespace Files

def readText (fs : Files) (path : String) : Except FileError String :=
  match fs.read path with
  | .ok bytes => textOfBytes bytes
  | .error e => .error e

/-- The names in a directory, in order. -/
def list (fs : Files) (directory : String) : Except FileError (List String) :=
  match fs.find directory with
  | .ok (place, .directory) =>
    let names := fs.entries.filterMap fun (names, _) =>
      if place.isPrefixOf names then names[place.length]? else none
    .ok (names.eraseDups.mergeSort (fun a b => decide (a ≤ b)))
  | .ok (_, .file _) => .error .notDirectory
  | .error e => .error e

/-- Replaces the file at a place, or adds it. -/
def put (fs : Files) (place : List String) (bytes : List UInt8) : Files :=
  ⟨fs.entries.filter (·.1 ≠ place) ++ [(place, bytes)]⟩

/-- The directory that names lead to. -/
def resolveDirectory (fs : Files) (start names : List String) :
    Except FileError (List String) := do
  match ← fs.resolve start names with
  | (place, .directory) => .ok place
  | (_, .file _) => .error .notDirectory

/-- Writes a file. The directory it belongs to has to exist. -/
def write (fs : Files) (path : String) (bytes : List UInt8) : Except FileError Files := do
  Path.check path
  let names := Path.names path
  let directory ← fs.resolveDirectory (Path.start path) names.dropLast
  match names.getLast? with
  | none | some "." | some ".." => .error .isDirectory
  | some name =>
    let place := directory ++ [name]
    if Path.isDirectory path then .error .isDirectory
    else if Path.nameLimit < name.utf8ByteSize then .error .tooLong
    else if fs.node? place = some .directory then .error .isDirectory
    else .ok (fs.put place bytes)

end Files

end WireRecords
