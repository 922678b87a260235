import WireRecords.Files
import WireRecords.Host.SourceFile

/-!
# Scanning hosts

What the files of a host declare. Every file is read, also one that holds generated code; only
afterwards is it known not to collide.
-/
namespace WireRecords.Host

/-- Why the declarations of a host are not known. -/
inductive ScanError where
  | directory (path : String) (error : FileError)
  | unreadable (path : String) (error : FileError)
  /-- The file is no program. -/
  | malformed (path : String)
deriving DecidableEq, Repr, Inhabited

def ScanError.message : ScanError → String
  | directory path error => s!"failed to read directory '{path}': {error.message}"
  | unreadable path error => s!"failed to read host file '{path}': {error.message}"
  | malformed path => s!"failed to parse host file '{path}'"

/-- How the text at a path is found. -/
abbrev Lookup := String → Except FileError String

/-- The declarations of one file. -/
def scanFile (lookup : Lookup) (path : String) : Except ScanError (List Declaration) :=
  match lookup path with
  | .error e => .error (.unreadable path e)
  | .ok text =>
    match outlines? text with
    | none => .error (.malformed path)
    | some items => .ok (declarations path items)

/-- The declarations of files, in order. -/
def scan (lookup : Lookup) : List String → Except ScanError (List Declaration)
  | [] => .ok []
  | path :: paths =>
    match scanFile lookup path with
    | .error e => .error e
    | .ok ds =>
      match scan lookup paths with
      | .error e => .error e
      | .ok more => .ok (ds ++ more)

/-- The program files of a directory. Directories inside it are not entered. -/
def programFiles (fs : Files) (directory : String) : Except ScanError (List String) :=
  match fs.list directory with
  | .error e => .error (.directory directory e)
  | .ok names =>
    .ok ((names.filter (Path.extension? · = some "rs")).map (Path.below directory))

/-- Whether a file holds generated code. -/
def isGenerated (suffix path : String) : Bool :=
  match Path.fileName? path with
  | some name => name.endsWith suffix
  | none => false

/-- What the files declare that must not be generated again. -/
def collisions (lookup : Lookup) (suffix : String) (paths : List String) :
    Except ScanError (CollisionSet × Journal) :=
  match scan lookup paths with
  | .error e => .error e
  | .ok ds => .ok (CollisionSet.detect (isGenerated suffix) ds)

end WireRecords.Host
