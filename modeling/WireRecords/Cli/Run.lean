import WireRecords.Cli.Arguments
import WireRecords.Diagnostic.Snippet
import WireRecords.Export
import WireRecords.Host.Scan
import WireRecords.Program.Generation
import WireRecords.Program.Printer

/-!
# Runs of the program

A run reads the files that the arguments name, compiles their directives, and puts out the generated
text. Nothing is put out before everything has succeeded, so a failed run leaves all files alone.
-/
namespace WireRecords.Cli

/-- Why a run fails. -/
inductive RunError where
  | usage (error : UsageError)
  | noInput
  | unreadable (path : String) (error : FileError)
  | scan (error : Host.ScanError)
  | compilation (sources : List Source) (diagnostic : Diagnostic)
  | generation (sources : List Source) (diagnostic : Diagnostic)
  /-- The registry does not know what the records hold. -/
  | unlisted (error : RegistryError)
  | unwritable (path : String) (error : FileError)
  | overflow (fault : ArithmeticFault)
deriving DecidableEq, Repr, Inhabited

/-- What a run ends with. -/
structure Outcome where
  code : Nat := 0
  stdout : String := ""
  stderr : String := ""
deriving DecidableEq, Repr, Inhabited

namespace RunError

/-- A failure with a reason that is printed in quotes. -/
def because (reason : String) (before : String := "") : Outcome :=
  { code := 1, stderr := before ++ s!"Error: {Text.quote reason}\n" }

def outcome : RunError → Outcome
  | usage error =>
    { code := 1, stderr := error.message ++ "\nRun wire9 --help for more information.\n" }
  | noInput => because "No input file is specified"
  | unreadable path error => because s!"could not read {path}: {error.message}"
  | scan error => because error.message
  | compilation sources diagnostic => because "Compilation failed" (diagnostic.render sources)
  | generation sources diagnostic => because "Generation failed" (diagnostic.render sources)
  | unlisted error => because error.diagnostic.message
  | unwritable path error => because s!"could not write {path}: {error.message}"
  | overflow fault => { code := 101, stderr := fault.message ++ "\n" }

end RunError

namespace Options

def config (o : Options) : Config :=
  let standard : Config := {}
  { standard with
    marker := o.marker.getD standard.marker
    flatten := !o.keepsScopes
    excluded := o.excluded }

/-- The files that a run reads. -/
def files (o : Options) : List String := o.inputs ++ o.hosts

/-- What a single file declares. -/
def collisions (o : Options) (lookup : Host.Lookup) (path : String) :
    Except RunError CollisionSet :=
  match Host.collisions lookup o.config.generatedSuffix [path] with
  | .error e => .error (.scan e)
  | .ok (set, _) => .ok set

/-- The unit of an input file. -/
def inputUnit (o : Options) (lookup : Host.Lookup) (path : String) :
    Except RunError CompilationUnit :=
  match lookup path with
  | .error e => .error (.unreadable path e)
  | .ok text =>
    match o.collisions lookup path with
    | .error e => .error e
    | .ok set => .ok (.ofSource o.config path text set)

/-- The unit of a file that is scanned only. -/
def hostUnit (o : Options) (lookup : Host.Lookup) (path : String) :
    Except RunError CompilationUnit :=
  match o.collisions lookup path with
  | .error e => .error e
  | .ok set => .ok ⟨path, [], set⟩

/-- The units of all files, those of the input files first. -/
def units (o : Options) (lookup : Host.Lookup) : Except RunError (List CompilationUnit) :=
  match o.inputs.mapM (o.inputUnit lookup) with
  | .error e => .error e
  | .ok inputs =>
    match o.hosts.mapM (o.hostUnit lookup) with
    | .error e => .error e
    | .ok hosts => .ok (inputs ++ hosts)

/-- The text of a compilation in the format asked for. -/
def textOf (o : Options) (p : Progress) : Except RunError String :=
  match o.format.getD .rust with
  | .json =>
    match p.compilation.exportRecords with
    | .ok doc => .ok doc.text
    | .error e => .error (.unlisted e)
  | .rust =>
    match (Program.generate p.compilation o.config.flatten).2 with
    | .ok items => .ok (Program.sourceText items)
    | .error e => .error (.generation p.sources e.diagnostic)

/-- The text generated for the input files. -/
def generate (o : Options) (lookup : Host.Lookup) : Except RunError String :=
  if o.inputs.isEmpty then .error .noInput
  else
    match o.units lookup with
    | .error e => .error e
    | .ok units =>
      match compile o.config units with
      | .error (p, .rejected d) => .error (.compilation p.sources d)
      | .error (_, .overflow fault) => .error (.overflow fault)
      | .ok p => o.textOf p

end Options

/-- What a run puts out. -/
inductive Product where
  /-- Text to be shown as it is. -/
  | notice (text : String)
  /-- Generated text, and the file it is written to. Without a file it is shown as a line. -/
  | generated (text : String) (file : Option String)
deriving DecidableEq, Repr, Inhabited

def Product.file? : Product → Option (String × String)
  | notice _ => none
  | generated text file => file.map (·, text)

/-- What is shown of a product. -/
def Product.shown : Product → String
  | notice text => text
  | generated text none => text ++ "\n"
  | generated _ (some _) => ""

/-- What a request asks for, given the texts of files. -/
def Request.product (lookup : Host.Lookup) : Request → Except RunError Product
  | help => .ok (.notice (usage ++ "\n"))
  | run o =>
    if o.showsVersion then .ok (.notice versionNotice)
    else
      match o.generate lookup with
      | .error e => .error e
      | .ok text => .ok (.generated text o.output)

/-- The files that a request reads. -/
def Request.files : Request → List String
  | help => []
  | run o => if o.showsVersion then [] else o.files

/-- Puts out a product in a working directory. -/
def Product.deliver (p : Product) (fs : Files) : Outcome × Files :=
  match p.file? with
  | none => ({ stdout := p.shown }, fs)
  | some (path, text) =>
    match fs.write path (bytesOfText text) with
    | .ok fs => ({ stdout := p.shown }, fs)
    | .error e => ((RunError.unwritable path e).outcome, fs)

/-- A run in a working directory, with the files that it leaves. -/
def run (arguments : List String) (fs : Files) : Outcome × Files :=
  match Request.ofArguments arguments with
  | .error e => ((RunError.usage e).outcome, fs)
  | .ok request =>
    match request.product fs.readText with
    | .error e => (e.outcome, fs)
    | .ok p => p.deliver fs

end WireRecords.Cli
