import WireRecords.Text.Quoted

/-!
# Arguments

The command line as options and input files. An option that takes a value is followed by it; after
`--` everything is an input file. A call for help wins over what was read before it.
-/
namespace WireRecords.Cli

inductive OutputFormat where
  | json
  | rust
deriving DecidableEq, Repr, Inhabited

/-- Formats are named in any case. -/
def OutputFormat.ofName? (name : String) : Option OutputFormat :=
  match name.toLower with
  | "json" => some json
  | "rust" => some rust
  | _ => none

structure Options where
  showsVersion : Bool := false
  format : Option OutputFormat := none
  /-- Files that are scanned for declarations only. -/
  hosts : List String := []
  keepsScopes : Bool := false
  excluded : List String := []
  marker : Option String := none
  output : Option String := none
  inputs : List String := []
deriving DecidableEq, Repr, Inhabited

/-- Why a command line is refused. -/
inductive UsageError where
  | unrecognized (argument : String)
  | missingValue (option : String)
  | repeated (option value : String)
  | unknownFormat (option value : String)
  /-- An option after a call for help. -/
  | afterHelp
deriving DecidableEq, Repr, Inhabited

namespace UsageError

def message : UsageError → String
  | unrecognized argument => s!"Unrecognized argument: {argument}\n"
  | missingValue option => s!"No value provided for option '{option}'.\n"
  | repeated option value =>
    s!"Error parsing option '{option}' with value '{value}': duplicate values provided\n"
  | unknownFormat option value =>
    s!"Error parsing option '{option}' with value '{value}': " ++
      s!"could not parse {Text.quote value}, valid option are 'json', 'rust'.\n"
  | afterHelp => "Trailing arguments are not allowed after `help`."

end UsageError

namespace Options

/-- Options that stand alone. -/
def switch? (o : Options) : String → Option Options
  | "--version" => some { o with showsVersion := true }
  | "--no-flatten" => some { o with keepsScopes := true }
  | _ => none

/-- Options that take a value. -/
def valued : List String :=
  ["--output-format", "--host", "--exclude-record", "--prefix", "--output"]

/-- Sets an option that takes a value. Only files and records may be given more than once. -/
def assign (o : Options) (option value : String) : Except UsageError Options :=
  match option with
  | "--host" => .ok { o with hosts := o.hosts ++ [value] }
  | "--exclude-record" => .ok { o with excluded := o.excluded ++ [value] }
  | "--output-format" =>
    if o.format.isSome then .error (.repeated option value)
    else
      match OutputFormat.ofName? value with
      | some format => .ok { o with format := some format }
      | none => .error (.unknownFormat option value)
  | "--prefix" =>
    if o.marker.isSome then .error (.repeated option value)
    else .ok { o with marker := some value }
  | "--output" =>
    if o.output.isSome then .error (.repeated option value)
    else .ok { o with output := some value }
  | _ => .error (.unrecognized option)

end Options

/-- What is asked for. -/
inductive Request where
  | help
  | run (options : Options)
deriving DecidableEq, Repr, Inhabited

namespace Request

/-- Reads arguments, given those read before. -/
def ofArgumentsAfter (asksHelp : Bool) (o : Options) : List String → Except UsageError Request
  | [] => .ok (if asksHelp then help else run o)
  | argument :: rest =>
    if argument = "--help" || argument = "help" then ofArgumentsAfter true o rest
    else if argument = "--" then
      .ok (if asksHelp then help else run { o with inputs := o.inputs ++ rest })
    else if !argument.startsWith "-" then
      ofArgumentsAfter asksHelp { o with inputs := o.inputs ++ [argument] } rest
    else if asksHelp then .error .afterHelp
    else
      match o.switch? argument with
      | some o => ofArgumentsAfter false o rest
      | none =>
        if !Options.valued.contains argument then .error (.unrecognized argument)
        else
          match rest with
          | [] => .error (.missingValue argument)
          | value :: rest =>
            match o.assign argument value with
            | .error e => .error e
            | .ok o => ofArgumentsAfter false o rest

def ofArguments (arguments : List String) : Except UsageError Request :=
  ofArgumentsAfter false {} arguments

end Request

/-- How the program is used. -/
def usage : String :=
  "Usage: wire9 [--version] [--output-format <output-format>] [--host <host...>] [--no-flatten] " ++
  "[--exclude-record <exclude-record...>] [--prefix <prefix>] [--output <output>] [--] " ++
  "[<input_files...>]\n\n" ++
  "wire9 directive compiler. Generates binary decode and encode procedures for the records " ++
  "declared in `//wire9` comments.\n\n" ++
  "Positional Arguments:\n" ++
  "  input_files       host source files holding the directives.\n\n" ++
  "Options:\n" ++
  "  --version         print tool version and exit.\n" ++
  "  --output-format   generate output in this format (\"rust\", \"json\").\n" ++
  "  --host            additional host source files scanned for existing\n" ++
  "                    declarations.\n" ++
  "  --no-flatten      keep the per field scopes in the generated procedures.\n" ++
  "  --exclude-record  exclude records from the generated output.\n" ++
  "  --prefix          comment prefix introducing a directive (default \"//wire9\").\n" ++
  "  --output          write the generated code to this file instead of stdout.\n" ++
  "  --help, help      display usage information\n"

/-- What is shown of the version. -/
def versionNotice : String := "wire9 0.1.0\nCopyright (C) 2023 Google LLC\n"

end WireRecords.Cli
