import SchemaCompiler.Batch.Run
import SchemaCompiler.CommandLine.Arguments
import SchemaCompiler.Report.Encoder
import SchemaCompiler.Settings

/-!
# The program

What a command line does and prints. Options count more than the settings file, and both directories
have to be known before anything is read.
-/

namespace SchemaCompiler

namespace CommandLine

/-! ## Texts -/

def programName : String := "schemac"

def programVersion : String := "0.1.0"

/-- The settings file that is read where none is named. -/
def settingsFile : String := programName ++ ".toml"

def usage : List String :=
  ["Usage: " ++ programName ++ " [OPTIONS] <COMMAND>",
    "",
    "Commands:",
    "  sql         Emit one script for each database of a schema",
    "  descriptor  Emit one descriptor module for each schema",
    "",
    "Options:",
    "  -c, --config <FILE>    Settings file (default: " ++ settingsFile ++ ")",
    "  -v, --verbose          Say what is done",
    "      --report <FILE>    Write a report of the run",
    "  -i, --input <DIR>      Directory of schema documents (behind the command)",
    "  -o, --output <DIR>     Directory for emitted files (behind the command)",
    "  -h, --help             Print help",
    "  -V, --version          Print version"]

/-- What a run leaves behind on the terminal. -/
structure Transcript where
  exit : Nat
  output : List String := []
  errors : List String := []
deriving DecidableEq, Repr

/-- The end of a run that could not be done. -/
def Transcript.failed (notes : List String) (message : String) : Transcript :=
  { exit := 1, errors := notes ++ ["Error: " ++ message] }

/-! ## Summary -/

def rule : String := String.ofList (List.replicate 60 '=')

/-- The code that a failure is shown with. -/
def failureCode : Option ErrorKind → String
  | some kind => kind.code
  | none => "IO_ERROR"

def entryLines (e : Report.Entry) : List String :=
  match e.outcome with
  | .compiled artifacts =>
    ("  ✓ " ++ e.schema) ::
      artifacts.map fun a => "      " ++ a.file ++ " (" ++ toString a.bytes ++ " bytes)"
  | .skipped reason => ["  - " ++ e.schema ++ ": " ++ reason]
  | .failed kind message location =>
    ("  ✗ " ++ e.schema ++ " [" ++ failureCode kind ++ "] " ++ message) ::
      (match location with
        | some location => ["      at " ++ location.text]
        | none => [])

def summary (r : Report) : List String :=
  ["", rule, programName ++ " " ++ r.mode ++ " report", rule, ""] ++
  r.files.flatMap entryLines ++
  ["", "Summary:",
    "  Total:    " ++ toString r.summary.total,
    "  Compiled: " ++ toString r.summary.compiled,
    "  Skipped:  " ++ toString r.summary.skipped,
    "  Failed:   " ++ toString r.summary.failed,
    "", rule]

/-- The lines of a text, each of which ends with a line feed but for the last. -/
def textLines (text : String) : List String :=
  (Text.splitBy (· = '\n') text.toList).map String.ofList

/-! ## Running -/

variable {m : Type → Type} [Monad m] [FileSystem m] [Json.RealReader]

/-- The settings of the file that is named, or else of the usual one where it exists. -/
def loadSettings (named : Option String) : m (Except String Settings) := do
  match named with
  | some path =>
    match ← Settings.load path with
    | .error _ => return .error ("Failed to load config from " ++ path)
    | .ok s => return .ok s
  | none =>
    if ← FileSystem.pathExists settingsFile then
      match ← Settings.load settingsFile with
      | .error _ => return .error ("Failed to load " ++ settingsFile)
      | .ok s => return .ok s
    else
      return .ok {}

/-- The value of an option; behind the mode it counts more than in front of it. -/
def chosen (front behind : Given) (o : ValueOption) : Option String :=
  (behind.values.lookup o).or (front.values.lookup o)

def directories (behind : Given) (s : Settings) : Except String (String × String) :=
  match (behind.values.lookup .input).or s.inputDirectory with
  | none =>
    .error ("No input directory: pass --input or set input_dir in " ++ settingsFile)
  | some input =>
    match (behind.values.lookup .output).or s.outputDirectory with
    | none => .error ("No output directory: pass --output or set output_dir in " ++ settingsFile)
    | some output => .ok (input, output)

/-- Writes the report where one is asked for, and gives what is said about it. -/
def saveReport (path : Option String) (verbose : Bool) (r : Report) :
    m (Except String (List String)) := do
  match path with
  | none => return .ok []
  | some path =>
    match ← FileSystem.write path r.text with
    | .error _ => return .error ("Failed to write report to " ++ path)
    | .ok () => return .ok (if verbose then ["Report saved to: " ++ path] else [])

def runMode (timestamp : String) (front : Given) (mode : Mode) (behind : Given) :
    m Transcript := do
  match ← loadSettings (chosen front behind .config) with
  | .error message => return .failed [] message
  | .ok settings =>
    match directories behind settings with
    | .error message => return .failed [] message
    | .ok (input, output) =>
      let verbose := front.verbose || behind.verbose
      let notes :=
        if verbose then ["Compiling " ++ mode.token ++ ": " ++ input ++ " -> " ++ output] else []
      match ← Batch.run mode settings.emission input output timestamp with
      | .error _ => return .failed notes ("Failed to compile schemas from " ++ input)
      | .ok report =>
        match ← saveReport (chosen front behind .report) verbose report with
        | .error message => return .failed notes message
        | .ok more =>
          return {
            exit := if report.hasFailures then 1 else 0
            output := (summary report).flatMap textLines
            errors := notes ++ more }

/-- Does what a command line asks for. Exit code 2 says that it was used wrongly. -/
def run (timestamp : String) (arguments : List String) : m Transcript := do
  match parse? arguments with
  | none => return { exit := 2, errors := usage }
  | some .help => return { exit := 0, output := usage }
  | some .version => return { exit := 0, output := [programName ++ " " ++ programVersion] }
  | some (.run front mode behind) => runMode timestamp front mode behind

end CommandLine

end SchemaCompiler
