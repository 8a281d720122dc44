import ExportSurface.CommandLine.Arguments
import ExportSurface.CommandLine.LogFilter
import ExportSurface.FileTree
import ExportSurface.Json.Printer
import ExportSurface.Manifest
import ExportSurface.Pass
import ExportSurface.Schema.Decode
import ExportSurface.Schema.Encode
/-!
# Running a command

What a command prints, logs and writes. The manifest is looked for in the
working directory and above before anything else is done, so a broken one
ends every command. What goes wrong later ends the run with one line that
names, from the outside in, what was being done.
-/

namespace ExportSurface

/-! ## Manifests in directories -/

namespace Manifest

variable {m : Type → Type} [Monad m]

/-- The manifest in a directory or the nearest one above it, with where it was
found, or the path of one that is no manifest. A path has no more directories
above it than characters. -/
def findFrom (files : Files m) : Nat → String → m (Except String (Option (Manifest × String)))
  | 0, _ => pure (.ok none)
  | fuel + 1, directory => do
    let candidate := Text.joinPath directory fileName
    match ← files.look candidate with
    | .file content =>
      match parse? content with
      | some manifest => pure (.ok (some (manifest, directory)))
      | none => pure (.error candidate)
    | _ =>
      match Text.parentPath? directory with
      | some parent => findFrom files fuel parent
      | none => pure (.ok none)

/-- The manifest that applies in a directory. -/
def find (files : Files m) (directory : String) :
    m (Except String (Option (Manifest × String))) :=
  findFrom files (directory.length + 1) directory

/-- What is said of a file that is no manifest. -/
def failure (path : String) : String := "parsing " ++ path

end Manifest

/-! ## Reports -/

/-- How a report is printed. -/
inductive ReportFormat where
  | human
  | json
deriving DecidableEq, Repr, Inhabited

namespace ReportFormat

/-- The format of a name, `human` where none is given. -/
def ofName : Option String → Except String ReportFormat
  | none => .ok .human
  | some name =>
    if name = "human" then .ok .human
    else if name = "json" then .ok .json
    else .error ("unknown report format: '" ++ name ++ "'. Choose: human, json")

/-- The report as printed. -/
def render (f : ReportFormat) (r : Report) : String :=
  match f with
  | .human => r.text
  | .json => r.toJson.pretty ++ "\n"

end ReportFormat

/-! ## Commands -/

/-- What surrounds a run. -/
structure Environment where
  workingDirectory : String
  /-- The log filter that the environment asks for. -/
  logFilter : Option String := none
  /-- What globs are compiled with. -/
  engine : Glob.Engine

/-- What a run comes to. -/
structure RunResult where
  exitCode : Nat := 0
  stdout : String := ""
  /-- The line about what went wrong. -/
  error : Option String := none
  log : List LogEntry := []
deriving Inhabited

namespace RunResult

/-- A run that ends with an error. -/
def failed (message : String) : RunResult :=
  { exitCode := 1, error := some ("error: " ++ message) }

/-- The run with only the messages that a filter shows. -/
def shownBy (filter : LogFilter) (r : RunResult) : RunResult :=
  { r with log := r.log.filter filter.shows }

end RunResult

/-- What went wrong inside what was being done. -/
def within (doing cause : String) : String := doing ++ ": " ++ cause

/-- The wording of a fault in a module document. -/
def Fault.message : Fault → String
  | .truncated => "JSON error: unexpected end of input"
  | .malformed => "JSON error: malformed document"
  | .mismatched => "JSON error: unexpected shape"

namespace Command

variable {m : Type → Type} [Monad m]

/-- The module in a file. -/
def load (files : Files m) (input : String) : m (Except String SourceModule) := do
  match ← files.look input with
  | .missing => pure (.error (within "graph file not found" input))
  | .directory =>
    let cause := PathError.isDirectory.message
    pure (.error (within ("loading " ++ input) (within ("I/O error: " ++ cause) cause)))
  | .file content =>
    match SourceModule.ofText content with
    | .ok source => pure (.ok source)
    | .error fault => pure (.error (within ("loading " ++ input) fault.message))

/-- Runs the export pass over the module in a file and prints its report. -/
def runAnalyze (files : Files m) (engine : Glob.Engine) (manifest : Option Manifest)
    (input : String) (patterns : List String) (exportPatterns report output : Option String)
    (lenientProperties : Bool) : m RunResult := do
  match ReportFormat.ofName report with
  | .error message => pure (.failed message)
  | .ok format =>
    match ← load files input with
    | .error message => pure (.failed message)
    | .ok source =>
      let settings := manifest.getD {}
      let effective := Manifest.effectivePatterns patterns exportPatterns manifest
      match ExportFilter.ofPatterns engine effective settings.separator with
      | .error e =>
        pure (.failed (within "compiling export patterns" (within e.message e.cause)))
      | .ok filter =>
        let options := { checkPropertyTypes := settings.checkPropertyTypes && !lenientProperties }
        let outcome := Pass.run { filter, options } source
        let log := outcome.diagnostics.map (LogEntry.ofPass source.name)
        match outcome.report with
        | .error e =>
          let message := within (within ("export pass over " ++ input) e.passMessage) e.message
          pure { RunResult.failed message with log }
        | .ok r =>
          let printed : RunResult := { stdout := format.render r, log }
          match output with
          | none => pure printed
          | some path =>
            match ← files.write path outcome.result.toText with
            | none =>
              let done : Diagnostic := ⟨.info, "annotated graph written to " ++ path⟩
              pure { printed with log := log ++ [LogEntry.ofAnalyze done] }
            | some cause =>
              let failed := RunResult.failed (within ("writing " ++ path) cause)
              pure { failed with stdout := printed.stdout, log }

/-- A text filled up with blanks to a width. -/
def padded (width : Nat) (s : String) : String :=
  s ++ String.ofList (List.replicate (width - s.length) ' ')

/-- The lines about a glob and the names it is tried on. -/
def globLines (g : Glob) (names : List String) : List String :=
  let head :=
    ["pattern:   " ++ g.pattern, "separator: " ++ g.separator.toString,
     "regex:     " ++ Glob.regexText g.pattern g.separator]
  if names.isEmpty then head
  else
    head ++ [""]
      ++ names.map (fun n => "  " ++ padded 5 (if g.isMatch n then "match" else "-") ++ " " ++ n)
      ++ ["", s!"{(g.select names).length} of {names.length} name(s) match"]

/-- Shows how a pattern compiles and which names it selects. -/
def runGlob (engine : Glob.Engine) (pattern : String) (names : List String) (separator : Char) :
    RunResult :=
  match Glob.compile engine pattern separator with
  | .error e =>
    .failed (within ("compiling pattern '" ++ pattern ++ "'") (within e.message e.cause))
  | .ok g => { stdout := String.join ((globLines g names).map (· ++ "\n")) }

/-- Carries out a command. -/
def run (files : Files m) (engine : Glob.Engine) (manifest : Option Manifest) :
    Command → m RunResult
  | .analyze input patterns exportPatterns report output lenientProperties =>
    runAnalyze files engine manifest input patterns exportPatterns report output lenientProperties
  | .glob pattern names separator => pure (runGlob engine pattern names separator)

end Command

namespace Invocation

variable {m : Type → Type} [Monad m]

/-- The version line. -/
def versionText : String := "exportpub 0.1.0\n"

/-- How the program is called. -/
def usageText : String :=
  "Export public declarations to JavaScript\n\n"
    ++ "Usage: exportpub [-v] [-q] [--no-color] analyze INPUT [-p PATTERN]... "
    ++ "[--export-patterns PATTERNS] [--report FORMAT] [-o FILE] [--lenient-properties]\n"
    ++ "       exportpub [-v] [-q] [--no-color] glob PATTERN [NAME]... [--separator CHAR]\n"

/-- Does what the words ask for. -/
def run (files : Files m) (env : Environment) (words : List String) : m RunResult := do
  match Invocation.read words with
  | .error .help => pure { stdout := usageText }
  | .error .version => pure { stdout := versionText }
  | .error (.usage e) => pure { exitCode := 2, error := some ("error: " ++ e.message) }
  | .ok invocation =>
    match ← Manifest.find files env.workingDirectory with
    | .error path => pure (.failed (within (Manifest.failure path) "TOML parse error"))
    | .ok found =>
      let manifest := found.map (·.1)
      let filter := LogFilter.effective invocation.verbose invocation.quiet env.logFilter
        (manifest.bind (·.level))
      return (← invocation.command.run files env.engine manifest).shownBy filter

end Invocation

end ExportSurface
