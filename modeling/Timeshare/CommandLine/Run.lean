import Timeshare.CommandLine.Arguments
import Timeshare.Files.Source
import Timeshare.Json.Codec
import Timeshare.Session.Report
import Timeshare.Session.Script

namespace Timeshare

/-!
# Runs from the command line

`CommandLine.run` takes the arguments and a source of files, and gives all that the program
shows: its output, its messages and its exit code.

The events of a run are the start of each program named in the arguments, then those of the
script.  What the arguments set counts more than the configuration.
-/

/-- Why nothing was run, or why a run has no report. -/
inductive RunError where
  | unreadableConfig (path : String) (error : FileError)
  | malformedConfig (path : String) (error : Json.SyntaxError)
  /-- The configuration is JSON, but has no configuration in it. -/
  | strangeConfig (path : String)
  | invalidConfig (fault : Fault)
  | badPriority (argument : String) (error : Text.IntegerError)
  | unreadableScript (path : String) (error : FileError)
  | malformedScript (path : String) (error : ScriptError)
  | nothingToRun
  | bootFailed (fault : Fault)
  /-- The queues in memory are damaged. -/
  | corrupted (fault : Fault)
  | noSnapshot (fault : Fault)
  deriving DecidableEq, Repr

/-- The error in words, the general before the particular. -/
def RunError.message : RunError → String
  | unreadableConfig path error => s!"reading config {path}: {error.message}"
  | malformedConfig path error => s!"parsing config {path}: {error.message}"
  | strangeConfig path => s!"parsing config {path}: a field is missing, repeated or of another type"
  | invalidConfig fault => s!"invalid configuration: {fault.message}"
  | badPriority argument error => s!"bad priority in {Text.quote argument}: {error.message}"
  | unreadableScript path error => s!"reading script {path}: {error.message}"
  | malformedScript path error => s!"parsing script {path}: {error.message}"
  | nothingToRun => "nothing to run: pass program files or --script"
  | bootFailed fault => s!"booting kernel: {fault.message}"
  | corrupted fault => s!"kernel state corrupted: {fault.message}"
  | noSnapshot fault => s!"capturing kernel snapshot: {fault.message}"

namespace Options

/-- The level of the messages to show. -/
def level (o : Options) : Level := Level.ofVerbosity o.verbosity

/-- Reads the configuration, if there is one. -/
def readConfig (o : Options) (files : FileSource) : Except RunError Config :=
  match o.config with
  | none => .ok {}
  | some path =>
    match files path with
    | .error error => .error (.unreadableConfig path error)
    | .ok text =>
      match Json.parse text with
      | .error error => .error (.malformedConfig path error)
      | .ok json =>
        match Config.ofJson? json with
        | none => .error (.strangeConfig path)
        | some config => .ok config

/-- A configuration with what the arguments set. -/
def override (o : Options) (config : Config) : Config :=
  { config with
    timeSlice := o.timeSlice.getD config.timeSlice
    stackSize := o.stackSize.getD config.stackSize
    defaultPriority := o.priority.getD config.defaultPriority }

/-- The valid configuration of a run. -/
def settle (o : Options) (files : FileSource) : Except RunError Config := do
  let config := o.override (← o.readConfig files)
  (config.validate).mapError .invalidConfig
  return config

/-- The start of a program that is named in the arguments.  Behind the last `@`, if there is one,
    stands its priority. -/
def startOf (config : Config) (argument : String) : Except RunError Interrupt :=
  let characters := argument.toList
  if characters.contains '@' then
    let priority := (characters.reverse.takeWhile (· ≠ '@')).reverse
    let program := ((characters.reverse.dropWhile (· ≠ '@')).drop 1).reverse
    match Text.readWord priority with
    | .error error => .error (.badPriority argument error)
    | .ok priority => .ok (.runProgram (String.ofList program) priority)
  else
    .ok (.runProgram argument config.defaultPriority)

/-- Reads the script, if there is one. -/
def readScript (o : Options) (files : FileSource) (config : Config) :
    Except RunError (List Interrupt) :=
  match o.script with
  | none => .ok []
  | some path =>
    match files path with
    | .error error => .error (.unreadableScript path error)
    | .ok text => (Interrupt.ofScript config.defaultPriority text).mapError (.malformedScript path)

/-- The events of a run, of which there is one at least. -/
def events (o : Options) (files : FileSource) (config : Config) :
    Except RunError (List Interrupt) := do
  let starts ← o.programs.mapM (startOf config)
  let script ← o.readScript files config
  if (starts ++ script).isEmpty then
    throw .nothingToRun
  return starts ++ script

/-- The directory that programs are looked up from. -/
def root (o : Options) : String := o.programDir.getD "."

/-- The most cycles of a run. -/
def limit (o : Options) : Nat := (o.maxCycles.map UInt64.toNat).getD Session.defaultMaxCycles

end Options

/-! ### Running -/

/-- A computation that may end with an error of the run. -/
abbrev Job (α : Type) := ExceptT RunError Logged α

namespace Job

/-- A job that makes no notices. -/
def ofExcept {α : Type} (x : Except RunError α) : Job α := ExceptT.mk (pure x)

/-- A computation as part of a run. -/
def attempt {α : Type} (cause : Fault → RunError) (x : Attempt α) : Job α :=
  ExceptT.mk do return (← ExceptT.run x).mapError cause

/-- A computation on a state as part of a run. -/
def perform {σ α : Type} (cause : Fault → RunError) (x : Action σ α) (s : σ) : Job (α × σ) :=
  ExceptT.mk do
    let (result, s) ← (ExceptT.run x).run s
    return (result.mapError cause).map (·, s)

end Job

/-- Runs the events and gives the text of the report. -/
def Options.execute (o : Options) (files : FileSource) : Job String := do
  let config ← Job.ofExcept (o.settle files)
  let events ← Job.ofExcept (o.events files config)
  let kernel ← Job.attempt .bootFailed (Kernel.boot config (files.catalog o.root))
  let (summary, session) ← Job.perform .corrupted (Session.run o.limit) { kernel, events }
  if o.json then
    let report ← Job.attempt .noSnapshot (Report.capture session.kernel summary)
    return report.toJson.pretty ++ "\n"
  else
    return String.join ((summary.lines session.kernel.clock).map (· ++ "\n"))

/-- What the program shows. -/
structure Shown where
  output : String
  messages : String
  exitCode : Nat
  deriving DecidableEq, Repr

namespace CommandLine

/-- The name and the version of the program. -/
def versionText : String := "os 0.1.0\n"

/-- How the program is used. -/
def helpText : String :=
  "Runs HYPO programs under the multitasking kernel\n\n" ++
  "Usage: hypo [OPTIONS] [PROGRAMS]...\n\n" ++
  "Arguments:\n" ++
  "  [PROGRAMS]...  Program files to start, each perhaps followed by @ and its priority\n\n" ++
  "Options:\n" ++
  "  -s, --script <PATH>        Event script: run / input / output / none / shutdown\n" ++
  "  -d, --program-dir <PATH>   Directory of the programs [default: .]\n" ++
  "  -c, --config <PATH>        Configuration in JSON; missing fields keep their defaults\n" ++
  "      --time-slice <NUMBER>  Time slice in clock units\n" ++
  "      --stack-size <NUMBER>  Stack of a process in words\n" ++
  "      --priority <NUMBER>    Priority where none is given\n" ++
  "      --max-cycles <NUMBER>  Most scheduling cycles [default: 10000]\n" ++
  "      --json                 Print the summary and a snapshot in JSON\n" ++
  "  -v, --verbose...           More messages\n" ++
  "  -h, --help                 Print help\n" ++
  "  -V, --version              Print version\n"

/-- The notices that somebody sees who asked for a level, one to a line. -/
def messages (level : Level) (notices : Array Notice) : String :=
  String.join ((notices.toList.filter fun n => level.shows n.level).map (·.consoleLine ++ "\n"))

/-- What a run with some options shows. -/
def runWith (o : Options) (files : FileSource) : Shown :=
  let run : Logged (Except RunError String) := ExceptT.run (o.execute files)
  let shown := messages o.level run.notices
  match run.value with
  | .ok output => ⟨output, shown, 0⟩
  | .error error => ⟨"", shown ++ "error: " ++ error.message ++ "\n", 1⟩

/-- What the program shows. -/
def run (files : FileSource) (arguments : List String) : Shown :=
  match Options.ofArguments arguments with
  | .ok o => runWith o files
  | .error .version => ⟨versionText, "", 0⟩
  | .error .help => ⟨helpText, "", 0⟩
  | .error (.error error) => ⟨"", "error: " ++ error.message ++ "\n", 2⟩

/-- The paths of the files that a run reads, as far as they are known from the text of some
    files. -/
def paths (files : FileSource) (arguments : List String) : List String :=
  match Options.ofArguments arguments with
  | .error _ => []
  | .ok o =>
    let programs :=
      match o.settle files with
      | .error _ => []
      | .ok config =>
        match o.events files config with
        | .error _ => []
        | .ok events =>
          events.filterMap fun event =>
            match event with
            | .runProgram program _ => some (Path.join o.root program)
            | _ => none
    o.config.toList ++ o.script.toList ++ programs

end CommandLine

end Timeshare
