import Timeshare.Session.Control
import Timeshare.Text.Integer

namespace Timeshare

/-!
# Arguments

The arguments of the program are names of programs to run, switches and settings.

* A switch is `--name`, or a letter behind a dash: `-v`.  Letters may share one dash.
* A setting is `--name=value` or `--name value`; with a letter also `-xvalue` and `-x=value`.
  A value that starts with a dash has to share its argument with the name, unless it is the dash
  alone.
* Behind `--` all arguments are names of programs.

A setting can be given once, and so can each switch but that for more messages.  Arguments are
read from the left: the first one that is wrong, or that asks for the version or for help, decides.
-/

/-- What the arguments ask for. -/
structure Options where
  /-- The programs to start, each perhaps with its priority behind the last `@`. -/
  programs : List String := []
  /-- The path of the event script. -/
  script : Option String := none
  /-- The directory that programs are looked up from. -/
  programDir : Option String := none
  /-- The path of the configuration. -/
  config : Option String := none
  timeSlice : Option UInt64 := none
  stackSize : Option Word := none
  priority : Option Word := none
  maxCycles : Option UInt64 := none
  /-- Whether to report in JSON. -/
  json : Bool := false
  /-- How often more messages were asked for. -/
  verbosity : Nat := 0
  deriving DecidableEq, Repr

/-- What can be set to a value. -/
inductive Setting where
  | script
  | programDir
  | config
  | timeSlice
  | stackSize
  | priority
  | maxCycles
  deriving DecidableEq, Repr

namespace Setting

/-- All settings. -/
def all : List Setting := [script, programDir, config, timeSlice, stackSize, priority, maxCycles]

/-- The name of a setting behind two dashes. -/
def name : Setting → String
  | script => "script"
  | programDir => "program-dir"
  | config => "config"
  | timeSlice => "time-slice"
  | stackSize => "stack-size"
  | priority => "priority"
  | maxCycles => "max-cycles"

/-- The letter of a setting behind one dash. -/
def letter? : Setting → Option Char
  | script => some 's'
  | programDir => some 'd'
  | config => some 'c'
  | timeSlice | stackSize | priority | maxCycles => none

end Setting

/-- What can be turned on. -/
inductive Switch where
  | json
  | verbose
  | help
  | version
  deriving DecidableEq, Repr

namespace Switch

/-- All switches. -/
def all : List Switch := [json, verbose, help, version]

/-- The name of a switch behind two dashes. -/
def name : Switch → String
  | json => "json"
  | verbose => "verbose"
  | help => "help"
  | version => "version"

/-- The letter of a switch behind one dash. -/
def letter? : Switch → Option Char
  | json => none
  | verbose => some 'v'
  | help => some 'h'
  | version => some 'V'

end Switch

/-- What is wrong with the arguments. -/
inductive UsageError where
  | unknown (argument : String)
  | repeated (name : String)
  | valueMissing (setting : Setting)
  | valueUnexpected (switch : Switch)
  | badPath (setting : Setting)
  | badNumber (setting : Setting) (value : String) (error : Text.IntegerError)
  deriving DecidableEq, Repr

/-- The error in words. -/
def UsageError.message : UsageError → String
  | unknown argument => s!"unexpected argument {Text.quote argument}"
  | repeated name => s!"--{name} cannot be used multiple times"
  | valueMissing setting => s!"--{setting.name} needs a value"
  | valueUnexpected switch => s!"--{switch.name} takes no value"
  | badPath setting => s!"--{setting.name} needs a path that is not empty"
  | badNumber setting value error =>
    s!"invalid value {Text.quote value} for --{setting.name}: {error.message}"

/-- Why reading the arguments comes to an end before a run. -/
inductive Stop where
  | error (error : UsageError)
  | help
  | version
  deriving DecidableEq, Repr

namespace Options

/-! ### Settings and switches -/

/-- Gives a setting its only value. -/
def once {α : Type} (setting : Setting) (current : Option α) (value : α) :
    Except Stop (Option α) :=
  if current.isSome then .error (.error (.repeated setting.name)) else .ok (some value)

/-- Gives a setting a path. -/
def setPath (setting : Setting) (current : Option String) (value : String) :
    Except Stop (Option String) :=
  if value.isEmpty then .error (.error (.badPath setting)) else once setting current value

/-- Gives a setting a number. -/
def setNumber {α : Type} (read : List Char → Except Text.IntegerError α) (setting : Setting)
    (current : Option α) (value : String) : Except Stop (Option α) :=
  match read value.toList with
  | .error error => .error (.error (.badNumber setting value error))
  | .ok n => once setting current n

/-- Options with a setting set to a value. -/
def assign (o : Options) (setting : Setting) (value : String) : Except Stop Options :=
  match setting with
  | .script => (setPath .script o.script value).map ({ o with script := · })
  | .programDir => (setPath .programDir o.programDir value).map ({ o with programDir := · })
  | .config => (setPath .config o.config value).map ({ o with config := · })
  | .timeSlice =>
    (setNumber Text.readUnsigned .timeSlice o.timeSlice value).map ({ o with timeSlice := · })
  | .stackSize =>
    (setNumber Text.readWord .stackSize o.stackSize value).map ({ o with stackSize := · })
  | .priority =>
    (setNumber Text.readWord .priority o.priority value).map ({ o with priority := · })
  | .maxCycles =>
    (setNumber Text.readUnsigned .maxCycles o.maxCycles value).map ({ o with maxCycles := · })

/-- Options with a switch turned on. -/
def turnOn (o : Options) : Switch → Except Stop Options
  | .json =>
    if o.json then .error (.error (.repeated Switch.json.name)) else .ok { o with json := true }
  | .verbose => .ok { o with verbosity := o.verbosity + 1 }
  | .help => .error .help
  | .version => .error .version

/-! ### Single arguments -/

/-- Options after an argument, and the setting that the next argument gives the value of, if the
    argument is the name of a setting. -/
abbrev Reading := Except Stop (Options × Option Setting)

/-- Reads a setting with the value that shares its argument, if one does. -/
def readSetting (o : Options) (setting : Setting) : Option String → Reading
  | some value => do return (← o.assign setting value, none)
  | none => .ok (o, some setting)

/-- Reads an argument of which two dashes have been read. -/
def readName (o : Options) (argument : List Char) : Reading :=
  let name := String.ofList (argument.takeWhile (· ≠ '='))
  let value : Option String :=
    match argument.dropWhile (· ≠ '=') with
    | [] => none
    | _ :: value => some (String.ofList value)
  match Setting.all.find? (·.name == name), Switch.all.find? (·.name == name), value with
  | some setting, _, value => o.readSetting setting value
  | none, some switch, none => do return (← o.turnOn switch, none)
  | none, some switch, some _ => .error (.error (.valueUnexpected switch))
  | none, none, _ => .error (.error (.unknown ("--" ++ name)))

/-- Reads an argument of which one dash has been read. -/
def readLetters (o : Options) : List Char → Reading
  | [] => .ok (o, none)
  | c :: rest =>
    match Setting.all.find? (·.letter? == some c), Switch.all.find? (·.letter? == some c) with
    | some setting, _ =>
      match rest with
      | [] => o.readSetting setting none
      | '=' :: value => o.readSetting setting (some (String.ofList value))
      | value => o.readSetting setting (some (String.ofList value))
    | none, some switch => do readLetters (← o.turnOn switch) rest
    | none, none => .error (.error (.unknown (String.ofList ['-', c])))

/-- Whether an argument is no name of a program and no value. -/
def isDashed (argument : String) : Bool :=
  match argument.toList with
  | '-' :: _ :: _ => true
  | _ => false

/-- Reads an argument. -/
def readArgument (o : Options) (argument : String) : Reading :=
  match argument.toList with
  | '-' :: '-' :: name => o.readName name
  | '-' :: c :: letters => o.readLetters (c :: letters)
  | _ => .ok ({ o with programs := o.programs ++ [argument] }, none)

/-! ### All arguments -/

/-- Reads arguments; `pending` is the setting that the first of them gives the value of. -/
def readFrom (o : Options) (pending : Option Setting) : List String → Except Stop Options
  | [] =>
    match pending with
    | some setting => .error (.error (.valueMissing setting))
    | none => .ok o
  | argument :: rest =>
    match pending with
    | some setting =>
      if isDashed argument then
        .error (.error (.valueMissing setting))
      else do
        readFrom (← o.assign setting argument) none rest
    | none =>
      if argument == "--" then
        .ok { o with programs := o.programs ++ rest }
      else do
        let (o, pending) ← o.readArgument argument
        readFrom o pending rest

/-- Reads the arguments of the program. -/
def ofArguments (arguments : List String) : Except Stop Options := readFrom {} none arguments

end Options

end Timeshare
