import Timeshare.Kernel.Interrupt
import Timeshare.Text.Line

namespace Timeshare

/-!
# Event scripts

A script has one event per line: a keyword or the number of the event, and its arguments.

    run add 128
    none
    input 1 A
    output 2
    shutdown

The priority of `run` may be left out.  `#` starts a comment, and blank lines do not count.

* `Interrupt.ofLine` reads one event;
* `Interrupt.ofScript` reads a script, and an error names the line it is on.
-/

/-- Why a line is no event. -/
inductive EventError where
  /-- There is nothing on the line. -/
  | empty
  /-- There is no such event, or it takes other arguments. -/
  | unknown
  /-- The priority is no integer. -/
  | badPriority (error : Text.IntegerError)
  /-- The process number is no integer. -/
  | badPid (error : Text.IntegerError)
  /-- The input is not one character. -/
  | notOneCharacter (text : String)
  deriving DecidableEq, Repr

/-- The error in words. -/
def EventError.message : EventError → String
  | empty => "empty event"
  | unknown => "unknown event or wrong number of arguments"
  | badPriority error => s!"priority: {error.message}"
  | badPid error => s!"pid: {error.message}"
  | notOneCharacter text => "expected a single character, got " ++ Text.quote text

/-- Why a text is no script: the number and the content of the first line that is no event. -/
structure ScriptError where
  line : Nat
  content : String
  error : EventError
  deriving DecidableEq, Repr

/-- The error in words. -/
def ScriptError.message (e : ScriptError) : String :=
  s!"line {e.line}: {Text.quote e.content}: {e.error.message}"

namespace Interrupt

/-- The keyword of an event. -/
def keyword : Interrupt → String
  | none => "none"
  | runProgram .. => "run"
  | shutdown => "shutdown"
  | inputCompletion .. => "input"
  | outputCompletion .. => "output"

/-- A process number. -/
def readPid (word : List Char) : Except EventError Word :=
  (Text.readWord word).mapError .badPid

/-- A single character. -/
def readCharacter : List Char → Except EventError Char
  | [c] => .ok c
  | text => .error (.notOneCharacter (String.ofList text))

/-- Whether a word is the keyword or the number of an event. -/
def isNamed (word : List Char) (keyword number : String) : Bool :=
  word == keyword.toList || word == number.toList

/-- Reads the words of an event; `priority` is that of a program for which none is given. -/
def ofWords (priority : Word) : List (List Char) → Except EventError Interrupt
  | [] => .error .empty
  | name :: arguments =>
    if isNamed name "none" "0" && arguments.isEmpty then
      .ok none
    else if isNamed name "shutdown" "2" && arguments.isEmpty then
      .ok shutdown
    else if isNamed name "run" "1" then
      match arguments with
      | [program] => .ok (runProgram (String.ofList program) priority)
      | [program, given] =>
        ((Text.readWord given).mapError .badPriority).map (runProgram (String.ofList program))
      | _ => .error .unknown
    else if isNamed name "input" "3" then
      match arguments with
      | [pid, input] => do return inputCompletion (← readPid pid) (← readCharacter input)
      | _ => .error .unknown
    else if isNamed name "output" "4" then
      match arguments with
      | [pid] => (readPid pid).map outputCompletion
      | _ => .error .unknown
    else
      .error .unknown

/-- Reads one event. -/
def ofLine (priority : Word) (line : List Char) : Except EventError Interrupt :=
  ofWords priority (Text.words line)

/-- Reads numbered lines. -/
def ofEntries (priority : Word) : List (Nat × List Char) → Except ScriptError (List Interrupt)
  | [] => .ok []
  | (number, line) :: rest => do
    let event ← (ofLine priority line).mapError (⟨number, String.ofList line, ·⟩)
    return event :: (← ofEntries priority rest)

/-- Reads a script. -/
def ofScript (priority : Word) (text : String) : Except ScriptError (List Interrupt) :=
  ofEntries priority (Text.entries text.toList)

end Interrupt

end Timeshare
