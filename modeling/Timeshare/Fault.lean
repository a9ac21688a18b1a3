import Timeshare.Word

namespace Timeshare

/-!
# Faults

Every failure that the machine, the kernel or a program loader can report, with the fixed
negative code that stands for it in a register and the text that people read.
-/

/-- Why an operation failed. -/
inductive Fault where
  /-- The program could not be opened, read or understood. -/
  | fileOpen
  /-- An operand or load address is outside the legal range. -/
  | invalidAddress
  /-- A program text stops without its end marker. -/
  | noEndOfProgram
  /-- The program counter, or an entry point, is outside the program area. -/
  | invalidPcValue
  /-- An instruction word has no known opcode. -/
  | invalidOpcode
  /-- A register digit is 8 or 9. -/
  | invalidRegister
  /-- An addressing mode is unknown, missing, or names no place to write to. -/
  | invalidMode
  /-- An address is outside memory or outside the pool or queue it was handed to. -/
  | invalidMemoryAddress
  /-- A system call number is unknown. -/
  | invalidId
  /-- No free block is large enough. -/
  | noFreeMemory
  /-- A size is not positive, or larger than what it is taken from. -/
  | invalidMemorySize
  /-- A block to be released is not a block in use. -/
  | invalidSizeOrMemoryAddress
  /-- A push on a full stack. -/
  | stackOverflow
  /-- A pop from an empty stack. -/
  | stackUnderflow
  /-- A division whose divisor is zero. -/
  | divideByZero
  /-- No waiting process has the given number. -/
  | pidNotFound
  deriving DecidableEq, Repr

namespace Fault

/-- All faults, in the order of their codes. -/
def all : List Fault :=
  [fileOpen, invalidAddress, noEndOfProgram, invalidPcValue, invalidOpcode, invalidRegister,
    invalidMode, invalidMemoryAddress, invalidId, noFreeMemory, invalidMemorySize,
    invalidSizeOrMemoryAddress, stackOverflow, stackUnderflow, divideByZero, pidNotFound]

/-- The negative number that stands for a fault in a register.  Code -9 is not in use. -/
def code : Fault → Word
  | fileOpen => -3
  | invalidAddress => -4
  | noEndOfProgram => -5
  | invalidPcValue => -6
  | invalidOpcode => -7
  | invalidRegister => -8
  | invalidMode => -10
  | invalidMemoryAddress => -11
  | invalidId => -12
  | noFreeMemory => -13
  | invalidMemorySize => -14
  | invalidSizeOrMemoryAddress => -15
  | stackOverflow => -16
  | stackUnderflow => -17
  | divideByZero => -18
  | pidNotFound => -19

/-- The fault that a code stands for. -/
def ofCode? (w : Word) : Option Fault := all.find? (fun f => f.code == w)

/-- The name of a fault in reports. -/
def name : Fault → String
  | fileOpen => "FileOpen"
  | invalidAddress => "InvalidAddress"
  | noEndOfProgram => "NoEndOfProgram"
  | invalidPcValue => "InvalidPcValue"
  | invalidOpcode => "InvalidOpcode"
  | invalidRegister => "InvalidRegister"
  | invalidMode => "InvalidMode"
  | invalidMemoryAddress => "InvalidMemoryAddress"
  | invalidId => "InvalidId"
  | noFreeMemory => "NoFreeMemory"
  | invalidMemorySize => "InvalidMemorySize"
  | invalidSizeOrMemoryAddress => "InvalidSizeOrMemoryAddress"
  | stackOverflow => "StackOverflow"
  | stackUnderflow => "StackUnderflow"
  | divideByZero => "DivideByZero"
  | pidNotFound => "PidNotFound"

/-- What a fault means, for people. -/
def description : Fault → String
  | fileOpen => "unable to open program"
  | invalidAddress => "invalid address"
  | noEndOfProgram => "missing end of program"
  | invalidPcValue => "invalid PC value"
  | invalidOpcode => "invalid opcode"
  | invalidRegister => "invalid register"
  | invalidMode => "invalid addressing mode"
  | invalidMemoryAddress => "invalid memory address"
  | invalidId => "invalid id"
  | noFreeMemory => "no free memory"
  | invalidMemorySize => "invalid memory size"
  | invalidSizeOrMemoryAddress => "invalid size or memory address"
  | stackOverflow => "stack overflow"
  | stackUnderflow => "stack underflow"
  | divideByZero => "divide by zero"
  | pidNotFound => "pid not found"

/-- The full text of a fault: its description and its code. -/
def message (f : Fault) : String := s!"{f.description} ({f.code})"

instance : ToString Fault := ⟨message⟩

/-- A code stands for one fault only. -/
theorem ofCode?_code (f : Fault) : ofCode? f.code = some f := by cases f <;> decide

end Fault

/-! ### How a run ends -/

/-- How a run of the processor ends when nothing went wrong. -/
inductive Status where
  /-- Nothing to report. -/
  | ok
  /-- The program halted. -/
  | halted
  /-- The time slice is used up. -/
  | timeSliceExpired
  /-- The program asked for a character and waits for it. -/
  | waitingForInput
  /-- The program handed a character out and waits until it is shown. -/
  | waitingForOutput
  deriving DecidableEq, Repr

namespace Status

/-- All statuses, in the order of their codes. -/
def all : List Status := [ok, halted, timeSliceExpired, waitingForInput, waitingForOutput]

/-- The number that stands for a status in a register. -/
def code : Status → Word
  | ok => 0
  | halted => 1
  | timeSliceExpired => 2
  | waitingForInput => 3
  | waitingForOutput => 4

/-- The status that a number stands for. -/
def ofCode? (w : Word) : Option Status := all.find? (fun s => s.code == w)

/-- The name of a status in reports. -/
def name : Status → String
  | ok => "Ok"
  | halted => "Halted"
  | timeSliceExpired => "TimeSliceExpired"
  | waitingForInput => "WaitingForInput"
  | waitingForOutput => "WaitingForOutput"

/-- Whether the program has to wait for the outside before it can go on. -/
def isBlocking : Status → Bool
  | waitingForInput | waitingForOutput => true
  | _ => false

/-- A code stands for one status only. -/
theorem ofCode?_code (s : Status) : ofCode? s.code = some s := by cases s <;> decide

end Status

end Timeshare
