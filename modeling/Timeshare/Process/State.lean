import Timeshare.Fault

namespace Timeshare

/-!
# What a process is doing

The states of a process, the reasons for which it waits, and how one turn on the processor
ends for it.
-/

/-- The state of a process. -/
inductive ProcessState where
  | ready
  | waiting
  | running
  deriving DecidableEq, Repr

namespace ProcessState

/-- All states, in the order of their codes. -/
def all : List ProcessState := [ready, waiting, running]

/-- The number that stands for a state in a process record. -/
def code : ProcessState → Word
  | ready => 1
  | waiting => 2
  | running => 3

/-- The state that a number stands for. -/
def ofCode? (w : Word) : Option ProcessState := all.find? (fun s => s.code == w)

/-- The name of a state in reports. -/
def name : ProcessState → String
  | ready => "Ready"
  | waiting => "Waiting"
  | running => "Running"

/-- A state is found by its code. -/
theorem ofCode?_code (s : ProcessState) : ofCode? s.code = some s := by cases s <;> decide

end ProcessState

/-- What a process waits for. -/
inductive WaitReason where
  /-- It does not wait. -/
  | none
  /-- A character to read. -/
  | inputCompletion
  /-- The end of an output. -/
  | outputCompletion
  deriving DecidableEq, Repr

namespace WaitReason

/-- All reasons, in the order of their codes. -/
def all : List WaitReason := [none, inputCompletion, outputCompletion]

/-- The number that stands for a reason in a process record: that of the interrupt that ends
    the wait. -/
def code : WaitReason → Word
  | none => 0
  | inputCompletion => 3
  | outputCompletion => 4

/-- The reason that a number stands for. -/
def ofCode? (w : Word) : Option WaitReason := all.find? (fun r => r.code == w)

/-- The name of a reason in reports. -/
def name : WaitReason → String
  | none => "None"
  | inputCompletion => "InputCompletion"
  | outputCompletion => "OutputCompletion"

/-- A wait reason is found by its code. -/
theorem ofCode?_code (r : WaitReason) : ofCode? r.code = some r := by cases r <;> decide

end WaitReason

/-- How a turn on the processor ended for the process that had it. -/
inductive CycleOutcome where
  /-- Its time slice was used up; it is ready again. -/
  | preempted
  /-- It waits. -/
  | blocked (reason : WaitReason)
  /-- It halted. -/
  | terminated
  /-- It was ended because of a fault. -/
  | faulted (fault : Fault)
  deriving DecidableEq, Repr

/-- An outcome with its data in parentheses. -/
def CycleOutcome.text : CycleOutcome → String
  | preempted => "Preempted"
  | blocked reason => s!"Blocked({reason.name})"
  | terminated => "Terminated"
  | faulted fault => s!"Faulted({fault.name})"

/-- One turn on the processor. -/
structure CycleReport where
  /-- The number of the process that had the processor. -/
  pid : Word
  outcome : CycleOutcome
  /-- The clock at the end of the turn. -/
  clock : UInt64
  deriving DecidableEq, Repr

/-- A turn as one line of text. -/
def CycleReport.text (r : CycleReport) : String :=
  s!"CycleReport \x7b pid: {r.pid}, outcome: {r.outcome.text}, clock: {r.clock} \x7d"

end Timeshare
