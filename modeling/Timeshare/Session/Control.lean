import Timeshare.Kernel.Cycle
import Timeshare.Kernel.Interrupt

namespace Timeshare

/-!
# The control loop

The control loop feeds events to a kernel: one event, then one scheduling cycle, while there
are events; then cycles alone, until no process is ready.  It stops early when the kernel was
shut down or a limit on the number of cycles is reached.  In the end it shuts the kernel down,
which also ends the processes that still wait.

`Session.run` runs the loop and gives a summary of what happened.
-/

/-- A character that a process has put out. -/
structure ProcessOutput where
  pid : Word
  value : Word
  deriving DecidableEq, Repr

/-- What happened during a run of the control loop. -/
structure Summary where
  /-- The scheduling cycles in which a process had the processor. -/
  cycles : Nat := 0
  /-- The scheduling cycles in which no process was ready. -/
  idleCycles : Nat := 0
  created : List Word := []
  /-- The processes that halted or were ended by a shutdown. -/
  terminated : List Word := []
  /-- The processes that were ended because of a fault. -/
  faulted : List (Word × Fault) := []
  outputs : List ProcessOutput := []
  /-- The events that the kernel could not handle. -/
  failedEvents : Nat := 0
  deriving DecidableEq, Repr

namespace Summary

instance : Inhabited Summary := ⟨{}⟩

/-- The characters that a process has put out, in order.  A value that is no character is left
    out. -/
def outputOf (s : Summary) (pid : Word) : String :=
  String.ofList ((s.outputs.filter (·.pid == pid)).filterMap fun o => Word.toChar? o.value)

/-- Adds a turn on the processor. -/
def addCycle (s : Summary) (r : CycleReport) : Summary :=
  let s := { s with cycles := s.cycles + 1 }
  match r.outcome with
  | .terminated => { s with terminated := s.terminated ++ [r.pid] }
  | .faulted fault => { s with faulted := s.faulted ++ [(r.pid, fault)] }
  | .preempted | .blocked _ => s

/-- Adds a scheduling cycle in which no process was ready. -/
def addIdle (s : Summary) : Summary := { s with idleCycles := s.idleCycles + 1 }

/-- Adds an event that the kernel handled. -/
def addEvent (s : Summary) : InterruptOutcome → Summary
  | .created pid => { s with created := s.created ++ [pid] }
  | .output pid value => { s with outputs := s.outputs ++ [⟨pid, value⟩] }
  | .shutDown pids => { s with terminated := s.terminated ++ pids }
  | .ignored | .inputDelivered _ | .pidNotFound _ => s

/-- Adds an event that the kernel could not handle. -/
def addFailure (s : Summary) : Summary := { s with failedEvents := s.failedEvents + 1 }

/-- The number of scheduling cycles. -/
def allCycles (s : Summary) : Nat := s.cycles + s.idleCycles

end Summary

/-- A run of the control loop: the kernel, what happened, and the events still to come. -/
structure Session where
  kernel : Kernel
  summary : Summary := {}
  events : List Interrupt

namespace Session

/-- The number of cycles after which a run stops where nothing else is said. -/
def defaultMaxCycles : Nat := 10000

/-- Does something with the kernel. -/
def onKernel {α : Type} : Action Kernel α → Action Session α :=
  Action.zoom (·.kernel) fun kernel s => { s with kernel }

/-- Adds something to the summary. -/
def record (f : Summary → Summary) : Action Session Unit :=
  modify fun s => { s with summary := f s.summary }

/-- Delivers an event to the kernel.  An event that it cannot handle is counted. -/
def deliver (event : Interrupt) : Action Session Unit := do
  match (← Action.observe (onKernel (Kernel.interrupt event))) with
  | .ok outcome => record (·.addEvent outcome)
  | .error fault =>
    Action.note (.interruptFailed event.number fault)
    record Summary.addFailure

/-- Runs one scheduling cycle. -/
def cycle : Action Session Unit := do
  match (← onKernel Kernel.cycle) with
  | some report =>
    Action.note (.turnOver ((← get).summary.cycles + 1) report)
    record (·.addCycle report)
  | none => record Summary.addIdle

/-- Whether the loop has to stop because of the limit. -/
def isSpent (maxCycles : Nat) (s : Session) : Bool := maxCycles ≤ s.summary.allCycles

/-- The next event.  When there are none left, nothing happens while a process is ready, and
    then the loop ends. -/
def nextEvent? (s : Session) : Option (Interrupt × Session) :=
  match s.events with
  | event :: events => some (event, { s with events })
  | [] => if s.kernel.ready.isEmpty then none else some (.none, s)

/-- One turn of the loop; it says whether the loop goes on. -/
def turn (maxCycles : Nat) : Action Session Bool := do
  let s ← get
  if s.kernel.isShutDown || s.isSpent maxCycles then
    return false
  match s.nextEvent? with
  | none => return false
  | some (event, s) =>
    set s
    deliver event
    if (← get).kernel.isShutDown then
      return false
    cycle
    return true

/-- Repeats turns for as long as the loop goes on.  Each turn uses up one of the cycles of the
    limit, so `maxCycles + 1` turns are enough. -/
def turns (maxCycles : Nat) : Action Session Unit :=
  ExceptT.mk fun s => do
    let ended ← Logged.loop (fun s => do
      match (← (ExceptT.run (turn maxCycles)).run s) with
      | (.ok true, s) => return .inr s
      | (.ok false, s) => return .inl (.ok (), s)
      | (.error fault, s) => return .inl (.error fault, s)) (maxCycles + 1) s
    return ended.elim id fun s => (.ok (), s)

/-- Shuts the kernel down, if that has not happened yet. -/
def finish (maxCycles : Nat) : Action Session Unit := do
  let s ← get
  if !s.kernel.isShutDown then
    if s.isSpent maxCycles then
      Action.note (.limitReached maxCycles)
    deliver .shutdown
  let summary := (← get).summary
  Action.note (.finished summary.cycles summary.terminated.length summary.faulted.length)

/-- Runs the control loop. -/
def run (maxCycles : Nat) : Action Session Summary := do
  turns maxCycles
  finish maxCycles
  return (← get).summary

end Session

end Timeshare
