import Timeshare.Kernel.Process
import Timeshare.Kernel.Service

namespace Timeshare.Kernel

/-!
# Scheduling cycles

In a cycle the first ready process gets the processor for one time slice.  After it the
process is ready again, waits, or is terminated.
-/

/-- Gives the processor to a process. -/
def dispatch (r : Record) : Action Kernel Unit := do
  modify fun k =>
    { k with
      machine :=
        { k.machine with
          cpu := r.restoreContext k.memory k.machine.cpu
          memory := r.setState k.memory .running }
      running := some r }
  let k ← get
  Action.note (.dispatched (r.pid k.memory) k.registers.pc)

/-- Runs the dispatched process for its time slice. -/
def runProcess (r : Record) : Action Kernel (Except Fault Status) :=
  ExceptT.mk fun k => do
    let ended ← Machine.runSlice (Service.handler r) k.config.timeSlice k.machine
    return (.ok ended.outcome, { k with machine := ended.machine, running := none })

/-- Saves the registers of a process that leaves the processor. -/
def saveContext (r : Record) : Action Kernel Unit :=
  modify fun k => k.withMemory (r.saveContext k.memory k.machine.cpu)

/-- Lets the process that leaves the processor wait. -/
def block (r : Record) (reason : WaitReason) : Action Kernel CycleOutcome := do
  saveContext r
  modifyMemory (r.setReason · reason)
  makeWaiting r
  return .blocked reason

/-- Finds a place for the process that leaves the processor. -/
def settle (r : Record) (pid : Word) : Except Fault Status → Action Kernel CycleOutcome
  | .ok .halted => do
    Action.note (.halted pid)
    terminate r
    return .terminated
  | .ok .waitingForInput => block r .inputCompletion
  | .ok .waitingForOutput => block r .outputCompletion
  | .ok .timeSliceExpired | .ok .ok => do
    saveContext r
    makeReady r
    return .preempted
  | .error fault => do
    Action.note (.faulted pid (← get).registers.pc fault)
    terminate r
    return .faulted fault

/-- Runs one scheduling cycle.  There is nothing to report if no process is ready. -/
def cycle : Action Kernel (Option CycleReport) := do
  match (← popReady) with
  | none =>
    Action.note .idle
    return none
  | some r =>
    let pid := r.pid (← get).memory
    dispatch r
    let outcome ← settle r pid (← runProcess r)
    return some ⟨pid, outcome, (← get).clock⟩

end Timeshare.Kernel
