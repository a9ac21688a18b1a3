import Timeshare.Kernel.Process

namespace Timeshare

/-!
# Interrupts

Interrupts reach the kernel from outside, between scheduling cycles: a program is to be run, an
input or output of a waiting process is complete, or the kernel has to shut down.
-/

/-- An event from outside. -/
inductive Interrupt where
  | none
  /-- A program is to be run. -/
  | runProgram (program : String) (priority : Word)
  /-- All processes have to end. -/
  | shutdown
  /-- There is a character for a process. -/
  | inputCompletion (pid : Word) (input : Char)
  /-- The character of a process was shown. -/
  | outputCompletion (pid : Word)
  deriving DecidableEq, Repr

/-- The number of an event. -/
def Interrupt.number : Interrupt → Word
  | none => 0
  | runProgram .. => 1
  | shutdown => 2
  | inputCompletion .. => 3
  | outputCompletion .. => 4

/-- What the kernel did about an event. -/
inductive InterruptOutcome where
  | ignored
  /-- A process was created. -/
  | created (pid : Word)
  /-- A process got its character and is ready. -/
  | inputDelivered (pid : Word)
  /-- The output of a process was shown, and it is ready. -/
  | output (pid value : Word)
  /-- No waiting process has the number. -/
  | pidNotFound (pid : Word)
  /-- The kernel was shut down, which ended these processes. -/
  | shutDown (terminated : List Word)
  deriving DecidableEq, Repr

namespace Kernel

/-- Takes a process that waits off its queue, whatever it waits for. -/
def takeWaiting (pid : Word) (event : WaitReason) : Action Kernel (Option Record) := do
  match (← Action.observe (removeWaiting pid)) with
  | .ok r =>
    let reason := r.reason? (← get).memory
    if reason ≠ some event then
      Action.note (.unexpectedRelease pid reason event)
    return some r
  | .error .pidNotFound =>
    Action.note (.nobodyWaiting pid)
    return none
  | .error fault => throw fault

/-- Hands a character to a process. -/
def deliverInput (pid : Word) (input : Char) : Action Kernel InterruptOutcome := do
  match (← takeWaiting pid .inputCompletion) with
  | none => return .pidNotFound pid
  | some r =>
    modifyMemory fun m => r.setReason (r.set m (.gpr .r1) (Word.ofChar input)) .none
    makeReady r
    Action.note (.inputDelivered pid input)
    return .inputDelivered pid

/-- Tells a process that its output was shown. -/
def deliverOutput (pid : Word) : Action Kernel InterruptOutcome := do
  match (← takeWaiting pid .outputCompletion) with
  | none => return .pidNotFound pid
  | some r =>
    let value := r.get (← get).memory (.gpr .r1)
    modifyMemory (r.setReason · .none)
    makeReady r
    Action.note (.outputShown pid value)
    return .output pid value

/-- Makes the waiting processes ready, the newest first; at most `fuel` of them. -/
def releaseAll : Nat → Action Kernel Unit
  | 0 => throw .invalidMemoryAddress
  | fuel + 1 => do
    match (← popWaiting) with
    | none => return
    | some r =>
      modifyMemory (r.setReason · .none)
      makeReady r
      releaseAll fuel

/-- Ends the ready processes and returns their numbers; at most `fuel` of them. -/
def terminateAll : Nat → Action Kernel (List Word)
  | 0 => throw .invalidMemoryAddress
  | fuel + 1 => do
    match (← popReady) with
    | none => return []
    | some r =>
      let pid := r.pid (← get).memory
      terminate r
      return pid :: (← terminateAll fuel)

/-- Ends all processes.  Those that wait are made ready first, so that all of them end in the
    order of the ready queue.  No queue has more records than memory has words. -/
def shutDown : Action Kernel InterruptOutcome := do
  releaseAll (memorySize + 1)
  let pids ← terminateAll (memorySize + 1)
  modify fun k => { k with isShutDown := true }
  Action.note (.shutDown pids)
  return .shutDown pids

/-- Handles an event.  That a program cannot be run is an error; that no process waits for a
    completion is not. -/
def interrupt : Interrupt → Action Kernel InterruptOutcome
  | .none => return .ignored
  | .runProgram program priority => do
    let r ← create program priority
    return .created (r.pid (← get).memory)
  | .shutdown => shutDown
  | .inputCompletion pid input => deliverInput pid input
  | .outputCompletion pid => deliverOutput pid

end Kernel

end Timeshare
