import Timeshare.Machine.Trap
import Timeshare.Process.Record
import Timeshare.Storage.Pool

namespace Timeshare

/-!
# System services

What the kernel does for a running program: it allocates and releases memory of the user pool,
lets the program wait for a character or for the end of an output, and tells it about itself.

Arguments and results travel in the general registers.  Register 0 gets the status: zero, or
the code of the fault.  A service never ends the program.
-/

namespace Service

/-- What a service works on: the registers, memory, and the user pool. -/
abbrev Env := TrapState Pool

/-- Writes a general register. -/
def setRegister (i : Register) (w : Word) : Action Env Unit :=
  modify fun s => { s with registers := s.registers.set i w }

/-- Runs a pool operation on the user pool. -/
def onPool {α : Type} (f : Pool → Memory → Attempt (α × Pool × Memory)) :
    Action Env (Except Fault α) :=
  Action.observe do
    let s ← get
    let (a, host, memory) ← Action.attempt (f s.host s.memory)
    set { s with host, memory }
    return a

/-- Allocates as many words as register 2 says.  Register 1 gets the address, or the code of
    the fault that the pool reports. -/
def allocate : Action Env TrapOutcome := do
  let size := (← get).registers.get .r2
  if size < 1 then
    Action.note (.sizeRefused size)
    TrapState.reply Fault.invalidMemorySize.code
  else
    match (← onPool fun p m => p.allocate m size) with
    | .ok a =>
      Action.note (.blockGranted size a)
      setRegister .r1 a.toWord
      TrapState.reply Status.ok.code
    | .error fault =>
      setRegister .r1 fault.code
      TrapState.reply fault.code
  return .proceed

/-- Releases as many words as register 2 says at the address in register 1. -/
def release : Action Env TrapOutcome := do
  let registers := (← get).registers
  let start := registers.get .r1
  let size := registers.get .r2
  match (← onPool fun p m => (fun (p, m) => ((), p, m)) <$> p.release m start size) with
  | .ok () =>
    Action.note (.blockReturned size start)
    TrapState.reply Status.ok.code
  | .error fault => TrapState.reply fault.code
  return .proceed

/-- Lets the program wait. -/
def wait (status : Status) : Action Env TrapOutcome := do
  TrapState.reply Status.ok.code
  return .block status

/-- Tells the program its number, its priority and its state. -/
def inquire (r : Record) : Action Env TrapOutcome := do
  let m := (← get).memory
  setRegister .r1 (r.pid m)
  setRegister .r2 (r.priority m)
  setRegister .r3 ((r.state? m).getD .running).code
  TrapState.reply Status.ok.code
  return .proceed

/-- The services, by the number that a program calls them with.  Creating and deleting
    processes (1, 2) and messages (6, 7) are reserved: such a call succeeds and does nothing. -/
def handler (current : Record) : TrapHandler Pool := fun call => do
  Action.note (.called call (← get).registers.gpr.toList)
  match call.toInt with
  | 3 => inquire current
  | 4 => allocate
  | 5 => release
  | 8 => wait .waitingForInput
  | 9 => wait .waitingForOutput
  | 1 | 2 | 6 | 7 =>
    Action.note (.callMissing call)
    TrapState.reply Status.ok.code
    return .proceed
  | _ =>
    Action.note (.callUnknown call)
    TrapState.reply Fault.invalidId.code
    return .proceed

end Service

end Timeshare
