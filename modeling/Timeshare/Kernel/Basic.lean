import Timeshare.Kernel.Config
import Timeshare.Machine.Run
import Timeshare.Process.Queue
import Timeshare.Program.Image
import Timeshare.Storage.Pool

namespace Timeshare

/-!
# The kernel

The kernel owns the machine, both pools and both queues.  This module holds its state, how it
comes up (`Kernel.boot`), and how the operations of the parts act on the whole.
-/

/-- Everything that the kernel knows. -/
structure Kernel where
  config : Config
  /-- The machine; the user pool answers to the programs that run on it. -/
  machine : Machine Pool
  osPool : Pool
  ready : ReadyQueue
  waiting : WaitQueue
  /-- The process that has the processor. -/
  running : Option Record
  /-- The number that the next process gets. -/
  nextPid : Word
  isShutDown : Bool
  /-- The programs that processes can be created from. -/
  catalog : Catalog

namespace Kernel

/-- The memory of the machine. -/
def memory (k : Kernel) : Memory := k.machine.memory

/-- The registers of the processor. -/
def registers (k : Kernel) : Registers := k.machine.cpu.registers

/-- The pool that stacks and the memory for programs come from. -/
def userPool (k : Kernel) : Pool := k.machine.host

/-- The time units used so far. -/
def clock (k : Kernel) : UInt64 := k.registers.clock

/-- The kernel with another memory. -/
def withMemory (k : Kernel) (memory : Memory) : Kernel :=
  { k with machine := { k.machine with memory } }

/-- Starts a kernel: memory and registers are zero, each pool is one free block, no process
    exists, and numbers start at 1. -/
def boot (config : Config) (catalog : Catalog) : Attempt Kernel := do
  Attempt.ofExcept config.validate
  let layout := config.layout
  let (osPool, memory) ← (Pool.empty .os layout.osPool).fill Memory.zero
  let (userPool, memory) ← (Pool.empty .user layout.userPool).fill memory
  Attempt.note
    (.booted config.timeSlice config.stackSize layout.osPool.length layout.userPool.length)
  return {
    config, osPool, catalog
    machine := { Machine.boot layout userPool with memory }
    ready := { region := layout.osPool }
    waiting := { region := layout.osPool }
    running := none
    nextPid := 1
    isShutDown := false }

/-! ### Parts of the kernel -/

/-- Changes memory. -/
def modifyMemory (f : Memory → Memory) : Action Kernel Unit :=
  modify fun k => k.withMemory (f k.memory)

/-- Runs an operation on the pool of process records. -/
def onOsPool {α : Type} (f : Pool → Memory → Attempt (α × Pool × Memory)) : Action Kernel α := do
  let k ← get
  let (a, osPool, memory) ← Action.attempt (f k.osPool k.memory)
  set { k.withMemory memory with osPool }
  return a

/-- Runs an operation on the user pool. -/
def onUserPool {α : Type} (f : Pool → Memory → Attempt (α × Pool × Memory)) : Action Kernel α := do
  let k ← get
  let (a, host, memory) ← Action.attempt (f k.userPool k.memory)
  set { k with machine := { k.machine with host, memory } }
  return a

/-- Gives a block back to the pool of process records. -/
def releaseOs (start size : Word) : Action Kernel Unit :=
  onOsPool fun p m => (fun (p, m) => ((), p, m)) <$> p.release m start size

/-- Gives a block back to the user pool. -/
def releaseUser (start size : Word) : Action Kernel Unit :=
  onUserPool fun p m => (fun (p, m) => ((), p, m)) <$> p.release m start size

/-- Makes a process ready. -/
def makeReady (r : Record) : Action Kernel Unit := do
  let k ← get
  let (ready, memory) ← Action.attempt (k.ready.insert k.memory r)
  set { k.withMemory memory with ready }

/-- Lets a process wait. -/
def makeWaiting (r : Record) : Action Kernel Unit := do
  let k ← get
  let (waiting, memory) ← Action.attempt (k.waiting.insert k.memory r)
  set { k.withMemory memory with waiting }

/-- Takes the first ready process off its queue. -/
def popReady : Action Kernel (Option Record) := do
  let k ← get
  match (← Action.ofExcept (k.ready.pop k.memory)) with
  | none => return none
  | some (r, ready, memory) =>
    set { k.withMemory memory with ready }
    return some r

/-- Takes the newest waiting process off its queue. -/
def popWaiting : Action Kernel (Option Record) := do
  let k ← get
  match (← Action.ofExcept (k.waiting.pop k.memory)) with
  | none => return none
  | some (r, waiting, memory) =>
    set { k.withMemory memory with waiting }
    return some r

/-- Takes the waiting process with a number off its queue. -/
def removeWaiting (pid : Word) : Action Kernel Record := do
  let k ← get
  let (r, waiting, memory) ← Action.ofExcept (k.waiting.remove k.memory pid)
  set { k.withMemory memory with waiting }
  return r

/-! ### Views -/

/-- The ready processes in the order in which they get the processor. -/
def readyRecords (k : Kernel) : Except Fault (List Record) := k.ready.records k.memory

/-- The waiting processes, newest first. -/
def waitingRecords (k : Kernel) : Except Fault (List Record) := k.waiting.records k.memory

/-- The record of the process with a number, which is looked for among the ready processes
    first. -/
def find? (k : Kernel) (pid : Word) : Except Fault (Option Record) := do
  let ready ← k.readyRecords
  let waiting ← k.waitingRecords
  return (ready ++ waiting).find? fun r => r.pid k.memory = pid

end Kernel

end Timeshare
