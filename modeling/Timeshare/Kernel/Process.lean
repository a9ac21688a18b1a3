import Timeshare.Kernel.Basic

namespace Timeshare.Kernel

/-!
# The life of a process

* `Kernel.create` makes a process of a program: it gets a record, the program is loaded, it
  gets a stack, and it becomes ready.  A failure on the way gives back what the process already
  had and uses up no number; only the words of a loaded program stay where they are.
* `Kernel.terminate` gives the stack and the record of a process back.  The record is taken off
  no queue: a process is terminated once it has left its queue.
-/

/-- The result of a step in the creation of a process; if it failed, what the process had is
    given back first. -/
def orGiveBack {α : Type} (giveBack : Action Kernel Unit) (x : Except Fault α) :
    Action Kernel α :=
  match x with
  | .ok a => return a
  | .error fault => do
    giveBack
    throw fault

/-- Puts a program into memory. -/
def loadProgram (program : String) : Action Kernel Address := do
  let k ← get
  let (entry, memory) ← Action.attempt (k.catalog.load program k.memory k.config.layout)
  set (k.withMemory memory)
  return entry

/-- Creates a process that runs a program, and makes it ready. -/
def create (program : String) (priority : Word) : Action Kernel Record := do
  let start ← onOsPool fun p m => p.allocate m recordSize
  let k ← get
  let giveRecordBack := releaseOs start.toWord recordSize
  let r ← orGiveBack giveRecordBack (Record.ofAddress start k.config.layout.osPool)
  modifyMemory (r.init · k.nextPid priority)
  let loaded ← Action.observe (loadProgram program)
  let entry ← orGiveBack
    (do
      if let .error fault := loaded then
        Action.note (.loadFailed program fault)
      giveRecordBack)
    loaded
  let size := k.config.stackSize
  let allocated ← Action.observe (onUserPool fun p m => p.allocate m size)
  let stack ← orGiveBack
    (do
      if let .error fault := allocated then
        Action.note (.stackMissing program fault)
      giveRecordBack)
    allocated
  modifyMemory fun m =>
    let m := r.setStack m stack size
    let m := r.set m .sp (stack.toWord - 1)
    let m := r.set m .pc entry.toWord
    r.set m .psr Privilege.user.code
  orGiveBack
    (do
      releaseUser stack.toWord size
      giveRecordBack)
    (← Action.observe (makeReady r))
  modify fun k => { k with nextPid := k.nextPid + 1 }
  Action.note (.created k.nextPid program priority entry stack size)
  return r

/-- Ends a process.  A program can damage the free list of the user pool; a stack that the pool
    refuses is left out. -/
def terminate (r : Record) : Action Kernel Unit := do
  let m := (← get).memory
  let pid := r.pid m
  let start := r.get m .stackStart
  if let .error fault ← Action.observe (releaseUser start (r.get m .stackSize)) then
    Action.note (.stackRefused pid start fault)
  releaseOs r.address.toWord recordSize
  modify fun k => { k with running := if k.running = some r then none else k.running }
  Action.note (.ended pid)

end Timeshare.Kernel
