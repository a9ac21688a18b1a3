import Timeshare.Kernel.Basic

namespace Timeshare

/-!
# Snapshots

A snapshot is a copy of everything that can be seen of a kernel at one instant.
-/

/-- A copy of a kernel's state. -/
structure Snapshot where
  clock : UInt64
  nextPid : Word
  isShutDown : Bool
  registers : Registers
  running : Option RecordCopy
  ready : List RecordCopy
  waiting : List RecordCopy
  osFree : List FreeBlock
  userFree : List FreeBlock

/-- Takes a snapshot.  It fails if a queue or a free list is damaged. -/
def Kernel.snapshot (k : Kernel) : Attempt Snapshot := do
  let ready ← Attempt.ofExcept k.readyRecords
  let waiting ← Attempt.ofExcept k.waitingRecords
  let osFree ← k.osPool.blocks k.memory
  let userFree ← k.userPool.blocks k.memory
  return {
    clock := k.clock
    nextPid := k.nextPid
    isShutDown := k.isShutDown
    registers := k.registers
    running := k.running.map (·.copy k.memory)
    ready := ready.map (·.copy k.memory)
    waiting := waiting.map (·.copy k.memory)
    osFree, userFree }

end Timeshare
