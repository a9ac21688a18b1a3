import Timeshare.Region

namespace Timeshare

/-!
# Configuration

The tunables of the machine and the scheduler, with the values that hold where nothing else is
said, and the check that a kernel can be started with them.
-/

/-- The tunables of a kernel. -/
structure Config where
  layout : Layout := {}
  /-- The time units that a process may run for before the next one gets its turn. -/
  timeSlice : UInt64 := 200
  /-- The words that each process gets as its stack. -/
  stackSize : Word := 10
  /-- The priority of a process for which none is given. -/
  defaultPriority : Word := 128
  deriving DecidableEq, Repr

namespace Config

instance : Inhabited Config := ⟨{}⟩

/-- Accepts a configuration with a valid layout and a time slice, whose stacks have words and
    are not larger than the user pool. -/
def validate (c : Config) : Except Fault Unit := do
  c.layout.validate
  if c.timeSlice = 0 then
    throw .invalidSizeOrMemoryAddress
  if c.stackSize < 1 || c.layout.userPool.length.toInt64 < c.stackSize then
    throw .invalidMemorySize

end Config

end Timeshare
