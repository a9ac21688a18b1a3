import Timeshare.Address

namespace Timeshare

/-!
# Pools and blocks

The names of the two pools of memory, and the free blocks that a pool consists of.
-/

/-- Whom a pool serves. -/
inductive PoolOwner where
  /-- The kernel, for process records. -/
  | os
  /-- The processes, for stacks and for the memory that they ask for. -/
  | user
  deriving DecidableEq, Repr

/-- The name of a pool in reports. -/
def PoolOwner.name : PoolOwner → String
  | os => "Os"
  | user => "User"

/-- A free block: where it starts and how many words it has. -/
structure FreeBlock where
  address : Address
  size : Word
  deriving DecidableEq, Repr

/-- A free block has to hold its link and its size, so no block is smaller than this. -/
def minBlockSize : Word := 2

end Timeshare
