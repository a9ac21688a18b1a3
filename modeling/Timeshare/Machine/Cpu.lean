import Timeshare.Logged
import Timeshare.Machine.Encoding
import Timeshare.Machine.Memory

namespace Timeshare

/-!
# The processor

The processor owns the registers, and the window in which the stack of the running program
lives.  This module holds what it does on the way to an instruction's operands:

* `Cpu.fetch` reads and decodes the next instruction;
* `Cpu.nextWord` reads a word that follows an instruction;
* `Cpu.operand` finds an operand, with the side effects of its addressing mode.

None of them writes to memory: memory is their argument and the processor their state.  What a
step has done to the registers stays done when it fails later.
-/

/-- The inclusive window of a stack.  The stack grows upwards; it is empty when the stack
    pointer is one below `base` and full when it is at `limit`. -/
structure StackBounds where
  base : Word
  limit : Word
  deriving DecidableEq, Repr

/-- The window of a stack of `size` words from `start` on. -/
def StackBounds.ofSize (start size : Word) : StackBounds := ⟨start, start + size - 1⟩

/-- The processor. -/
structure Cpu where
  registers : Registers := {}
  /-- The stack of the running program, if it is bounded. -/
  stack : Option StackBounds := none
  /-- The areas that a program may run in and reach. -/
  layout : Layout := {}
  deriving DecidableEq, Repr

/-- Where an operand was found, which is where a result goes. -/
inductive Location where
  | register (r : Register)
  | memory (a : Address)
  /-- The operand is part of the program and cannot be written to. -/
  | program
  deriving DecidableEq, Repr

/-- An operand: its value and where it was found. -/
structure Operand where
  location : Location
  value : Word
  deriving DecidableEq, Repr

namespace Cpu

/-- The processor as it is when switched on. -/
def reset (c : Cpu) : Cpu := { c with registers := {}, stack := none }

/-- The address in the program counter, if it is in the program area. -/
def programAddress (c : Cpu) : Except Fault Address :=
  if c.layout.userProgram.contains c.registers.pc then
    match Address.ofWord? c.registers.pc with
    | some a => .ok a
    | none => .error .invalidPcValue
  else
    .error .invalidPcValue

/-- The address that a word names, if a program may reach it. -/
def reachable (c : Cpu) (w : Word) : Except Fault Address :=
  if c.layout.operandRange.contains w then
    match Address.ofWord? w with
    | some a => .ok a
    | none => .error .invalidAddress
  else
    .error .invalidAddress

/-- The operand that lives at an address. -/
def memoryOperand (m : Memory) (a : Address) : Operand := ⟨.memory a, m.read a⟩

/-- Changes the registers. -/
def modifyRegisters (f : Registers → Registers) : Action Cpu Unit :=
  modify fun c => { c with registers := f c.registers }

/-- Reads the word at the program counter and goes on to the next. -/
def nextWord (m : Memory) : Action Cpu Word := do
  let c ← get
  let a ← Action.ofExcept c.programAddress
  modifyRegisters fun r => { r with pc := r.pc + 1 }
  return m.read a

/-- Reads the next instruction.  The registers show the fetch also if the word is no
    instruction. -/
def fetch (m : Memory) : Action Cpu Instruction := do
  let c ← get
  let a ← Action.ofExcept c.programAddress
  let w := m.read a
  modifyRegisters fun r => { r with mar := a.toWord, mbr := w, ir := w, pc := r.pc + 1 }
  Action.ofExcept (Instruction.decode w)

/-- Finds an operand. -/
def operand (m : Memory) (spec : OperandSpec) : Action Cpu Operand := do
  let c ← get
  let content := c.registers.get spec.register
  match spec.mode with
  | .unused => throw .invalidMode
  | .register => return ⟨.register spec.register, content⟩
  | .deferred =>
    let a ← Action.ofExcept (c.reachable content)
    return memoryOperand m a
  | .autoIncrement =>
    let a ← Action.ofExcept (c.reachable content)
    modifyRegisters fun r => r.set spec.register (a.toWord + 1)
    return memoryOperand m a
  | .autoDecrement =>
    modifyRegisters fun r => r.set spec.register (content - 1)
    let a ← Action.ofExcept (c.reachable (content - 1))
    return memoryOperand m a
  | .direct =>
    let w ← nextWord m
    let a ← Action.ofExcept (c.reachable w)
    return memoryOperand m a
  | .immediate =>
    let w ← nextWord m
    return ⟨.program, w⟩

end Cpu

end Timeshare
