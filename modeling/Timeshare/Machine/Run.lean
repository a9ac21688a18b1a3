import Timeshare.Machine.Meter
import Timeshare.Machine.Trap

namespace Timeshare

/-!
# Running programs

`Machine τ` is a processor with its memory and the state `τ` of whoever answers its traps.

* `Machine.step` executes one instruction;
* `Machine.run` executes instructions until the program halts, has to wait or fails, or its
  meter stops it, and `Machine.runSlice` does so within a time slice;
* `Machine.loadCode` and `Machine.reset` prepare a machine by hand.

A step charges nothing.  A run adds the cost of each instruction that did not fail to the clock
and tells it to the meter; an instruction that halts or waits ends the run in its own way even
if it also uses up the time slice.
-/

/-- A processor and its memory, with the state of whoever answers its traps. -/
structure Machine (τ : Type) where
  cpu : Cpu
  memory : Memory
  host : τ

/-- How a program goes on after an instruction. -/
inductive Step where
  | proceed
  | halt
  | block (status : Status)
  deriving DecidableEq, Repr

/-- The result that an arithmetic instruction or a move writes to its first operand. -/
def Opcode.combine (o : Opcode) (a b : Word) : Except Fault Word :=
  match o with
  | .add => .ok (a + b)
  | .subtract => .ok (a - b)
  | .multiply => .ok (a * b)
  | .divide => if b = 0 then .error .divideByZero else .ok (a / b)
  | _ => .ok b

/-- Whether a conditional branch is taken. -/
def Opcode.taken (o : Opcode) (w : Word) : Bool :=
  match o with
  | .branchOnMinus => w < 0
  | .branchOnPlus => 0 < w
  | _ => w == 0

namespace Machine

variable {τ : Type}

/-- A machine that has just been switched on. -/
def boot (layout : Layout) (host : τ) : Machine τ := ⟨{ layout }, .zero, host⟩

/-- The machine with zero in every word of memory and in every register, the clock included. -/
def reset (s : Machine τ) : Machine τ := { s with cpu := s.cpu.reset, memory := .zero }

/-- Does something with the processor. -/
def onCpu {α : Type} : Action Cpu α → Action (Machine τ) α :=
  Action.zoom (·.cpu) fun c s => { s with cpu := c }

/-- Changes the registers. -/
def modifyRegisters (f : Registers → Registers) : Action (Machine τ) Unit :=
  onCpu (Cpu.modifyRegisters f)

/-- Finds an operand. -/
def operand (spec : OperandSpec) : Action (Machine τ) Operand := do
  let s ← get
  onCpu (Cpu.operand s.memory spec)

/-- Reads a word that follows an instruction. -/
def nextWord : Action (Machine τ) Word := do
  let s ← get
  onCpu (Cpu.nextWord s.memory)

/-- Writes a result to where an operand was found. -/
def store (location : Location) (w : Word) : Action (Machine τ) Unit :=
  match location with
  | .register r => modifyRegisters (·.set r w)
  | .memory a => modify fun s => { s with memory := s.memory.write a w }
  | .program => throw .invalidMode

/-- Hands the machine to a trap handler. -/
def trap (handler : TrapHandler τ) (number : Word) : Action (Machine τ) TrapOutcome :=
  Action.zoom (fun s => ⟨s.cpu.registers, s.memory, s.host⟩)
    (fun t s =>
      { s with cpu := { s.cpu with registers := t.registers }, memory := t.memory, host := t.host })
    (handler number)

/-- Executes an instruction; the program counter is already behind its word. -/
def execute (handler : TrapHandler τ) (i : Instruction) : Action (Machine τ) Step :=
  match i.opcode with
  | .halt => return .halt
  | .add | .subtract | .multiply | .divide | .move => do
    let target ← operand i.first
    let source ← operand i.second
    let result ← Action.ofExcept (i.opcode.combine target.value source.value)
    store target.location result
    return .proceed
  | .branch => do
    let target ← nextWord
    modifyRegisters ({ · with pc := target })
    return .proceed
  | .branchOnMinus | .branchOnPlus | .branchOnZero => do
    let condition ← operand i.first
    let target ← nextWord
    if i.opcode.taken condition.value then
      modifyRegisters ({ · with pc := target })
    return .proceed
  | .push => do
    let source ← operand i.first
    let c := (← get).cpu
    let sp := c.registers.sp + 1
    if let some bounds := c.stack then
      if bounds.limit < sp then throw .stackOverflow
    let a ← Action.ofExcept (c.reachable sp)
    store (.memory a) source.value
    modifyRegisters ({ · with sp })
    return .proceed
  | .pop => do
    let target ← operand i.first
    let s ← get
    let sp := s.cpu.registers.sp
    if let some bounds := s.cpu.stack then
      if sp < bounds.base then throw .stackUnderflow
    let a ← Action.ofExcept (s.cpu.reachable sp)
    store target.location (s.memory.read a)
    modifyRegisters ({ · with sp := sp - 1 })
    return .proceed
  | .systemCall => do
    let call ← operand i.first
    Action.note (.trapped call.value (← get).cpu.registers.pc)
    modifyRegisters ({ · with privilege := .os })
    let outcome ← Action.observe (trap handler call.value)
    modifyRegisters ({ · with privilege := .user })
    match (← Action.ofExcept outcome) with
    | .proceed => return .proceed
    | .block status => return .block status

/-- Executes the next instruction and returns it. -/
def step (handler : TrapHandler τ) : Action (Machine τ) (Instruction × Step) := do
  let s ← get
  let i ← onCpu (Cpu.fetch s.memory)
  Action.note (.fetched s.cpu.registers.pc (← get).cpu.registers.ir i)
  let next ← execute handler i
  return (i, next)

/-- Adds the cost of an instruction to the clock. -/
def tick (cost : UInt64) (s : Machine τ) : Machine τ :=
  { s with cpu := { s.cpu with registers :=
    { s.cpu.registers with clock := s.cpu.registers.clock + cost } } }

/-- How a run ended, what its meter says, and the machine after it. -/
structure Ended (τ : Type) where
  outcome : Except Fault Status
  meter : Meter
  machine : Machine τ

/-- One turn of a run: executes an instruction, charges for it, and says whether the run is
    over. -/
def advance (handler : TrapHandler τ) (s : Meter × Machine τ) :
    Logged (Ended τ ⊕ (Meter × Machine τ)) := do
  let (meter, machine) := s
  match (← (ExceptT.run (step handler)).run machine) with
  | (.error fault, machine) => return .inl ⟨.error fault, meter, machine⟩
  | (.ok (i, next), machine) =>
    let machine := machine.tick i.opcode.cost
    let (verdict, meter) := meter.charge i.opcode.cost
    match next, verdict with
    | .halt, _ => return .inl ⟨.ok .halted, meter, machine⟩
    | .block status, _ => return .inl ⟨.ok status, meter, machine⟩
    | .proceed, .proceed => return .inr (meter, machine)
    | .proceed, .stop => do
      Logged.note (.sliceExpired machine.cpu.registers.pc)
      return .inl ⟨.ok .timeSliceExpired, meter, machine⟩

/-- Runs a program for at most `fuel` instructions.  The machine is returned as it is then if
    the run is not over. -/
def run (handler : TrapHandler τ) (fuel : Nat) (meter : Meter) (machine : Machine τ) :
    Logged (Ended τ ⊕ (Meter × Machine τ)) :=
  Logged.loop (advance handler) fuel (meter, machine)

/-- The number of instructions after which a time slice is used up for sure: each takes two
    units at least, and the first is executed in any case. -/
def sliceFuel (budget : UInt64) : Nat := budget.toNat / 2 + 1

/-- Runs a program for one time slice. -/
def runSlice (handler : TrapHandler τ) (budget : UInt64) (machine : Machine τ) :
    Logged (Ended τ) := do
  match (← run handler (sliceFuel budget) (.slice (.fresh budget)) machine) with
  | .inl ended => return ended
  | .inr (meter, machine) => return ⟨.ok .timeSliceExpired, meter, machine⟩

/-- Writes a program to consecutive words and sets the program counter to its start. -/
def loadCode (start : Address) (words : List Word) : Action (Machine τ) Unit := do
  let s ← get
  let memory ← Action.ofExcept (s.memory.writeBlock start words)
  set { s with memory }
  modifyRegisters ({ · with pc := start.toWord })
  Action.note (.codeWritten words.length start)

end Machine

end Timeshare
