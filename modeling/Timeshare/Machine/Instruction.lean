import Timeshare.Machine.Register

namespace Timeshare

/-!
# Instructions

An instruction names an operation and two operands.  An operand is an addressing mode with a
register digit; the digit is kept also where the mode ignores it.  The words that direct and
immediate operands and branches read follow the instruction and are not part of it.
-/

/-- The operations of the machine. -/
inductive Opcode where
  /-- Stop the program. -/
  | halt
  /-- Add the second operand to the first. -/
  | add
  /-- Subtract the second operand from the first. -/
  | subtract
  /-- Multiply the first operand by the second. -/
  | multiply
  /-- Divide the first operand by the second. -/
  | divide
  /-- Copy the second operand into the first. -/
  | move
  /-- Go on at the word that follows. -/
  | branch
  /-- Branch if the operand is negative. -/
  | branchOnMinus
  /-- Branch if the operand is positive. -/
  | branchOnPlus
  /-- Branch if the operand is zero. -/
  | branchOnZero
  /-- Put the operand on the stack. -/
  | push
  /-- Take the top of the stack into the operand. -/
  | pop
  /-- Call the operating system; the operand says what for. -/
  | systemCall
  deriving DecidableEq, Repr

namespace Opcode

/-- All operations, in the order of their codes. -/
def all : List Opcode :=
  [halt, add, subtract, multiply, divide, move, branch, branchOnMinus, branchOnPlus, branchOnZero,
    push, pop, systemCall]

/-- The number of an operation. -/
def code : Opcode → Nat
  | halt => 0
  | add => 1
  | subtract => 2
  | multiply => 3
  | divide => 4
  | move => 5
  | branch => 6
  | branchOnMinus => 7
  | branchOnPlus => 8
  | branchOnZero => 9
  | push => 10
  | pop => 11
  | systemCall => 12

/-- The operation that a number stands for. -/
def ofCode? (n : Nat) : Option Opcode := all[n]?

/-- The time units that one execution takes. -/
def cost : Opcode → UInt64
  | halt | systemCall => 12
  | multiply | divide => 6
  | add | subtract => 3
  | branchOnMinus | branchOnPlus | branchOnZero => 4
  | move | branch | push | pop => 2

/-- The short name of an operation, as in program listings. -/
def mnemonic : Opcode → String
  | halt => "halt"
  | add => "add"
  | subtract => "sub"
  | multiply => "mul"
  | divide => "div"
  | move => "move"
  | branch => "br"
  | branchOnMinus => "brm"
  | branchOnPlus => "brp"
  | branchOnZero => "brz"
  | push => "push"
  | pop => "pop"
  | systemCall => "sys"

/-- The name of an operation in reports. -/
def name : Opcode → String
  | halt => "Halt"
  | add => "Add"
  | subtract => "Subtract"
  | multiply => "Multiply"
  | divide => "Divide"
  | move => "Move"
  | branch => "Branch"
  | branchOnMinus => "BranchOnMinus"
  | branchOnPlus => "BranchOnPlus"
  | branchOnZero => "BranchOnZero"
  | push => "Push"
  | pop => "Pop"
  | systemCall => "SystemCall"

/-- An opcode is found by its code. -/
@[simp] theorem ofCode?_code (o : Opcode) : ofCode? o.code = some o := by cases o <;> rfl

theorem code_lt (o : Opcode) : o.code < 13 := by cases o <;> decide

/-- Every operation takes time: `2 ≤ o.cost`. -/
theorem two_le_cost (o : Opcode) : 2 ≤ o.cost := by cases o <;> decide

end Opcode

/-- How an operand finds its value. -/
inductive AddressingMode where
  /-- There is no operand. -/
  | unused
  /-- The operand is the register. -/
  | register
  /-- The register holds the operand's address. -/
  | deferred
  /-- The register holds the operand's address and is then incremented. -/
  | autoIncrement
  /-- The register is decremented and then holds the operand's address. -/
  | autoDecrement
  /-- The next word holds the operand's address. -/
  | direct
  /-- The next word is the operand, which cannot be written to. -/
  | immediate
  deriving DecidableEq, Repr

namespace AddressingMode

/-- All modes, in the order of their codes. -/
def all : List AddressingMode :=
  [unused, register, deferred, autoIncrement, autoDecrement, direct, immediate]

/-- The digit of a mode. -/
def code : AddressingMode → Nat
  | unused => 0
  | register => 1
  | deferred => 2
  | autoIncrement => 3
  | autoDecrement => 4
  | direct => 5
  | immediate => 6

/-- The mode that a digit stands for. -/
def ofCode? (n : Nat) : Option AddressingMode := all[n]?

/-- Whether the register digit takes part in finding the operand. -/
def usesRegister : AddressingMode → Bool
  | register | deferred | autoIncrement | autoDecrement => true
  | _ => false

/-- The name of a mode in reports. -/
def name : AddressingMode → String
  | unused => "Unused"
  | register => "Register"
  | deferred => "RegisterDeferred"
  | autoIncrement => "AutoIncrement"
  | autoDecrement => "AutoDecrement"
  | direct => "Direct"
  | immediate => "Immediate"

/-- An addressing mode is found by its code. -/
@[simp] theorem ofCode?_code (m : AddressingMode) : ofCode? m.code = some m := by
  cases m <;> rfl

theorem code_lt (m : AddressingMode) : m.code < 7 := by cases m <;> decide

end AddressingMode

/-- One operand of an instruction. -/
structure OperandSpec where
  mode : AddressingMode
  register : Register
  deriving DecidableEq, Repr

/-- An operand, as in program listings. -/
def OperandSpec.text (o : OperandSpec) : String :=
  match o.mode with
  | .unused => "-"
  | .register => o.register.name
  | .deferred => s!"({o.register.name})"
  | .autoIncrement => s!"({o.register.name})+"
  | .autoDecrement => s!"-({o.register.name})"
  | .direct => "[addr]"
  | .immediate => "#imm"

/-- A decoded instruction word. -/
structure Instruction where
  opcode : Opcode
  first : OperandSpec
  second : OperandSpec
  deriving DecidableEq, Repr

/-- An instruction, as in program listings: the short name with the operands that the operation
    uses. -/
def Instruction.text (i : Instruction) : String :=
  match i.opcode with
  | .halt | .branch => i.opcode.mnemonic
  | .branchOnMinus | .branchOnPlus | .branchOnZero | .push | .pop | .systemCall =>
    s!"{i.opcode.mnemonic} {i.first.text}"
  | .add | .subtract | .multiply | .divide | .move =>
    s!"{i.opcode.mnemonic} {i.first.text}, {i.second.text}"

end Timeshare
