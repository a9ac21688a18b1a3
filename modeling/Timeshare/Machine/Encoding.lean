import Timeshare.Fault
import Timeshare.Machine.Instruction

namespace Timeshare

/-!
# The instruction format

Instruction words are read digit by digit in decimal.  The word
`opcode * 10000 + mode₁ * 1000 + register₁ * 100 + mode₂ * 10 + register₂` holds an operation
and its two operands.

* `Instruction.decode` reads a word and says which field is the first wrong one: the opcode,
  then the modes, then the registers;
* `Instruction.encode` writes the word of an instruction.
-/

namespace Instruction

/-- Reads an instruction word. -/
def decode (w : Word) : Except Fault Instruction :=
  if w < 0 then
    .error .invalidOpcode
  else
    let n := w.toNatClampNeg
    match Opcode.ofCode? (n / 10000) with
    | none => .error .invalidOpcode
    | some opcode =>
      match AddressingMode.ofCode? (n / 1000 % 10), AddressingMode.ofCode? (n / 10 % 10) with
      | some mode₁, some mode₂ =>
        match Register.ofDigit? (n / 100 % 10), Register.ofDigit? (n % 10) with
        | some register₁, some register₂ => .ok ⟨opcode, ⟨mode₁, register₁⟩, ⟨mode₂, register₂⟩⟩
        | _, _ => .error .invalidRegister
      | _, _ => .error .invalidMode

/-- The number that an instruction is written as. -/
def encodeNat (i : Instruction) : Nat :=
  i.opcode.code * 10000 + i.first.mode.code * 1000 + i.first.register.val * 100
    + i.second.mode.code * 10 + i.second.register.val

/-- Writes the word of an instruction. -/
def encode (i : Instruction) : Word := Int64.ofNat i.encodeNat

end Instruction

end Timeshare
