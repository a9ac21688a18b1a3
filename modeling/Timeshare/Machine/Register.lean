import Timeshare.Word

namespace Timeshare

/-!
# Registers

The machine has eight general registers, a program counter, a stack pointer, a privilege
level, three registers that show the last fetch, and a clock.
-/

/-- A general register, named by the register digit of an operand. -/
abbrev Register := Fin 8

namespace Register

/-- All registers, in the order of their digits. -/
def all : List Register := [0, 1, 2, 3, 4, 5, 6, 7]

/-- The register that answers travel in. -/
def r0 : Register := 0

/-- The first register for arguments and results. -/
def r1 : Register := 1

/-- The second register for arguments and results. -/
def r2 : Register := 2

/-- The third register for results. -/
def r3 : Register := 3

/-- The register that a digit names; the digits 8 and 9 name none. -/
def ofDigit? (d : Nat) : Option Register := if h : d < 8 then some ⟨d, h⟩ else none

/-- The name of a register. -/
def name (r : Register) : String := s!"R{r.val}"

end Register

/-- The privilege level that the processor works at. -/
inductive Privilege where
  /-- The kernel's level. -/
  | os
  /-- The level of programs. -/
  | user
  deriving DecidableEq, Repr

namespace Privilege

/-- Both privilege levels. -/
def all : List Privilege := [os, user]

/-- The number that stands for a level in the saved status word. -/
def code : Privilege → Word
  | os => 1
  | user => 2

/-- The level that a number stands for. -/
def ofCode? (w : Word) : Option Privilege := all.find? (fun p => p.code == w)

/-- The name of a level in reports. -/
def name : Privilege → String
  | os => "OsMode"
  | user => "UserMode"

/-- A privilege level is found by its code. -/
theorem ofCode?_code (p : Privilege) : ofCode? p.code = some p := by cases p <;> decide

end Privilege

/-- The register file. -/
@[ext] structure Registers where
  /-- The general registers. -/
  gpr : Vector Word 8 := Vector.replicate 8 0
  /-- The program counter: where the next word of the program is fetched from. -/
  pc : Word := 0
  /-- The stack pointer: where the top of the stack is. -/
  sp : Word := 0
  privilege : Privilege := .os
  /-- Where the last instruction was fetched from. -/
  mar : Word := 0
  /-- The word that the last fetch read. -/
  mbr : Word := 0
  /-- The last instruction word. -/
  ir : Word := 0
  /-- The time units used since the machine was switched on. -/
  clock : UInt64 := 0
  deriving DecidableEq, Repr

namespace Registers

instance : Inhabited Registers := ⟨{}⟩

/-- The content of a general register. -/
def get (r : Registers) (i : Register) : Word := r.gpr[i]

/-- The register file with another content in one general register. -/
def set (r : Registers) (i : Register) (w : Word) : Registers := { r with gpr := r.gpr.set i w }

/-- A register that has just been set is read back. -/
@[simp] theorem get_set_self (r : Registers) (i : Register) (w : Word) :
    (r.set i w).get i = w := by simp [get, set]

/-- Setting the register `i` leaves every other register `j`. -/
theorem get_set_of_ne (r : Registers) {i j : Register} (w : Word) (h : i ≠ j) :
    (r.set i w).get j = r.get j := by
  have : (i : Nat) ≠ j := fun e => h (Fin.ext e)
  simp [get, set, this]

end Registers

end Timeshare
