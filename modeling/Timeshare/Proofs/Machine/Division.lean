import Timeshare.Proofs.Machine.Footprint

namespace Timeshare

/-!
# Division by zero

A division by zero writes nothing.  It is found out when both operands have been found, and what finding
them does to the registers stays: a register that is divided, and that the second operand counts up or
down on its way to the divisor, is left one up or one down.

* `Machine.content s l` — the word at a location.
* `Machine.divide_by_zero` — the fault, and what it leaves of memory and of the first operand.
* `Machine.divide_by_zero_counted` — a division that leaves its first operand changed.
-/

open Timeshare.Action

/-- What is added to a register that the operand is found through. -/
def AddressingMode.step : AddressingMode → Word
  | .autoIncrement => 1
  | .autoDecrement => -1
  | .unused | .register | .deferred | .direct | .immediate => 0

/-- Finding an operand adds `spec.mode.step` to the register that it counts up or down. -/
theorem OperandSpec.get_after_stepped {spec : OperandSpec} {j : Register} (h : j ∈ spec.stepped)
    (r : Registers) : (spec.after r).get j = r.get j + spec.mode.step := by
  obtain ⟨mode, register⟩ := spec
  cases mode with
  | autoIncrement =>
    obtain rfl : j = register := List.mem_singleton.mp h
    exact Registers.get_set_self _ _ _
  | autoDecrement =>
    obtain rfl : j = register := List.mem_singleton.mp h
    exact (Registers.get_set_self _ _ _).trans (Int64.sub_eq_add_neg _ _)
  | unused | register | deferred | direct | immediate => exact absurd h List.not_mem_nil

namespace Machine

variable {τ : Type} {handler : TrapHandler τ} {s v : Machine τ} {i : Instruction} {o o' : Operand}

/-- The word at a location of an operand; an operand that is a part of the program has none. -/
def content (s : Machine τ) : Location → Option Word
  | .register r => some (s.cpu.registers.get r)
  | .memory a => some (s.memory.read a)
  | .program => none

/-- Fetches an instruction and finds both operands. -/
def locateBoth : Action (Machine τ) (Instruction × Operand × Operand) := do
  let (i, o) ← locate
  let o' ← operand i.second
  return (i, o, o')

/-- Both operands are found iff the instruction is fetched and each of them is found, one after the
    other. -/
theorem exec_locateBoth_iff : exec locateBoth s = (.ok (i, o, o'), v) ↔
    ∃ t u, exec (onCpu (Cpu.fetch s.memory)) s = (.ok i, t)
      ∧ exec (operand i.first) t = (.ok o, u) ∧ exec (operand i.second) u = (.ok o', v) := by
  constructor
  · intro h
    obtain ⟨⟨j, p⟩, u, hlocate, h⟩ := exec_bind_eq_ok_iff.mp h
    obtain ⟨q, w, hsecond, h⟩ := exec_bind_eq_ok_iff.mp h
    cases h
    have hnext : s.next? = some (i, o, u) := by rw [next?, hlocate]
    obtain ⟨t, hfetch, hfirst⟩ := next?_eq_some_iff.mp hnext
    exact ⟨t, u, hfetch, hfirst, hsecond⟩
  · rintro ⟨t, u, hfetch, hfirst, hsecond⟩
    rw [locateBoth, locate, exec_bind, exec_bind_ok (exec_get s), exec_bind_ok hfetch,
      exec_bind_ok hfirst, exec_pure]
    exact exec_bind_ok hsecond

/-- **Division by zero.**  A division whose second operand has the value `0` fails with
    `divideByZero`.  Memory is as it was, and so is what was to be divided, `v.content o.location`,
    unless it is a register that the second operand counts up or down; then `i.second.mode.step` is
    added to it. -/
theorem divide_by_zero (handler : TrapHandler τ) (h : exec locateBoth s = (.ok (i, o, o'), v))
    (hi : i.opcode = .divide) (hzero : o'.value = 0) :
    exec (step handler) s = (.error .divideByZero, v)
      ∧ v.memory = s.memory
      ∧ ((∀ r ∈ i.second.stepped, o.location ≠ .register r) →
          v.content o.location = s.content o.location)
      ∧ ∀ r ∈ i.second.stepped, o.location = .register r →
          v.cpu.registers.get r = s.cpu.registers.get r + i.second.mode.step := by
  obtain ⟨t, u, hfetch, hfirst, hsecond⟩ := exec_locateBoth_iff.mp h
  have hstep : exec (step handler) s = (.error .divideByZero, v) := by
    rw [exec_step_ok hfetch]
    simp only [execute, hi, exec_bind, hfirst, hsecond, exec_ofExcept, Opcode.combine, hzero,
      if_true]
  have ht : Touches [] s t := ((ends_of_ok hfetch).mp (fetch_reads s)).toTouches
  obtain ⟨hfinds, rfl, -⟩ := (ends_of_ok hfirst).mp (operand_after i.first)
  obtain ⟨-, rfl, -⟩ := (ends_of_ok hsecond).mp (operand_after i.second)
  have hmemory : t.memory = s.memory := ht.still.memory
  -- The first operand counts no register if it is a register itself.
  have hregister : ∀ r, o.location = .register r →
      (i.first.after t.cpu.registers).get r = s.cpu.registers.get r := by
    intro r hr
    obtain ⟨hmode, -⟩ := hfinds.register r hr
    have hplain : r ∉ i.first.stepped := by simp [OperandSpec.stepped, hmode]
    rw [OperandSpec.get_after hplain, ht.gpr r List.not_mem_nil]
  refine ⟨hstep, hmemory, fun hapart => ?_, fun r hr hl => ?_⟩
  · cases hl : o.location with
    | register r =>
      have hr : r ∉ i.second.stepped := fun hin => hapart r hin hl
      exact congrArg some ((OperandSpec.get_after hr _).trans (hregister r hl))
    | memory a => exact congrArg (fun m : Memory => some (m.read a)) hmemory
    | program => rfl
  · rw [← hregister r hl]
    exact OperandSpec.get_after_stepped hr _

/-- A register divided by a zero that another register refers to. -/
theorem divide_by_zero_apart :
    let s : Machine Unit := ⟨{ registers := { gpr := #v[7, 100, 0, 0, 0, 0, 0, 0] } },
      Memory.zero.write ⟨0, by decide⟩ 41031, ()⟩
    (exec locateBoth s).1 = .ok (⟨.divide, ⟨.register, 0⟩, ⟨.autoIncrement, 1⟩⟩, ⟨.register 0, 7⟩,
        ⟨.memory ⟨100, by decide⟩, 0⟩)
      ∧ (exec (step TrapHandler.accepting) s).1 = .error .divideByZero
      ∧ (exec (step TrapHandler.accepting) s).2.content (.register 0) = s.content (.register 0) := by
  intro s
  have hboth : (exec locateBoth s).1 = .ok (⟨.divide, ⟨.register, 0⟩, ⟨.autoIncrement, 1⟩⟩,
      ⟨.register 0, 7⟩, ⟨.memory ⟨100, by decide⟩, 0⟩) := by decide +kernel
  obtain ⟨hstep, -, hcontent, -⟩ := divide_by_zero TrapHandler.accepting (Prod.ext hboth rfl) rfl rfl
  rw [hstep]
  exact ⟨hboth, rfl, hcontent (by simp [OperandSpec.stepped])⟩

/-- A register divided by the zero that it refers to itself, on its way to the next word. -/
theorem divide_by_zero_counted :
    let s : Machine Unit := ⟨{ registers := { gpr := #v[0, 100, 0, 0, 0, 0, 0, 0] } },
      Memory.zero.write ⟨0, by decide⟩ 41131, ()⟩
    (exec locateBoth s).1 = .ok (⟨.divide, ⟨.register, 1⟩, ⟨.autoIncrement, 1⟩⟩, ⟨.register 1, 100⟩,
        ⟨.memory ⟨100, by decide⟩, 0⟩)
      ∧ (exec (step TrapHandler.accepting) s).1 = .error .divideByZero
      ∧ s.content (.register 1) = some 100
      ∧ (exec (step TrapHandler.accepting) s).2.content (.register 1) = some 101 := by
  decide +kernel

end Machine

end Timeshare
