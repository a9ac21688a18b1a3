import Timeshare.Machine.Run
import Timeshare.Proofs.Action
import Timeshare.Proofs.Memory

namespace Timeshare

/-!
# What a program can reach

A program finds its words through the program counter and through its operands.  Both are checked
against the layout, so whatever it reads or names lies in the range of operands.

* `Cpu.programAddress_mem`, `Cpu.reachable_mem` — the two checks.
* `Machine.operand_ends`, `Machine.nextWord_ends` — finding an operand changes registers only, and
  an operand in memory lies in the range.
* `Registers.steady` — the registers that finding an operand leaves alone (`Cpu.keeps_operand` and its
  companions): the stack pointer, the privilege level and the clock.
* `Cpu.fetch_congr`, `Cpu.nextWord_congr`, `Cpu.operand_congr` — on memories that agree on the range
  all of it is the same.
-/

/-- A word that names an address is the word of that address: `a.toWord = w`. -/
theorem Address.toWord_of_ofWord? {w : Word} {a : Address} (h : ofWord? w = some a) : a.toWord = w :=
  Int64.toInt_inj.mp (a.toInt_toWord.trans (ofWord?_eq_some_iff.mp h).symm)

/-- The registers that have nothing to do with finding the words of an instruction. -/
def Registers.steady (r : Registers) : Word × Privilege × UInt64 := (r.sp, r.privilege, r.clock)

namespace Cpu

variable {c : Cpu} {m n : Memory}

/-- The processor with other registers. -/
def withRegisters (c : Cpu) (r : Registers) : Cpu := { c with registers := r }

/-! ### The checks -/

/-- What is fetched next is at the address in the program counter, whatever the layout is:
    `a.toWord = c.registers.pc`. -/
theorem toWord_programAddress {a : Address} (h : c.programAddress = .ok a) :
    a.toWord = c.registers.pc := by
  unfold programAddress at h
  split at h
  · split at h
    · rename_i ha
      obtain rfl := Except.ok.inj h
      exact Address.toWord_of_ofWord? ha
    · exact absurd h (by simp)
  · exact absurd h (by simp)

/-- An operand's address is the one that the word `w` names, and passes the check of
    `operandRange`. -/
theorem contains_reachable {w : Word} {a : Address} (h : c.reachable w = .ok a) :
    c.layout.operandRange.contains w = true ∧ a.toWord = w := by
  unfold reachable at h
  split at h
  · rename_i hin
    split at h
    · rename_i ha
      obtain rfl := Except.ok.inj h
      exact ⟨hin, Address.toWord_of_ofWord? ha⟩
    · exact absurd h (by simp)
  · exact absurd h (by simp)

/-- An operand's address is the one that the word names: `a.toWord = w`. -/
theorem toWord_reachable {w : Word} {a : Address} (h : c.reachable w = .ok a) : a.toWord = w :=
  (contains_reachable h).2

/-- In a valid layout, the address in the program counter is one of `userProgram`. -/
theorem programAddress_mem (hL : c.layout.Valid) {a : Address} (h : c.programAddress = .ok a) :
    a ∈ c.layout.userProgram ∧ a.toWord = c.registers.pc := by
  unfold programAddress at h
  split at h
  · rename_i hin
    obtain ⟨b, hb, hmem, hword⟩ := hL.userProgram.ofWord?_of_contains hin
    rw [hb] at h
    obtain rfl := Except.ok.inj h
    exact ⟨hmem, hword⟩
  · exact absurd h (by simp)

/-- In a valid layout, an operand's address is one of `c.layout.operandRange`. -/
theorem reachable_mem (hL : c.layout.Valid) {w : Word} {a : Address} (h : c.reachable w = .ok a) :
    a ∈ c.layout.operandRange ∧ a.toWord = w := by
  unfold reachable at h
  split at h
  · rename_i hin
    obtain ⟨b, hb, hmem, hword⟩ := hL.operandRange.ofWord?_of_contains hin
    rw [hb] at h
    obtain rfl := Except.ok.inj h
    exact ⟨hmem, hword⟩
  · exact absurd h (by simp)

/-- A word between the bounds of `operandRange` names an address that passes the check. -/
theorem exists_reachable (hL : c.layout.Valid) {w : Word}
    (hs : (c.layout.operandRange.start.toNat : Int) ≤ w.toInt)
    (hl : w.toInt ≤ c.layout.operandRange.last.toNat) :
    ∃ a, c.reachable w = .ok a ∧ (a.index : Int) = w.toInt := by
  have hin := hL.operandRange.contains_iff.mpr ⟨hs, hl⟩
  obtain ⟨a, ha, -, hword⟩ := hL.operandRange.ofWord?_of_contains hin
  refine ⟨a, by rw [reachable, if_pos hin, ha], ?_⟩
  rw [← hword, Address.toInt_toWord]

/-! ### One processor -/

/-- Reading a word that follows an instruction changes registers only, to `c.withRegisters r`, and
    nothing if it fails. -/
theorem nextWord_ends :
    Action.Ends (nextWord m) c (fun _ d => ∃ r, d = c.withRegisters r) (fun _ d => d = c) := by
  simp only [nextWord, modifyRegisters, Action.ends_bind, Action.ends_get, Action.ends_ofExcept,
    Action.ends_modify, Action.ends_pure]
  exact ⟨fun a _ => ⟨_, rfl⟩, fun e _ => trivial⟩

/-- Fetching an instruction changes registers only, to `c.withRegisters r`, whether it fails or
    not. -/
theorem fetch_ends :
    Action.Ends (fetch m) c (fun _ d => ∃ r, d = c.withRegisters r)
      (fun _ d => ∃ r, d = c.withRegisters r) := by
  simp only [fetch, modifyRegisters, Action.ends_bind, Action.ends_get, Action.ends_ofExcept,
    Action.ends_modify]
  exact ⟨fun a _ => ⟨fun i _ => ⟨_, rfl⟩, fun e _ => ⟨_, rfl⟩⟩, fun e _ => ⟨c.registers, rfl⟩⟩

/-- An operand is not in memory, or at an address that a program may reach. -/
def Reached (l : Layout) (o : Operand) : Prop := ∀ a, o.location = .memory a → a ∈ l.operandRange

/-- An operand at an address that has passed the check is `Reached`. -/
theorem reached_memoryOperand (hL : c.layout.Valid) {w : Word} {a : Address}
    (h : c.reachable w = .ok a) : Reached c.layout (memoryOperand m a) := by
  intro b hb
  obtain rfl := Location.memory.inj hb
  exact (reachable_mem hL h).1

/-- Finding an operand changes registers only, and if the operand is in memory then at an address of
    the range of operands: `Reached c.layout o`. -/
theorem operand_ends (hL : c.layout.Valid) (spec : OperandSpec) :
    Action.Ends (operand m spec) c
      (fun o d => Reached c.layout o ∧ ∃ r, d = c.withRegisters r)
      (fun _ d => ∃ r, d = c.withRegisters r) := by
  have hsame : ∃ r, c = c.withRegisters r := ⟨c.registers, rfl⟩
  obtain ⟨mode, register⟩ := spec
  simp only [operand, Action.ends_bind, Action.ends_get]
  cases mode with
  | unused => exact hsame
  | register =>
    refine ⟨fun a ha => ?_, hsame⟩
    exact absurd ha (by simp)
  | deferred =>
    simp only [Action.ends_bind, Action.ends_ofExcept, Action.ends_pure]
    exact ⟨fun a ha => ⟨reached_memoryOperand hL ha, hsame⟩, fun e _ => hsame⟩
  | autoIncrement =>
    simp only [modifyRegisters, Action.ends_bind, Action.ends_ofExcept, Action.ends_modify,
      Action.ends_pure]
    exact ⟨fun a ha => ⟨reached_memoryOperand hL ha, _, rfl⟩, fun e _ => hsame⟩
  | autoDecrement =>
    -- The register changes before the address is checked, so that a failure leaves the change.
    simp only [modifyRegisters, Action.ends_bind, Action.ends_ofExcept, Action.ends_modify,
      Action.ends_pure]
    exact ⟨fun a ha => ⟨reached_memoryOperand hL ha, _, rfl⟩, fun e _ => ⟨_, rfl⟩⟩
  | direct =>
    simp only [Action.ends_bind, Action.ends_ofExcept, Action.ends_pure]
    -- The address is the word that follows the instruction; reading it moves the program counter.
    exact nextWord_ends.mono
      (fun w d hd => ⟨fun a ha => ⟨reached_memoryOperand hL ha, hd⟩, fun e _ => hd⟩)
      (fun e d hd => ⟨c.registers, hd⟩)
  | immediate =>
    simp only [Action.ends_bind, Action.ends_pure]
    refine nextWord_ends.mono (fun w d hd => ⟨fun a ha => ?_, hd⟩)
      (fun e d hd => ⟨c.registers, hd⟩)
    exact absurd ha (by simp)

/-! ### Registers that stay -/

section Steady

variable {x : Word × Privilege × UInt64}

/-- A change of registers keeps `steady` if it leaves the stack pointer, the privilege level and the
    clock. -/
theorem keeps_modifyRegisters {f : Registers → Registers}
    (h : ∀ r, (f r).steady = r.steady) :
    Action.Keeps (·.registers.steady = x) (modifyRegisters f) :=
  fun c hc => (h c.registers).trans hc

theorem keeps_nextWord (m : Memory) :
    Action.Keeps (·.registers.steady = x) (nextWord m) :=
  Action.keeps_get.bind fun _ => (Action.keeps_ofExcept _).bind fun _ =>
    (keeps_modifyRegisters (by exact fun _ => rfl)).bind fun _ => Action.keeps_pure _

theorem keeps_fetch (m : Memory) : Action.Keeps (·.registers.steady = x) (fetch m) :=
  Action.keeps_get.bind fun _ => (Action.keeps_ofExcept _).bind fun _ =>
    (keeps_modifyRegisters (by exact fun _ => rfl)).bind fun _ => Action.keeps_ofExcept _

/-- Finding an operand leaves the `steady` registers alone: the stack pointer, the privilege level
    and the clock. -/
theorem keeps_operand (m : Memory) (spec : OperandSpec) :
    Action.Keeps (·.registers.steady = x) (operand m spec) := by
  refine Action.keeps_get.bind fun c => ?_
  obtain ⟨mode, register⟩ := spec
  cases mode with
  | unused => exact Action.keeps_throw _
  | register => exact Action.keeps_pure _
  | deferred => exact (Action.keeps_ofExcept _).bind fun _ => Action.keeps_pure _
  | autoIncrement =>
    exact (Action.keeps_ofExcept _).bind fun _ =>
      (keeps_modifyRegisters (by exact fun _ => rfl)).bind fun _ => Action.keeps_pure _
  | autoDecrement =>
    exact (keeps_modifyRegisters (by exact fun _ => rfl)).bind fun _ =>
      (Action.keeps_ofExcept _).bind fun _ => Action.keeps_pure _
  | direct =>
    exact (keeps_nextWord m).bind fun _ => (Action.keeps_ofExcept _).bind fun _ => Action.keeps_pure _
  | immediate => exact (keeps_nextWord m).bind fun _ => Action.keeps_pure _

end Steady

/-! ### Two memories -/

section Congruence

variable (hL : c.layout.Valid) (h : Memory.SameOn (· ∈ c.layout.operandRange) m n)

include hL h

/-- On memories that agree on the range of operands, the next word of the program is the same:
    `m.read a = n.read a`. -/
theorem read_programAddress {a : Address} (ha : c.programAddress = .ok a) :
    m.read a = n.read a :=
  h a (hL.program_mem_operandRange (programAddress_mem hL ha).1)

/-- On memories that agree on the range of operands, the operand `memoryOperand _ a` is the same. -/
theorem read_reachable {w : Word} {a : Address} (ha : c.reachable w = .ok a) :
    memoryOperand m a = memoryOperand n a := by
  rw [memoryOperand, memoryOperand, h a (reachable_mem hL ha).1]

/-- **Reading the next word** depends on the words that a program may reach alone. -/
theorem nextWord_congr : Action.exec (nextWord m) c = Action.exec (nextWord n) c := by
  cases ha : c.programAddress with
  | error e => simp only [nextWord, Action.exec_bind, Action.exec_get, Action.exec_ofExcept, ha]
  | ok a =>
    simp only [nextWord, modifyRegisters, Action.exec_bind, Action.exec_get, Action.exec_ofExcept,
      ha, Action.exec_modify, Action.exec_pure, read_programAddress hL h ha]

/-- **Fetching** depends on the words that a program may reach alone: it is the same on `m` and
    `n`. -/
theorem fetch_congr : Action.exec (fetch m) c = Action.exec (fetch n) c := by
  cases ha : c.programAddress with
  | error e => simp only [fetch, Action.exec_bind, Action.exec_get, Action.exec_ofExcept, ha]
  | ok a =>
    simp only [fetch, Action.exec_bind, Action.exec_get, Action.exec_ofExcept, ha,
      read_programAddress hL h ha]

/-- **Finding an operand** depends on the words that a program may reach alone: it is the same on
    `m` and `n`, for every addressing mode. -/
theorem operand_congr (spec : OperandSpec) :
    Action.exec (operand m spec) c = Action.exec (operand n spec) c := by
  -- In each mode the address is found from the registers, and then the same word is read.
  obtain ⟨mode, register⟩ := spec
  cases mode with
  | unused | register => rfl
  | deferred =>
    cases ha : c.reachable (c.registers.get register) with
    | error e => simp only [operand, Action.exec_bind, Action.exec_get, Action.exec_ofExcept, ha]
    | ok a =>
      simp only [operand, Action.exec_bind, Action.exec_get, Action.exec_ofExcept, ha,
        Action.exec_pure, read_reachable hL h ha]
  | autoIncrement =>
    cases ha : c.reachable (c.registers.get register) with
    | error e => simp only [operand, Action.exec_bind, Action.exec_get, Action.exec_ofExcept, ha]
    | ok a =>
      simp only [operand, modifyRegisters, Action.exec_bind, Action.exec_get, Action.exec_ofExcept,
        ha, Action.exec_modify, Action.exec_pure, read_reachable hL h ha]
  | autoDecrement =>
    cases ha : c.reachable (c.registers.get register - 1) with
    | error e =>
      simp only [operand, modifyRegisters, Action.exec_bind, Action.exec_get, Action.exec_modify,
        Action.exec_ofExcept, ha]
    | ok a =>
      simp only [operand, modifyRegisters, Action.exec_bind, Action.exec_get, Action.exec_modify,
        Action.exec_ofExcept, ha, Action.exec_pure, read_reachable hL h ha]
  | direct =>
    simp only [operand, Action.exec_bind, Action.exec_get, nextWord_congr hL h]
    rcases Action.exec (nextWord n) c with ⟨e | w, d⟩
    · rfl
    · cases ha : c.reachable w with
      | error e => simp only [Action.exec_ofExcept, ha]
      | ok a =>
        simp only [Action.exec_ofExcept, ha, Action.exec_pure, read_reachable hL h ha]
  | immediate =>
    simp only [operand, Action.exec_bind, Action.exec_get, nextWord_congr hL h]

end Congruence

end Cpu

end Timeshare
