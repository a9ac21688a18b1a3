import Timeshare.Proofs.Machine.Run

namespace Timeshare

/-!
# The faults of programs

A program is stopped by a fault when one of its instructions cannot be executed.  Every check on the way
has a fault of its own, so that the faults of programs are a few of all faults.

* `Fault.isPrograms` — the faults that the instructions of a program can have.
* `Cpu.raises_fetch`, `Cpu.raises_operand`, `Machine.raises_execute` — the parts of a step.
* `Machine.raises_step`, `Machine.runSlice_fault` — a step has no other faults, as long as the trap
  handler has none, and a time slice ends with no other.
-/

/-- The faults that an instruction can have: of its word, of its operands, of the stack, or of a
    division. -/
def Fault.isPrograms : Fault → Bool
  | .invalidPcValue | .invalidOpcode | .invalidMode | .invalidRegister | .invalidAddress
  | .stackOverflow | .stackUnderflow | .divideByZero => true
  | _ => false

open Timeshare.Action

/-- A word that is no instruction has the fault `invalidOpcode`, `invalidMode` or
    `invalidRegister`. -/
theorem Instruction.decode_error {w : Word} {e : Fault} (h : decode w = .error e) :
    e = .invalidOpcode ∨ e = .invalidMode ∨ e = .invalidRegister := by
  -- The checks are made in this order: the opcode, the modes, and the registers.
  unfold decode at h
  split at h
  · exact .inl (Except.error.inj h).symm
  · dsimp only at h
    split at h
    · exact .inl (Except.error.inj h).symm
    · split at h
      · split at h
        · exact absurd h (by simp)
        · exact .inr (.inr (Except.error.inj h).symm)
      · exact .inr (.inl (Except.error.inj h).symm)

/-- Only a division has a fault in its result, and only `divideByZero` for `b = 0`. -/
theorem Opcode.combine_error {o : Opcode} {a b : Word} {e : Fault} (h : o.combine a b = .error e) :
    o = .divide ∧ b = 0 ∧ e = .divideByZero := by
  unfold combine at h
  split at h
  case h_4 =>
    split at h
    · rename_i hb
      exact ⟨rfl, hb, (Except.error.inj h).symm⟩
    · exact absurd h (by simp)
  all_goals exact absurd h (by simp)

namespace Cpu

/-- The check of the program counter has the fault `invalidPcValue` only. -/
theorem programAddress_error {c : Cpu} {e : Fault} (h : c.programAddress = .error e) :
    e = .invalidPcValue := by
  unfold programAddress at h
  split at h
  · split at h
    · exact absurd h (by simp)
    · exact (Except.error.inj h).symm
  · exact (Except.error.inj h).symm

/-- The check of an operand's address has the fault `invalidAddress` only. -/
theorem reachable_error {c : Cpu} {w : Word} {e : Fault} (h : c.reachable w = .error e) :
    e = .invalidAddress := by
  unfold reachable at h
  split at h
  · split at h
    · exact absurd h (by simp)
    · exact (Except.error.inj h).symm
  · exact (Except.error.inj h).symm

theorem raises_programAddress (c : Cpu) :
    Raises (·.isPrograms = true) (Action.ofExcept c.programAddress : Action Cpu Address) := by
  refine raises_ofExcept fun e he => ?_
  obtain rfl := programAddress_error he
  rfl

theorem raises_reachable {σ : Type} (c : Cpu) (w : Word) :
    Raises (·.isPrograms = true) (Action.ofExcept (c.reachable w) : Action σ Address) := by
  refine raises_ofExcept fun e he => ?_
  obtain rfl := reachable_error he
  rfl

theorem raises_modifyRegisters {E : Fault → Prop} (f : Registers → Registers) :
    Raises E (modifyRegisters f) := raises_modify _

theorem raises_nextWord (m : Memory) : Raises (·.isPrograms = true) (nextWord m) :=
  raises_get.bind fun c => (raises_programAddress c).bind fun _ =>
    (raises_modifyRegisters _).bind fun _ => raises_pure _

theorem raises_fetch (m : Memory) : Raises (·.isPrograms = true) (fetch m) := by
  refine raises_get.bind fun c => (raises_programAddress c).bind fun _ =>
    (raises_modifyRegisters _).bind fun _ => raises_ofExcept fun e he => ?_
  rcases Instruction.decode_error he with rfl | rfl | rfl <;> rfl

/-- The faults of finding an operand are faults of programs, in every addressing mode. -/
theorem raises_operand (m : Memory) (spec : OperandSpec) :
    Raises (·.isPrograms = true) (operand m spec) := by
  refine raises_get.bind fun c => ?_
  obtain ⟨mode, register⟩ := spec
  cases mode with
  | unused => exact raises_throw rfl
  | register => exact raises_pure _
  | deferred => exact (raises_reachable c _).bind fun _ => raises_pure _
  | autoIncrement =>
    exact (raises_reachable c _).bind fun _ => (raises_modifyRegisters _).bind fun _ => raises_pure _
  | autoDecrement =>
    exact (raises_modifyRegisters _).bind fun _ => (raises_reachable c _).bind fun _ => raises_pure _
  | direct =>
    exact (raises_nextWord m).bind fun _ => (raises_reachable c _).bind fun _ => raises_pure _
  | immediate => exact (raises_nextWord m).bind fun _ => raises_pure _

end Cpu

namespace Machine

variable {τ : Type} {handler : TrapHandler τ}

theorem raises_modifyRegisters {E : Fault → Prop} (f : Registers → Registers) :
    Raises E (modifyRegisters f : Action (Machine τ) Unit) := raises_zoom (raises_modify _)

theorem raises_nextWord : Raises (·.isPrograms = true) (nextWord : Action (Machine τ) Word) :=
  raises_get.bind fun s => raises_zoom (Cpu.raises_nextWord s.memory)

theorem raises_operand (spec : OperandSpec) :
    Raises (·.isPrograms = true) (operand spec : Action (Machine τ) Operand) :=
  raises_get.bind fun s => raises_zoom (Cpu.raises_operand s.memory spec)

/-- The faults of storing a result are faults of programs: it can go anywhere but into the
    program. -/
theorem raises_store (location : Location) (w : Word) :
    Raises (·.isPrograms = true) (store location w : Action (Machine τ) Unit) := by
  cases location with
  | register r => exact raises_modifyRegisters _
  | memory a => exact raises_modify _
  | program => exact raises_throw rfl

/-- **Faults of an instruction.**  If the trap handler has only faults of programs, then so has
    every instruction. -/
theorem raises_execute (hhandler : ∀ call, Raises (·.isPrograms = true) (handler call))
    (i : Instruction) : Raises (·.isPrograms = true) (execute handler i) := by
  obtain ⟨opcode, first, second⟩ := i
  cases opcode with
  | halt => exact raises_pure _
  | add | subtract | multiply | divide | move =>
    refine (raises_operand first).bind fun _ => (raises_operand second).bind fun _ =>
      (raises_ofExcept fun e he => ?_).bind fun _ => (raises_store _ _).bind fun _ => raises_pure _
    obtain ⟨-, -, rfl⟩ := Opcode.combine_error he
    rfl
  | branch => exact raises_nextWord.bind fun _ => (raises_modifyRegisters _).bind fun _ => raises_pure _
  | branchOnMinus | branchOnPlus | branchOnZero =>
    refine (raises_operand first).bind fun _ => raises_nextWord.bind fun _ => ?_
    split
    · exact (raises_modifyRegisters _).bind fun _ => raises_pure _
    · exact raises_pure _
  | push =>
    refine (raises_operand first).bind fun source => raises_get.bind fun s => ?_
    have hpush : ∀ sp, Raises (·.isPrograms = true) (do
        let a ← Action.ofExcept (s.cpu.reachable sp)
        store (.memory a) source.value
        modifyRegisters fun r => { r with sp }
        return Step.proceed : Action (Machine τ) Step) := fun sp =>
      (Cpu.raises_reachable s.cpu sp).bind fun _ => (raises_store _ _).bind fun _ =>
        (raises_modifyRegisters _).bind fun _ => raises_pure _
    dsimp only
    split
    · split
      · exact (raises_throw (E := (·.isPrograms = true)) rfl).bind fun _ => hpush _
      · exact hpush _
    · exact hpush _
  | pop =>
    refine (raises_operand first).bind fun target => raises_get.bind fun s => ?_
    have hpop : ∀ sp : Word, Raises (·.isPrograms = true) (do
        let a ← Action.ofExcept (s.cpu.reachable sp)
        store target.location (s.memory.read a)
        modifyRegisters fun r => { r with sp := sp - 1 }
        return Step.proceed : Action (Machine τ) Step) := fun sp =>
      (Cpu.raises_reachable s.cpu sp).bind fun _ => (raises_store _ _).bind fun _ =>
        (raises_modifyRegisters _).bind fun _ => raises_pure _
    dsimp only
    split
    · split
      · exact (raises_throw (E := (·.isPrograms = true)) rfl).bind fun _ => hpop _
      · exact hpop _
    · exact hpop _
  | systemCall =>
    refine (raises_operand first).bind fun call => raises_get.bind fun _ => (raises_note _).bind fun _ =>
      (raises_modifyRegisters _).bind fun _ => ?_
    -- A fault of the handler is looked at before it is passed on.
    obtain ⟨hobserve, hfaults⟩ := Raises.observe (x := trap handler call.value)
      (raises_zoom (hhandler call.value))
    refine hobserve.bind_of hfaults fun outcome houtcome => (raises_modifyRegisters _).bind fun _ =>
      (raises_ofExcept houtcome).bind fun next => ?_
    cases next <;> exact raises_pure _

/-- **Faults of a step.**  If the trap handler has only faults of programs, then so has every
    step. -/
theorem raises_step (hhandler : ∀ call, Raises (·.isPrograms = true) (handler call)) :
    Raises (·.isPrograms = true) (step handler) :=
  raises_get.bind fun s => (raises_zoom (Cpu.raises_fetch s.memory)).bind fun i => raises_get.bind fun _ =>
    (raises_note _).bind fun _ => (raises_execute hhandler i).bind fun _ => raises_pure _

/-- **Faults of a time slice.**  A time slice that ends with a fault `e` ends with one of
    `Fault.isPrograms`. -/
theorem runSlice_fault (hhandler : ∀ call, Raises (·.isPrograms = true) (handler call))
    {budget : UInt64} {s : Machine τ} {e : Fault}
    (h : (runSlice handler budget s).value.outcome = .error e) : e.isPrograms = true := by
  rcases runSlice_steps handler budget s with ⟨is, t, -, hfinish⟩ | ⟨is, -, -, hexpired⟩
  · rw [h] at hfinish
    cases hfinish with
    | failed hstep => exact raises_step hhandler t e _ hstep
  · exact absurd (h.symm.trans hexpired) (by simp)

end Machine

end Timeshare
