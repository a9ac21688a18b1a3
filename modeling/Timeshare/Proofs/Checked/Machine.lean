import Timeshare.Proofs.Checked.Basic
import Timeshare.Proofs.Machine.Visits

namespace Timeshare

/-!
# The calculations of the machine

The program counter goes on to the next word, a register is counted up behind an address, the stack
pointer goes down, and the clock goes on.  The other calculations of a program wrap around.

* `Checked.step`, `Checked.runSlice` — an instruction and a time slice with these calculations checked.
* `Checked.execute_eq` — no instruction aborts but a system call, whatever the registers and memory hold.
* `Checked.runSlice_eq` — no time slice aborts if the system calls do not and the clock has room for each
  instruction.
-/

namespace Checked

open Timeshare.Action (exec_bind_ok)

variable {τ : Type}

/-! ### The processor -/

/-- Reads the word at the program counter and goes on to the next. -/
def cpuNextWord (m : Memory) : Checked Cpu Word := do
  let c ← get
  let a ← ofExcept c.programAddress
  let pc ← word (c.registers.pc.toInt + 1)
  ofAction (Cpu.modifyRegisters ({ · with pc }))
  return m.read a

/-- Reads the next instruction. -/
def cpuFetch (m : Memory) : Checked Cpu Instruction := do
  let c ← get
  let a ← ofExcept c.programAddress
  let w := m.read a
  let pc ← word (c.registers.pc.toInt + 1)
  ofAction (Cpu.modifyRegisters ({ · with mar := a.toWord, mbr := w, ir := w, pc }))
  ofExcept (Instruction.decode w)

/-- Finds an operand. -/
def cpuOperand (m : Memory) (spec : OperandSpec) : Checked Cpu Operand := do
  let c ← get
  let content := c.registers.get spec.register
  match spec.mode with
  | .unused => throw .invalidMode
  | .register => return ⟨.register spec.register, content⟩
  | .deferred =>
    let a ← ofExcept (c.reachable content)
    return Cpu.memoryOperand m a
  | .autoIncrement =>
    let a ← ofExcept (c.reachable content)
    let following ← word (a.toWord.toInt + 1)
    ofAction (Cpu.modifyRegisters (·.set spec.register following))
    return Cpu.memoryOperand m a
  | .autoDecrement =>
    ofAction (Cpu.modifyRegisters (·.set spec.register (content - 1)))
    let a ← ofExcept (c.reachable (content - 1))
    return Cpu.memoryOperand m a
  | .direct =>
    let w ← cpuNextWord m
    let a ← ofExcept (c.reachable w)
    return Cpu.memoryOperand m a
  | .immediate =>
    let w ← cpuNextWord m
    return ⟨.program, w⟩

/-! ### Instructions -/

/-- Does something with the processor. -/
def onCpu {α : Type} : Checked Cpu α → Checked (Machine τ) α :=
  zoom (·.cpu) fun c s => { s with cpu := c }

/-- Finds an operand. -/
def operand (spec : OperandSpec) : Checked (Machine τ) Operand := do
  let s ← get
  onCpu (cpuOperand s.memory spec)

/-- Reads a word that follows an instruction. -/
def nextWord : Checked (Machine τ) Word := do
  let s ← get
  onCpu (cpuNextWord s.memory)

/-- Hands the machine to a trap handler. -/
def trap (handler : Word → Checked (TrapState τ) TrapOutcome) (number : Word) :
    Checked (Machine τ) TrapOutcome :=
  zoom (fun s => ⟨s.cpu.registers, s.memory, s.host⟩)
    (fun t s =>
      { s with cpu := { s.cpu with registers := t.registers }, memory := t.memory, host := t.host })
    (handler number)

/-- Executes an instruction; the program counter is already behind its word. -/
def execute (handler : Word → Checked (TrapState τ) TrapOutcome) (i : Instruction) :
    Checked (Machine τ) Step :=
  match i.opcode with
  | .halt => return .halt
  | .add | .subtract | .multiply | .divide | .move => do
    let target ← operand i.first
    let source ← operand i.second
    let result ← ofExcept (i.opcode.combine target.value source.value)
    ofAction (Machine.store target.location result)
    return .proceed
  | .branch => do
    let target ← nextWord
    ofAction (Machine.modifyRegisters ({ · with pc := target }))
    return .proceed
  | .branchOnMinus | .branchOnPlus | .branchOnZero => do
    let condition ← operand i.first
    let target ← nextWord
    if i.opcode.taken condition.value then
      ofAction (Machine.modifyRegisters ({ · with pc := target }))
    return .proceed
  | .push => do
    let source ← operand i.first
    let c := (← get).cpu
    let sp := c.registers.sp + 1
    if let some bounds := c.stack then
      if bounds.limit < sp then throw .stackOverflow
    let a ← ofExcept (c.reachable sp)
    ofAction (Machine.store (.memory a) source.value)
    ofAction (Machine.modifyRegisters ({ · with sp }))
    return .proceed
  | .pop => do
    let target ← operand i.first
    let s ← get
    let sp := s.cpu.registers.sp
    if let some bounds := s.cpu.stack then
      if sp < bounds.base then throw .stackUnderflow
    let a ← ofExcept (s.cpu.reachable sp)
    ofAction (Machine.store target.location (s.memory.read a))
    let below ← word (sp.toInt - 1)
    ofAction (Machine.modifyRegisters ({ · with sp := below }))
    return .proceed
  | .systemCall => do
    let call ← operand i.first
    ofAction (Machine.modifyRegisters ({ · with privilege := .os }))
    let outcome ← observe (trap handler call.value)
    ofAction (Machine.modifyRegisters ({ · with privilege := .user }))
    match (← ofExcept outcome) with
    | .proceed => return .proceed
    | .block status => return .block status

/-- Executes the next instruction and returns it. -/
def step (handler : Word → Checked (TrapState τ) TrapOutcome) :
    Checked (Machine τ) (Instruction × Step) := do
  let s ← get
  let i ← onCpu (cpuFetch s.memory)
  let next ← execute handler i
  return (i, next)

/-- Adds the cost of an instruction to the clock. -/
def tick (cost : UInt64) : Checked (Machine τ) Unit := do
  let s ← get
  let clock ← size (s.cpu.registers.clock.toNat + cost.toNat)
  set { s with cpu := { s.cpu with registers := { s.cpu.registers with clock } } }

/-- One turn of a run: executes an instruction, charges for it, and says whether the run is over. -/
def advance (handler : Word → Checked (TrapState τ) TrapOutcome) (x : Meter × Machine τ) :
    Option (Machine.Ended τ ⊕ (Meter × Machine τ)) :=
  match exec (step handler) x.2 with
  | none => none
  | some (.error fault, s) => some (.inl ⟨.error fault, x.1, s⟩)
  | some (.ok (i, next), s) =>
    (exec (tick i.opcode.cost) s).map fun y => Machine.conclude next (x.1.charge i.opcode.cost) y.2

/-- Runs a program for at most `fuel` instructions. -/
def run (handler : Word → Checked (TrapState τ) TrapOutcome) :
    Nat → Meter × Machine τ → Option (Machine.Ended τ ⊕ (Meter × Machine τ))
  | 0, x => some (.inr x)
  | fuel + 1, x =>
    match advance handler x with
    | none => none
    | some (.inl ended) => some (.inl ended)
    | some (.inr x) => run handler fuel x

/-- Runs a program for one time slice. -/
def runSlice (handler : Word → Checked (TrapState τ) TrapOutcome) (budget : UInt64)
    (s : Machine τ) : Option (Machine.Ended τ) :=
  (run handler (Machine.sliceFuel budget) (.slice (.fresh budget), s)).map fun
    | .inl ended => ended
    | .inr (meter, s) => ⟨.ok .timeSliceExpired, meter, s⟩

/-! ### The processor does not abort -/

section Cpu

/-- The next word is read without an abort: the counter was found to be an address, so that `pc + 1`
    is a word. -/
theorem cpuNextWord_eq (m : Memory) : cpuNextWord m = ofAction (Cpu.nextWord m) := by
  simp only [cpuNextWord, Cpu.nextWord, ofAction_bind, ofAction_get, ofAction_ofExcept]
  refine get_bind_congr fun c => ?_
  cases ha : c.programAddress with
  | error e => rfl
  | ok a =>
    have hpc : (word (c.registers.pc.toInt + 1) : Checked Cpu Word) = pure (c.registers.pc + 1) := by
      rw [← Cpu.toWord_programAddress ha, word_succ_address]
    simp only [ofExcept_ok, pure_bind, hpc, Cpu.modifyRegisters, exec_bind, exec_ofAction,
      Action.exec_modify, ofAction_pure]

/-- The next instruction is read without an abort: its word is the only one that is read. -/
theorem cpuFetch_eq (m : Memory) : cpuFetch m = ofAction (Cpu.fetch m) := by
  simp only [cpuFetch, Cpu.fetch, ofAction_bind, ofAction_get, ofAction_ofExcept]
  refine get_bind_congr fun c => ?_
  cases ha : c.programAddress with
  | error e => rfl
  | ok a =>
    have hpc : (word (c.registers.pc.toInt + 1) : Checked Cpu Word) = pure (c.registers.pc + 1) := by
      rw [← Cpu.toWord_programAddress ha, word_succ_address]
    simp only [ofExcept_ok, pure_bind, hpc, Cpu.modifyRegisters, exec_bind, exec_ofAction,
      Action.exec_modify]

/-- An operand is found without an abort, in every mode `spec` may have.  The increment is made only
    of what was found to be an address; the decrement wraps around on purpose. -/
theorem cpuOperand_eq (m : Memory) (spec : OperandSpec) :
    cpuOperand m spec = ofAction (Cpu.operand m spec) := by
  obtain ⟨mode, register⟩ := spec
  simp only [cpuOperand, Cpu.operand, ofAction_bind, ofAction_get]
  refine bind_congr fun c => ?_
  cases mode with
  | unused => rfl
  | register => rfl
  | deferred => simp only [ofAction_bind, ofAction_ofExcept, ofAction_pure]
  | autoIncrement =>
    simp only [ofAction_bind, ofAction_ofExcept, ofAction_pure, word_succ_address, pure_bind]
  | autoDecrement => simp only [ofAction_bind, ofAction_ofExcept, ofAction_pure]
  | direct => simp only [cpuNextWord_eq, ofAction_bind, ofAction_ofExcept, ofAction_pure]
  | immediate => simp only [cpuNextWord_eq, ofAction_bind, ofAction_pure]

end Cpu

/-! ### Instructions do not abort -/

section Instruction

variable {handler : TrapHandler τ} {checked : Word → Checked (TrapState τ) TrapOutcome} {i : Instruction}

/-- What makes no calculation on the processor makes none on the machine:
    `onCpu (ofAction x) = ofAction (Machine.onCpu x)`. -/
theorem onCpu_ofAction {α : Type} (x : Action Cpu α) :
    (onCpu (ofAction x) : Checked (Machine τ) α) = ofAction (Machine.onCpu x) := rfl

/-- An operand is found without an abort on the machine, too. -/
theorem operand_eq (spec : OperandSpec) :
    (operand spec : Checked (Machine τ) Operand) = ofAction (Machine.operand spec) := by
  simp only [operand, Machine.operand, ofAction_bind, ofAction_get, cpuOperand_eq]
  rfl

/-- So is a word that follows an instruction. -/
theorem nextWord_eq : (nextWord : Checked (Machine τ) Word) = ofAction Machine.nextWord := by
  simp only [nextWord, Machine.nextWord, ofAction_bind, ofAction_get, cpuNextWord_eq]
  rfl

/-- All instructions but `systemCall` are executed without an abort: a pop decrements the stack
    pointer only after it was found to be an address. -/
theorem execute_eq (hi : i.opcode ≠ .systemCall) :
    execute checked i = ofAction (Machine.execute handler i) := by
  obtain ⟨opcode, first, second⟩ := i
  cases opcode with
  | systemCall => exact absurd rfl hi
  | halt => rfl
  | add | subtract | multiply | divide | move =>
    simp only [execute, Machine.execute, operand_eq, ofAction_bind, ofAction_ofExcept, ofAction_pure]
  | branch => simp only [execute, Machine.execute, nextWord_eq, ofAction_bind, ofAction_pure]
  | branchOnMinus | branchOnPlus | branchOnZero =>
    simp only [execute, Machine.execute, operand_eq, nextWord_eq, ofAction_bind]
    refine bind_congr fun condition => bind_congr fun target => ?_
    split <;> rfl
  | push =>
    simp only [execute, Machine.execute, operand_eq, ofAction_bind, ofAction_get]
    refine bind_congr fun source => bind_congr fun s => ?_
    cases s.cpu.stack with
    | none => simp only [ofAction_bind, ofAction_ofExcept, ofAction_pure]
    | some bounds =>
      simp only []
      split
      · rfl
      · simp only [ofAction_bind, ofAction_ofExcept, ofAction_pure]
  | pop =>
    simp only [execute, Machine.execute, operand_eq, ofAction_bind, ofAction_get]
    refine bind_congr fun target => bind_congr fun s => ?_
    -- The pointer has been found to be an address before it goes down.
    have hrest : ∀ a, s.cpu.reachable s.cpu.registers.sp = .ok a →
        (word (s.cpu.registers.sp.toInt - 1) : Checked (Machine τ) Word)
          = pure (s.cpu.registers.sp - 1) := fun a ha => by
      rw [← Cpu.toWord_reachable ha, word_pred_address]
    cases s.cpu.stack with
    | none =>
      simp only [ofAction_bind, ofAction_ofExcept, ofAction_pure]
      exact ofExcept_bind_congr fun a ha => by simp only [hrest a ha, pure_bind]
    | some bounds =>
      simp only []
      split
      · rfl
      · simp only [ofAction_bind, ofAction_ofExcept, ofAction_pure]
        exact ofExcept_bind_congr fun a ha => by simp only [hrest a ha, pure_bind]

variable {s : Machine τ}

/-- Finding an operand leaves the handler's state alone: `t.host = s.host`. -/
theorem operand_host (spec : OperandSpec) :
    Action.Ends (Machine.operand spec) s (fun _ t => t.host = s.host) (fun _ t => t.host = s.host) := by
  rw [Machine.operand, Action.ends_bind, Action.ends_get, Machine.onCpu, Action.ends_zoom]
  exact Action.ends_state_iff.mpr rfl

/-- An instruction does not abort if the handler does not (`h`), whatever the registers and memory
    hold. -/
theorem execute_follows
    (h : ∀ number env, env.host = s.host →
      exec (checked number) env = some (Action.exec (handler number) env)) :
    exec (execute checked i) s = some (Action.exec (Machine.execute handler i) s) := by
  by_cases hi : i.opcode = .systemCall
  · obtain ⟨opcode, first, second⟩ := i
    obtain rfl := hi
    -- The operand is found first; it leaves the pool as it was, for which the handler is known not to abort.
    suffices Follows (execute checked ⟨.systemCall, first, second⟩)
        (Machine.execute handler ⟨.systemCall, first, second⟩) s (fun _ _ => True) (fun _ _ => True) from
      this.exec_eq
    simp only [execute, Machine.execute, operand_eq]
    refine (follows_ofAction ((operand_host first).mono (fun _ _ h => h) fun _ _ _ => trivial)).bind
      fun call t ht => follows_get_note ?_
    refine (follows_ofAction (Q := fun _ u => u.host = s.host) (Machine.ends_modifyRegisters.mpr ht)).bind
      fun _ u hu => ?_
    refine (Follows.observe (Q := fun _ _ => True) (Follows.zoom ⟨h call.value _ hu, ?_⟩)).bind
      fun outcome v _ => ?_
    · exact Action.ends_state_iff.mpr trivial
    refine (follows_ofAction (Q := fun _ _ => True) (Machine.ends_modifyRegisters.mpr trivial)).bind
      fun _ w _ => ?_
    refine (follows_ofExcept (Q := fun _ _ => True) (fun _ _ => trivial) fun _ _ => trivial).bind
      fun next _ _ => ?_
    cases next with
    | proceed => exact follows_pure trivial
    | block status => exact follows_pure trivial
  · rw [execute_eq hi]
    rfl

/-- Neither does the next instruction, under the same condition `h` on the handler. -/
theorem step_follows
    (h : ∀ number env, env.host = s.host →
      exec (checked number) env = some (Action.exec (handler number) env)) :
    exec (step checked) s = some (Action.exec (Machine.step handler) s) := by
  suffices Follows (step checked) (Machine.step handler) s (fun _ _ => True) (fun _ _ => True) from
    this.exec_eq
  refine follows_get_bind ?_
  rw [cpuFetch_eq, onCpu_ofAction]
  refine (follows_ofAction (Q := fun _ (t : Machine τ) => t.host = s.host) ?_).bind
    fun i t ht => follows_get_note ?_
  · rw [Machine.onCpu, Action.ends_zoom]
    exact Action.Ends.mono (Action.ends_state_iff.mpr rfl) (fun _ _ _ => rfl) fun _ _ _ => trivial
  · refine Follows.bind (Q := fun _ _ => True) ⟨execute_follows (ht ▸ h), ?_⟩ fun _ _ _ =>
      follows_pure trivial
    exact Action.ends_state_iff.mpr trivial

end Instruction

/-! ### Time slices do not abort -/

section Run

variable {handler : TrapHandler τ} {checked : Word → Checked (TrapState τ) TrapOutcome}

/-- The clock has room for any instruction. -/
def HasTime (s : Machine τ) : Prop := s.cpu.registers.clock.toNat < UInt64.size - 12

instance (s : Machine τ) : Decidable (HasTime s) := inferInstanceAs (Decidable (_ < _))

/-- No instruction costs more than `12`. -/
theorem cost_le (o : Opcode) : o.cost.toNat ≤ 12 := by cases o <;> decide

/-- The clock takes the cost of an instruction without an abort where it `HasTime`: the sum is below
    `2^64`. -/
theorem tick_follows {s : Machine τ} (h : HasTime s) (o : Opcode) :
    exec (tick o.cost) s = some (.ok (), s.tick o.cost) := by
  have hcost := cost_le o
  have hmax : UInt64.size = 18446744073709551616 := rfl
  unfold HasTime at h
  have hclock : (size (s.cpu.registers.clock.toNat + o.cost.toNat) : Checked (Machine τ) UInt64)
      = pure (s.cpu.registers.clock + o.cost) := by
    rw [size_eq (by omega), UInt64.ofNat_add, UInt64.ofNat_toNat, UInt64.ofNat_toNat]
  show exec (size _ >>= _) s = _
  rw [hclock, pure_bind]
  rfl

/-- A turn does not abort if its instruction does not (`h`) and the clock has room for it. -/
theorem advance_follows {meter : Meter} {s : Machine τ}
    (h : exec (step checked) s = some (Action.exec (Machine.step handler) s))
    (hclock : ∀ time number, Action.Keeps (·.registers.clock = time) (handler number)) (htime : HasTime s) :
    advance checked (meter, s) = some (Machine.advance handler (meter, s)).value := by
  have hsame := Machine.keeps_clock_step (hclock s.cpu.registers.clock) s rfl
  rw [advance, h, Machine.value_advance]
  rcases hstep : Action.exec (Machine.step handler) s with ⟨e | ⟨i, next⟩, t⟩
  · rfl
  · rw [hstep] at hsame
    -- An instruction leaves the clock alone, so that there still is room for its cost.
    have htime' : HasTime t := by
      unfold HasTime
      rw [hsame]
      exact htime
    simp only [tick_follows htime', Option.map_some]

/-- One turn and the rest of a run: an abort of the turn is one of the run. -/
theorem run_succ (fuel : Nat) (x : Meter × Machine τ) :
    run checked (fuel + 1) x =
      match advance checked x with
      | none => none
      | some (.inl ended) => some (.inl ended)
      | some (.inr x) => run checked fuel x := (rfl)

/-- A run does not abort if the instructions of its machines do not and the clock has room for them,
    by induction on the fuel along `Machine.visits`. -/
theorem run_follows {fuel : Nat} {meter : Meter} {s : Machine τ}
    (h : ∀ t ∈ Machine.visits handler fuel (meter, s),
      exec (step checked) t = some (Action.exec (Machine.step handler) t) ∧ HasTime t)
    (hclock : ∀ time number, Action.Keeps (·.registers.clock = time) (handler number)) :
    run checked fuel (meter, s) = some (Machine.run handler fuel meter s).value := by
  induction fuel generalizing meter s with
  | zero => rfl
  | succ fuel ih =>
    rw [Machine.visits] at h
    obtain ⟨hstep, htime⟩ := h s List.mem_cons_self
    rw [run_succ, advance_follows hstep hclock htime, Machine.run, Logged.value_loop_succ]
    -- The machine after the turn is the next one of the visits, so that `h` covers the rest.
    cases hturn : (Machine.advance handler (meter, s)).value with
    | inl ended => rfl
    | inr x =>
      rw [hturn] at h
      exact ih fun t ht => h t (List.mem_cons_of_mem _ ht)

/-- **A time slice** does not abort if the instructions of its machines, `Machine.sliceVisits`, do
    not and the clock has room for them. -/
theorem runSlice_follows {budget : UInt64} {s : Machine τ}
    (h : ∀ t ∈ Machine.sliceVisits handler budget s,
      exec (step checked) t = some (Action.exec (Machine.step handler) t) ∧ HasTime t)
    (hclock : ∀ time number, Action.Keeps (·.registers.clock = time) (handler number)) :
    runSlice checked budget s = some (Machine.runSlice handler budget s).value := by
  rw [runSlice, run_follows h hclock, Machine.value_runSlice]
  cases (Machine.run handler (Machine.sliceFuel budget) (.slice (.fresh budget)) s).value <;> rfl

end Run

end Checked

end Timeshare
