import Timeshare.Proofs.Machine.Next

namespace Timeshare

/-!
# What one instruction changes

An instruction says what it may change.  Its operands say which general registers are counted up or down
and how many words follow it, and its operation says whether a result goes to the first operand, to the
stack, or nowhere.  This holds of any layout, whether the regions lie in memory or not.

* `Instruction.words`, `Instruction.stepped`, `Instruction.written` — the length of an instruction, the
  registers that its operands count up or down, and all general registers that it may change.
* `OperandSpec.after`, `Machine.operand_after` — what finding an operand does to the registers.
* `Machine.Touches rs s t`, `Machine.Reads rs n s t` — nothing has changed but registers that are there
  to find operands, and `n` words of the program have been read.
* `Machine.Executed s i t` — what an instruction has changed that was executed.
* `Machine.step_footprint` — every step that succeeds without calling the operating system is like this,
  and a step that fails has done no more than look for the operands.
-/

/-! ### The parts of an instruction -/

/-- The words that an operand takes behind its instruction. -/
def AddressingMode.words : AddressingMode → Nat
  | .direct | .immediate => 1
  | .unused | .register | .deferred | .autoIncrement | .autoDecrement => 0

namespace OperandSpec

/-- The register that is counted up or down when the operand is found. -/
def stepped (spec : OperandSpec) : List Register :=
  match spec.mode with
  | .autoIncrement | .autoDecrement => [spec.register]
  | .unused | .register | .deferred | .direct | .immediate => []

/-- The registers after the operand was found: a register is counted up by `.autoIncrement` and down
    by `.autoDecrement`, and `pc` goes behind the word of a `.direct` or `.immediate` operand. -/
def after (spec : OperandSpec) (r : Registers) : Registers :=
  match spec.mode with
  | .autoIncrement => r.set spec.register (r.get spec.register + 1)
  | .autoDecrement => r.set spec.register (r.get spec.register - 1)
  | .direct | .immediate => { r with pc := r.pc + 1 }
  | .unused | .register | .deferred => r

/-- Finding an operand leaves the steady registers: `(spec.after r).steady = r.steady`. -/
theorem steady_after (spec : OperandSpec) (r : Registers) : (spec.after r).steady = r.steady := by
  unfold after
  split <;> rfl

/-- A general register `j` that is not in `spec.stepped` is left by `spec.after`. -/
theorem get_after {spec : OperandSpec} {j : Register} (h : j ∉ spec.stepped) (r : Registers) :
    (spec.after r).get j = r.get j := by
  obtain ⟨mode, register⟩ := spec
  cases mode with
  | autoIncrement | autoDecrement =>
    have hne : register ≠ j := fun he => h (List.mem_singleton.mpr he.symm)
    exact Registers.get_set_of_ne _ _ hne
  | unused | register | deferred | direct | immediate => rfl

/-- An operand `o` was found where `spec` says: in the register that the instruction names, in the
    range of operands of the layout `l`, or in the program itself. -/
structure Finds (spec : OperandSpec) (l : Layout) (o : Operand) : Prop where
  register : ∀ r, o.location = .register r → spec.mode = .register ∧ spec.register = r
  memory : ∀ a, o.location = .memory a → l.operandRange.contains a.toWord = true

end OperandSpec

namespace Opcode

/-- Operations that are followed by the address of another instruction. -/
def branches : Opcode → Bool
  | .branch | .branchOnMinus | .branchOnPlus | .branchOnZero => true
  | _ => false

/-- Operations that write a result to their first operand. -/
def delivers : Opcode → Bool
  | .add | .subtract | .multiply | .divide | .move | .pop => true
  | _ => false

/-- The words that an operation puts on the stack, less those that it takes away. -/
def growth : Opcode → Int
  | .push => 1
  | .pop => -1
  | _ => 0

end Opcode

namespace Instruction

/-- The operands that are used. -/
def operands (i : Instruction) : List OperandSpec :=
  match i.opcode with
  | .halt | .branch => []
  | .branchOnMinus | .branchOnPlus | .branchOnZero | .push | .pop | .systemCall => [i.first]
  | .add | .subtract | .multiply | .divide | .move => [i.first, i.second]

/-- The words of an instruction: its own, `spec.mode.words` for each operand that is used, and one
    for the target of a branch. -/
def words (i : Instruction) : Nat :=
  1 + i.operands.foldr (fun spec n => spec.mode.words + n) 0 + if i.opcode.branches then 1 else 0

/-- The registers that are counted up or down when the operands are found. -/
def stepped (i : Instruction) : List Register := i.operands.flatMap (·.stepped)

/-- The general registers that an instruction may change: those in `i.stepped`, and that of the
    first operand if a result goes to it. -/
def written (i : Instruction) : List Register :=
  i.stepped ++ if i.opcode.delivers ∧ i.first.mode = .register then [i.first.register] else []

/-- What an operand that is used counts up or down, the instruction does:
    `spec.stepped ⊆ i.stepped`. -/
theorem stepped_subset {i : Instruction} {spec : OperandSpec} (h : spec ∈ i.operands) :
    spec.stepped ⊆ i.stepped := by
  intro r hr
  exact List.mem_flatMap.mpr ⟨spec, h, hr⟩

end Instruction

open Timeshare.Action

/-! ### Finding operands -/

namespace Cpu

variable {c : Cpu} {m : Memory}

/-- The address of the next word of the program is the value of `pc`, without a wrap. -/
theorem index_programAddress {a : Address} (h : c.programAddress = .ok a) :
    (a.index : Int) = c.registers.pc.toInt := by
  rw [← toWord_programAddress h, a.toInt_toWord]

/-- Behind a word of the program, `pc + 1` does not overflow: `(pc + 1).toInt = pc.toInt + 1`. -/
theorem toInt_pc_succ {a : Address} (h : c.programAddress = .ok a) :
    (c.registers.pc + 1).toInt = c.registers.pc.toInt + 1 := by
  have hone : (1 : Word).toInt = 1 := by decide
  have hpc := index_programAddress h
  have hlt := a.index_lt
  simp only [memorySize] at hlt
  rw [Word.toInt_add (by omega) (by omega), hone]

/-- A word that follows an instruction is the one at the program counter, `m.read a`, and `pc + 1`
    is the next one.  Where it is out of reach, nothing changes. -/
theorem nextWord_reads : Ends (nextWord m) c
    (fun w d => ∃ a, c.programAddress = .ok a ∧ w = m.read a
      ∧ d = c.withRegisters { c.registers with pc := c.registers.pc + 1 })
    (fun _ d => d = c) := by
  simp only [nextWord, modifyRegisters, ends_bind, ends_get, ends_ofExcept, ends_modify, ends_pure]
  exact ⟨fun a ha => ⟨a, ha, rfl, rfl⟩, fun _ _ => trivial⟩

/-- A word of memory that is in reach is found as `Finds` says, whatever the mode. -/
theorem finds_memoryOperand {spec : OperandSpec} {w : Word} {a : Address}
    (h : c.reachable w = .ok a) : spec.Finds c.layout (memoryOperand m a) := by
  obtain ⟨hin, hw⟩ := contains_reachable h
  refine ⟨fun r hr => absurd hr (by simp [memoryOperand]), fun b hb => ?_⟩
  obtain rfl := Location.memory.inj hb
  rwa [hw]

/-- **Finding an operand** changes the registers to `spec.after c.registers` and moves `pc` by
    `spec.mode.words`.  Where it fails, the registers are those before or `spec.after` of them: an
    automatic decrement is done before the address is looked at. -/
theorem operand_after (spec : OperandSpec) : Ends (operand m spec) c
    (fun o d => spec.Finds c.layout o ∧ d = c.withRegisters (spec.after c.registers)
      ∧ d.registers.pc.toInt = c.registers.pc.toInt + spec.mode.words)
    (fun _ d => d = c ∨ d = c.withRegisters (spec.after c.registers)) := by
  have hpc : c.registers.pc.toInt = c.registers.pc.toInt + ((0 : Nat) : Int) := by simp
  obtain ⟨mode, register⟩ := spec
  simp only [operand, ends_bind, ends_get]
  -- One case per addressing mode; only `.direct` and `.immediate` move `pc`.
  cases mode with
  | unused => exact .inl rfl
  | register =>
    refine ⟨⟨fun r hr => ⟨rfl, Location.register.inj hr⟩, fun a ha => ?_⟩, rfl, hpc⟩
    exact absurd ha (by simp)
  | deferred =>
    simp only [ends_bind, ends_ofExcept, ends_pure]
    exact ⟨fun a ha => ⟨finds_memoryOperand ha, rfl, hpc⟩, fun _ _ => .inl trivial⟩
  | autoIncrement =>
    simp only [modifyRegisters, ends_bind, ends_ofExcept, ends_modify, ends_pure]
    refine ⟨fun a ha => ⟨finds_memoryOperand ha, ?_, hpc⟩, fun _ _ => .inl trivial⟩
    rw [toWord_reachable ha]
    rfl
  | autoDecrement =>
    simp only [modifyRegisters, ends_bind, ends_ofExcept, ends_modify, ends_pure]
    exact ⟨fun a ha => ⟨finds_memoryOperand ha, rfl, hpc⟩, fun _ _ => .inr rfl⟩
  | direct =>
    simp only [ends_bind, ends_ofExcept, ends_pure]
    refine nextWord_reads.mono ?_ fun _ d hd => .inl hd
    rintro w d ⟨a, ha, -, rfl⟩
    exact ⟨fun b hb => ⟨finds_memoryOperand hb, rfl, toInt_pc_succ ha⟩, fun _ _ => .inr rfl⟩
  | immediate =>
    simp only [ends_bind, ends_pure]
    refine nextWord_reads.mono ?_ fun _ d hd => .inl hd
    rintro w d ⟨a, ha, -, rfl⟩
    refine ⟨⟨fun r hr => absurd hr (by simp), fun b hb => absurd hb (by simp)⟩, rfl, toInt_pc_succ ha⟩

end Cpu

namespace Machine

variable {τ : Type} {handler : TrapHandler τ} {s t u v : Machine τ} {i : Instruction} {o : Operand}
  {rs : List Register} {m n : Nat}

/-- Nothing has changed but registers that are there to find the words of an instruction
    (`Still s t`), and of the general registers only those listed in `rs`. -/
structure Touches (rs : List Register) (s t : Machine τ) : Prop where
  still : Still s t
  gpr : ∀ r, r ∉ rs → t.cpu.registers.get r = s.cpu.registers.get r

/-- On the way from `s` to `t`, `n` words of the program have been read: `pc` is further by `n`, as
    integers. -/
structure Reads (rs : List Register) (n : Nat) (s t : Machine τ) : Prop extends Touches rs s t where
  pc : t.cpu.registers.pc.toInt = s.cpu.registers.pc.toInt + n

@[refl] theorem Touches.refl (s : Machine τ) : Touches rs s s := ⟨.refl s, fun _ _ => rfl⟩

/-- The relation `Touches` is transitive for the same list of registers. -/
theorem Touches.trans (h : Touches rs s t) (h' : Touches rs t u) : Touches rs s u :=
  ⟨h.still.trans h'.still, fun r hr => (h'.gpr r hr).trans (h.gpr r hr)⟩

/-- Reading `m` words and then `n` words reads `m + n`. -/
theorem Reads.trans (h : Reads rs m s t) (h' : Reads rs n t u) : Reads rs (m + n) s u := by
  refine ⟨h.toTouches.trans h'.toTouches, ?_⟩
  have hst := h.pc
  have htu := h'.pc
  omega

theorem Reads.of_eq (h : Reads rs m s t) (hmn : m = n) : Reads rs n s t := hmn ▸ h

/-- **Finding an operand** of a machine: `Cpu.operand_after`, with the rest of the machine as it
    was. -/
theorem operand_after (spec : OperandSpec) : Ends (operand spec) s
    (fun o t => spec.Finds s.cpu.layout o ∧ t = s.withRegisters (spec.after s.cpu.registers)
      ∧ t.cpu.registers.pc.toInt = s.cpu.registers.pc.toInt + spec.mode.words)
    (fun _ t => t = s ∨ t = s.withRegisters (spec.after s.cpu.registers)) := by
  simp only [operand, onCpu, ends_bind, ends_get, ends_zoom]
  refine (Cpu.operand_after spec).mono ?_ ?_
  · rintro o c ⟨ho, rfl, hpc⟩
    exact ⟨ho, rfl, hpc⟩
  · rintro e c (rfl | rfl)
    · exact .inl rfl
    · exact .inr rfl

/-- Finding an operand reads `spec.mode.words` words of the program and touches no general register
    outside `rs`, if `spec.stepped ⊆ rs`. -/
theorem operand_reads {spec : OperandSpec} (hspec : spec.stepped ⊆ rs) : Ends (operand spec) s
    (fun o t => spec.Finds s.cpu.layout o ∧ Reads rs spec.mode.words s t)
    (fun _ t => Touches rs s t) := by
  have htouches : Touches rs s (s.withRegisters (spec.after s.cpu.registers)) :=
    ⟨⟨sameRest_withRegisters s _, spec.steady_after _⟩,
      fun _ hr => OperandSpec.get_after (fun hin => hr (hspec hin)) _⟩
  refine (operand_after spec).mono ?_ ?_
  · rintro o t ⟨ho, rfl, hpc⟩
    exact ⟨ho, htouches, hpc⟩
  · rintro e t (rfl | rfl)
    · exact .refl t
    · exact htouches

/-- A word behind the instruction: one word of the program is read, and it is `s.memory.read a` for
    the address `a` in `pc`. -/
theorem nextWord_reads : Ends (nextWord : Action (Machine τ) Word) s
    (fun w t => Reads rs 1 s t
      ∧ ∃ a : Address, (a.index : Int) = s.cpu.registers.pc.toInt ∧ w = s.memory.read a)
    (fun _ t => Touches rs s t) := by
  simp only [nextWord, onCpu, ends_bind, ends_get, ends_zoom]
  refine Cpu.nextWord_reads.mono ?_ ?_
  · rintro w c ⟨a, ha, hw, rfl⟩
    have hreads : Reads rs 1 s (s.withRegisters { s.cpu.registers with pc := s.cpu.registers.pc + 1 }) :=
      ⟨⟨⟨⟨_, rfl⟩, rfl⟩, fun _ _ => rfl⟩, Cpu.toInt_pc_succ ha⟩
    exact ⟨hreads, a, Cpu.index_programAddress ha, hw⟩
  · rintro e c rfl
    exact .refl s

/-- The word of the instruction itself: a fetch reads one word of the program, and no general
    register changes. -/
theorem fetch_reads (s : Machine τ) : Ends (onCpu (Cpu.fetch s.memory)) s
    (fun _ t => Reads rs 1 s t) (fun _ t => Touches rs s t) := by
  simp only [onCpu, ends_zoom, Cpu.fetch, Cpu.modifyRegisters, ends_bind, ends_get, ends_ofExcept,
    ends_modify]
  refine ⟨fun a ha => ⟨fun i _ => ?_, fun e _ => ?_⟩, fun e _ => .refl s⟩
  · exact ⟨⟨⟨⟨_, rfl⟩, rfl⟩, fun _ _ => rfl⟩, Cpu.toInt_pc_succ ha⟩
  · exact ⟨⟨⟨_, rfl⟩, rfl⟩, fun _ _ => rfl⟩

/-! ### Instructions that were executed -/

/-- The instruction is a branch, and the condition that it asks for is met. -/
def Jumps (s : Machine τ) (i : Instruction) : Prop :=
  i.opcode = .branch ∨ ∃ o u, s.next? = some (i, o, u) ∧ i.opcode.branches = true
    ∧ i.opcode.taken o.value = true

/-- The instruction that was executed from `s` on and has led to `t` may have changed the word at `a`: it
    is where the first operand was found, if the result goes there, or it is the new top of the stack. -/
def Target (s : Machine τ) (i : Instruction) (t : Machine τ) (a : Address) : Prop :=
  (i.opcode.delivers = true ∧ ∃ o u, s.next? = some (i, o, u) ∧ o.location = .memory a)
    ∨ i.opcode = .push ∧ a.toWord = t.cpu.registers.sp

/-- What an instruction `i` has changed that has led from `s` to `t` without calling the operating
    system. -/
structure Executed (s : Machine τ) (i : Instruction) (t : Machine τ) : Prop where
  host : t.host = s.host
  stack : t.cpu.stack = s.cpu.stack
  layout : t.cpu.layout = s.cpu.layout
  privilege : t.cpu.registers.privilege = s.cpu.registers.privilege
  clock : t.cpu.registers.clock = s.cpu.registers.clock
  /-- At most one word of memory has changed, and it is in the range of operands. -/
  memory : t.memory = s.memory ∨ ∃ a w, t.memory = s.memory.write a w ∧ s.Target i t a
    ∧ s.cpu.layout.operandRange.contains a.toWord = true
  sp : t.cpu.registers.sp.toInt = s.cpu.registers.sp.toInt + i.opcode.growth
  gpr : ∀ r, r ∉ i.written → t.cpu.registers.get r = s.cpu.registers.get r
  /-- The program goes on behind the words of the instruction. -/
  pc : ¬ s.Jumps i → t.cpu.registers.pc.toInt = s.cpu.registers.pc.toInt + i.words
  /-- The target of a branch is the last of these words. -/
  jump : s.Jumps i → ∃ a : Address, (a.index : Int) = s.cpu.registers.pc.toInt + i.words - 1
    ∧ t.cpu.registers.pc = s.memory.read a

/-- A general register that is not in `i.written` is not touched while operands are found. -/
theorem Touches.gpr_written (h : Touches i.stepped s t) {r : Register} (hr : r ∉ i.written) :
    t.cpu.registers.get r = s.cpu.registers.get r :=
  h.gpr r fun hin => hr (List.mem_append_left _ hin)

/-- Only a branch jumps: `i.opcode.branches = false` gives `¬ s.Jumps i`. -/
theorem not_jumps (h : i.opcode.branches = false) (s : Machine τ) : ¬ s.Jumps i := by
  rintro (hi | ⟨-, -, -, hi, -⟩)
  · rw [hi] at h
    exact absurd h (by decide)
  · rw [h] at hi
    exact absurd hi (by decide)

/-- A conditional branch jumps if `i.opcode.taken o.value`, where `o` is the operand that it has
    found. -/
theorem jumps_iff (hnext : s.next? = some (i, o, u)) (hi : i.opcode.branches = true)
    (hne : i.opcode ≠ .branch) : s.Jumps i ↔ i.opcode.taken o.value = true := by
  constructor
  · rintro (h | ⟨o', u', h, -, htaken⟩)
    · exact absurd h hne
    · rw [hnext] at h
      cases h
      exact htaken
  · intro htaken
    exact .inr ⟨o, u, hnext, hi, htaken⟩

/-- An instruction that has read its `i.words` words and has nothing to write, neither to an operand
    nor to the stack, is executed as `Executed` says. -/
theorem Reads.executed (h : Reads i.stepped i.words s t) (hi : i.opcode.growth = 0)
    (hjump : ¬ s.Jumps i) : Executed s i t where
  host := h.still.host
  stack := h.still.stack
  layout := h.still.layout
  privilege := congrArg (·.2.1) h.still.steady
  clock := congrArg (·.2.2) h.still.steady
  memory := .inl h.still.memory
  sp := by rw [h.still.sp, hi, Int.add_zero]
  gpr _ hr := h.gpr_written hr
  pc _ := h.pc
  jump hj := absurd hj hjump

/-- An instruction that has read its words and sets `pc` to the last of them, the word `w` at
    `pc + i.words - 1`, is executed as `Executed` says. -/
theorem Reads.jumped (h : Reads i.stepped i.words s t) (hi : i.opcode.growth = 0) (hjump : s.Jumps i)
    {a : Address} (ha : (a.index : Int) = s.cpu.registers.pc.toInt + i.words - 1) {w : Word}
    (hw : w = s.memory.read a) :
    Executed s i (t.withRegisters { t.cpu.registers with pc := w }) where
  host := h.still.host
  stack := h.still.stack
  layout := h.still.layout
  privilege := congrArg (·.2.1) h.still.steady
  clock := congrArg (·.2.2) h.still.steady
  memory := .inl h.still.memory
  sp := by
    show t.cpu.registers.sp.toInt = _
    rw [h.still.sp, hi, Int.add_zero]
  gpr _ hr := h.gpr_written hr
  pc hj := absurd hjump hj
  jump _ := ⟨a, ha, hw⟩

/-- An instruction that has read its words writes its result `w` to `o.location`, where the first
    operand was found.  The stack pointer may then move by `i.opcode.growth`, as it does in a pop; a
    location that is no place to write to is a fault that changes nothing. -/
theorem Reads.delivered (h : Reads i.stepped i.words s t) (hi : i.opcode.delivers = true)
    (hnext : s.next? = some (i, o, u)) (ho : i.first.Finds s.cpu.layout o) (w : Word) :
    Ends (store o.location w) t
      (fun _ v => v.cpu.registers.sp = s.cpu.registers.sp ∧ ∀ sp : Word,
        sp.toInt = s.cpu.registers.sp.toInt + i.opcode.growth → Executed s i (v.withSp sp))
      (fun _ v => v = t) := by
  have hjump : ¬ s.Jumps i := not_jumps (by revert hi; cases i.opcode <;> decide) s
  obtain ⟨location, value⟩ := o
  -- A register, a word of memory, or a part of the program, which cannot be written.
  cases location with
  | register j =>
    obtain ⟨hmode, rfl⟩ := ho.register j rfl
    refine ⟨h.still.sp, fun sp hsp => ⟨h.still.host, h.still.stack, h.still.layout,
      congrArg (·.2.1) h.still.steady, congrArg (·.2.2) h.still.steady, .inl h.still.memory, hsp,
      fun r hr => ?_, fun _ => h.pc, fun hj => absurd hj hjump⟩⟩
    have hne : i.first.register ≠ r := by
      rintro rfl
      refine hr (List.mem_append_right _ ?_)
      rw [if_pos ⟨hi, hmode⟩]
      exact List.mem_singleton_self _
    exact (Registers.get_set_of_ne _ _ hne).trans (h.gpr_written hr)
  | memory a =>
    refine ⟨h.still.sp, fun sp hsp => ⟨h.still.host, h.still.stack, h.still.layout,
      congrArg (·.2.1) h.still.steady, congrArg (·.2.2) h.still.steady, .inr ⟨a, w, ?_, ?_, ?_⟩, hsp,
      fun r hr => h.gpr_written hr, fun _ => h.pc, fun hj => absurd hj hjump⟩⟩
    · show t.memory.write a w = s.memory.write a w
      rw [h.still.memory]
    · exact .inl ⟨hi, _, u, hnext, rfl⟩
    · exact ho.memory a rfl
  | program => rfl

/-- Where an address follows the stack pointer, the sum does not wrap around:
    `(sp + 1).toInt = sp.toInt + 1`. -/
theorem toInt_sp_succ {sp : Word} {a : Address} (h : a.toWord = sp + 1) :
    (sp + 1).toInt = sp.toInt + 1 := by
  have hone : (1 : Word).toInt = 1 := by decide
  have hmax : sp.toInt ≤ 9223372036854775807 := sp.toInt_le
  have hmin : -9223372036854775808 ≤ sp.toInt := sp.le_toInt
  by_cases hlt : sp.toInt < 9223372036854775807
  · rw [Word.toInt_add (by omega) (by omega), hone]
  · have hsp : sp = Int64.maxValue := Int64.toInt_inj.mp (show sp.toInt = 9223372036854775807 by omega)
    have hneg : (Int64.maxValue + 1).toInt < 0 := by decide
    rw [← hsp, ← h, a.toInt_toWord] at hneg
    omega

/-- Below an address that the stack pointer holds, the difference does not wrap around:
    `(sp - 1).toInt = sp.toInt - 1`. -/
theorem toInt_sp_pred {sp : Word} {a : Address} (h : a.toWord = sp) :
    (sp - 1).toInt = sp.toInt - 1 := by
  have hone : (1 : Word).toInt = 1 := by decide
  have hsp : sp.toInt = a.index := by rw [← h, a.toInt_toWord]
  have hlt := a.index_lt
  simp only [memorySize] at hlt
  rw [Word.toInt_sub (by omega) (by omega), hone]

/-- An instruction that has read its words and writes `w` to `sp + 1`, which becomes the stack
    pointer, is executed as `Executed` says of a push. -/
theorem Reads.pushed (h : Reads i.stepped i.words s t) (hi : i.opcode = .push) {a : Address} (w : Word)
    (ha : t.cpu.reachable (t.cpu.registers.sp + 1) = .ok a) :
    Executed s i (withSp { t with memory := t.memory.write a w } (t.cpu.registers.sp + 1)) := by
  obtain ⟨hin, hword⟩ := Cpu.contains_reachable ha
  refine ⟨h.still.host, h.still.stack, h.still.layout, congrArg (·.2.1) h.still.steady,
    congrArg (·.2.2) h.still.steady, .inr ⟨a, w, ?_, .inr ⟨hi, hword⟩, ?_⟩, ?_,
    fun r hr => h.gpr_written hr, fun _ => h.pc, fun hj => absurd hj (not_jumps (by rw [hi]; rfl) s)⟩
  · show t.memory.write a w = s.memory.write a w
    rw [h.still.memory]
  · rw [hword, ← h.still.layout]
    exact hin
  · show (t.cpu.registers.sp + 1).toInt = _
    rw [toInt_sp_succ hword, h.still.sp, hi]
    rfl

/-- The rest `x` of an instruction `i` that was fetched from `s` executes it (`Executed s i`), or
    fails with nothing changed but registers of its operands (`Touches i.stepped s`). -/
def Carries (s : Machine τ) (i : Instruction) {α : Type} (x : Action (Machine τ) α) (t : Machine τ) :
    Prop :=
  Ends x t (fun _ v => Executed s i v) (fun _ v => Touches i.stepped s v)

/-- Writing `w` to where the first operand was found, and nothing more, carries out an instruction
    that delivers a result and leaves the stack. -/
theorem Reads.carries_store (h : Reads i.stepped i.words s t) (hi : i.opcode.delivers = true)
    (hgrowth : i.opcode.growth = 0) (hnext : s.next? = some (i, o, u))
    (ho : i.first.Finds s.cpu.layout o) (w : Word) : Carries s i (store o.location w) t := by
  refine (h.delivered hi hnext ho w).mono ?_ ?_
  · rintro _ v ⟨hsp, hexecuted⟩
    exact hexecuted v.cpu.registers.sp (by rw [hsp, hgrowth, Int.add_zero])
  · rintro e v rfl
    exact h.toTouches

section Fetched

variable (hfetch : exec (onCpu (Cpu.fetch s.memory)) s = (.ok i, t))

include hfetch

/-- Behind the fetch one word of the program has been read. -/
theorem reads_of_fetch : Reads i.stepped 1 s t := (ends_of_ok hfetch).mp (fetch_reads s)

/-- A fetch and a first operand that was found make up `s.next?`. -/
theorem next?_of_fetch (h : exec (operand i.first) t = (.ok o, u)) : s.next? = some (i, o, u) :=
  next?_eq_some_iff.mpr ⟨t, hfetch, h⟩

/-- The operand that all instructions but a halt and a branch look for first: it is that of
    `s.next?`, and `1 + i.first.mode.words` words have been read behind it. -/
theorem first_reads (hi : i.first ∈ i.operands) : Ends (operand i.first) t
    (fun o u => s.next? = some (i, o, u) ∧ i.first.Finds s.cpu.layout o
      ∧ Reads i.stepped (1 + i.first.mode.words) s u)
    (fun _ u => Touches i.stepped s u) := by
  have ht := reads_of_fetch hfetch
  refine (operand_reads (Instruction.stepped_subset hi)).run.mono ?_ fun e u hu =>
    ht.toTouches.trans hu
  rintro o u ⟨hrun, ho, hu⟩
  exact ⟨next?_of_fetch hfetch hrun, ht.still.layout ▸ ho, ht.trans hu⟩

/-- Arithmetic and moves, the instructions with `i.operands = [i.first, i.second]`, carry out their
    footprint. -/
theorem carries_combine (hops : i.operands = [i.first, i.second]) :
    Carries s i (execute handler i) t := by
  have hfirst := first_reads hfetch (by simp [hops])
  have hsub : i.second.stepped ⊆ i.stepped := Instruction.stepped_subset (by simp [hops])
  cases hop : i.opcode with
  | add | subtract | multiply | divide | move =>
    have hwords : 1 + i.first.mode.words + i.second.mode.words = i.words := by
      simp [Instruction.words, hops, hop, Opcode.branches, Nat.add_assoc]
    simp only [Carries, execute, hop, ends_bind, ends_pure]
    refine hfirst.mono ?_ fun e u hu => hu
    rintro target u ⟨hnext, htarget, hu⟩
    refine (operand_reads hsub).mono ?_ fun e v hv => hu.toTouches.trans hv
    rintro source v ⟨-, hv⟩
    -- The result is written last, after both operands are found.
    have hsv : Reads i.stepped i.words s v := (hu.trans hv).of_eq hwords
    rw [ends_ofExcept]
    refine ⟨fun result _ => ?_, fun e _ => hsv.toTouches⟩
    exact hsv.carries_store (by rw [hop]; rfl) (by rw [hop]; rfl) hnext htarget result
  | halt | branch | branchOnMinus | branchOnPlus | branchOnZero | push | pop | systemCall =>
    simp [Instruction.operands, hop] at hops

/-- A branch that depends on nothing, `.branch`, reads its target as its second word, and goes
    there. -/
theorem carries_branch (hi : i.opcode = .branch) : Carries s i (execute handler i) t := by
  have ht := reads_of_fetch hfetch
  have hwords : 1 + 1 = i.words := by
    simp [Instruction.words, Instruction.operands, hi, Opcode.branches]
  simp only [Carries, execute, hi, ends_bind, ends_pure, ends_modifyRegisters]
  refine nextWord_reads.mono ?_ fun e u hu => ht.toTouches.trans hu
  rintro target u ⟨hu, a, ha, hw⟩
  have hsu : Reads i.stepped i.words s u := (ht.trans hu).of_eq hwords
  have hend := hsu.pc
  have hlast := hu.pc
  exact hsu.jumped (by rw [hi]; rfl) (.inl hi) (a := a) (by omega) (by rw [hw, ht.still.memory])

/-- A branch that depends on an operand reads its target in any case, and goes there if the
    condition is met (`s.Jumps i`); otherwise it goes on behind its words. -/
theorem carries_condition (hi : i.opcode.branches = true) (hne : i.opcode ≠ .branch) :
    Carries s i (execute handler i) t := by
  cases hop : i.opcode with
  | branchOnMinus | branchOnPlus | branchOnZero =>
    have hops : i.operands = [i.first] := by simp [Instruction.operands, hop]
    have hwords : 1 + i.first.mode.words + 1 = i.words := by
      simp [Instruction.words, hops, hi]
    have hgrowth : i.opcode.growth = 0 := by rw [hop]; rfl
    simp only [Carries, execute, hop, ends_bind]
    refine (first_reads hfetch (by simp [hops])).mono ?_ fun e u hu => hu
    rintro condition u ⟨hnext, -, hu⟩
    refine nextWord_reads.mono ?_ fun e v hv => hu.toTouches.trans hv
    rintro target v ⟨hv, a, ha, hw⟩
    -- Both words are read before it is known whether the branch is taken.
    have hsv : Reads i.stepped i.words s v := (hu.trans hv).of_eq hwords
    rw [← hop]
    by_cases htaken : i.opcode.taken condition.value = true
    · simp only [htaken, if_true]
      have hjump : s.Jumps i := (jumps_iff hnext hi hne).mpr htaken
      have hend := hsv.pc
      have hlast := hv.pc
      exact hsv.jumped hgrowth hjump (a := a) (by omega) (by rw [hw, hu.still.memory])
    · simp only [htaken]
      have hstay : ¬ s.Jumps i := fun hj => htaken ((jumps_iff hnext hi hne).mp hj)
      exact hsv.executed hgrowth hstay
  | branch => exact absurd hop hne
  | halt | add | subtract | multiply | divide | move | push | pop | systemCall =>
    rw [hop] at hi
    exact absurd hi (by decide)

/-- A push writes its operand above the top, whether the stack is bounded or not; on a full stack it
    has only found the operand. -/
theorem carries_push (hi : i.opcode = .push) : Carries s i (execute handler i) t := by
  have hops : i.operands = [i.first] := by simp [Instruction.operands, hi]
  have hwords : 1 + i.first.mode.words = i.words := by
    simp [Instruction.words, hops, hi, Opcode.branches]
  simp only [Carries, execute, hi, ends_bind, ends_get]
  refine (first_reads hfetch (by simp [hops])).mono ?_ fun e u hu => hu
  rintro source u ⟨-, -, hu⟩
  have hsu : Reads i.stepped i.words s u := hu.of_eq hwords
  -- Whether the stack is bounded or not, this is what remains of the instruction.
  have hpush : Carries s i (do
      let a ← Action.ofExcept (u.cpu.reachable (u.cpu.registers.sp + 1))
      store (.memory a) source.value
      modifyRegisters fun r => { r with sp := u.cpu.registers.sp + 1 }
      return Step.proceed) u := by
    simp only [Carries, ends_bind, ends_ofExcept, ends_modifyRegisters, ends_pure]
    exact ⟨fun a ha => hsu.pushed hi source.value ha, fun _ _ => hsu.toTouches⟩
  split
  · split
    · exact hsu.toTouches
    · exact hpush
  · exact hpush

/-- A pop delivers the top to its first operand and moves the stack pointer down, whether the stack
    is bounded or not; on an empty stack it has only found the operand. -/
theorem carries_pop (hi : i.opcode = .pop) : Carries s i (execute handler i) t := by
  have hops : i.operands = [i.first] := by simp [Instruction.operands, hi]
  have hwords : 1 + i.first.mode.words = i.words := by
    simp [Instruction.words, hops, hi, Opcode.branches]
  simp only [Carries, execute, hi, ends_bind, ends_get]
  refine (first_reads hfetch (by simp [hops])).mono ?_ fun e u hu => hu
  rintro target u ⟨hnext, htarget, hu⟩
  have hsu : Reads i.stepped i.words s u := hu.of_eq hwords
  -- What remains of the instruction, with and without bounds.
  have hpop : Carries s i (do
      let a ← Action.ofExcept (u.cpu.reachable u.cpu.registers.sp)
      store target.location (u.memory.read a)
      modifyRegisters fun r => { r with sp := u.cpu.registers.sp - 1 }
      return Step.proceed) u := by
    simp only [Carries, ends_bind, ends_ofExcept, ends_modifyRegisters, ends_pure]
    refine ⟨fun a ha => ?_, fun _ _ => hsu.toTouches⟩
    have hsp : (u.cpu.registers.sp - 1).toInt = s.cpu.registers.sp.toInt + i.opcode.growth := by
      rw [toInt_sp_pred (Cpu.toWord_reachable ha), hu.still.sp, hi]
      rfl
    refine (hsu.delivered (by rw [hi]; rfl) hnext htarget _).mono ?_ ?_
    · rintro _ v ⟨-, hexecuted⟩
      exact hexecuted _ hsp
    · rintro e v rfl
      exact hsu.toTouches
  split
  · split
    · exact hsu.toTouches
    · exact hpop
  · exact hpop

/-- Every instruction but a system call is executed as its footprint says:
    `Carries s i (execute handler i) t` behind a fetch of `i`. -/
theorem carries_execute (hi : i.opcode ≠ .systemCall) : Carries s i (execute handler i) t := by
  cases hop : i.opcode with
  | systemCall => exact absurd hop hi
  | halt =>
    have hwords : 1 = i.words := by
      simp [Instruction.words, Instruction.operands, hop, Opcode.branches]
    simp only [Carries, execute, hop, ends_pure]
    exact ((reads_of_fetch hfetch).of_eq hwords).executed (by rw [hop]; rfl)
      (not_jumps (by rw [hop]; rfl) s)
  | add | subtract | multiply | divide | move =>
    exact carries_combine hfetch (by simp [Instruction.operands, hop])
  | branch => exact carries_branch hfetch hop
  | branchOnMinus | branchOnPlus | branchOnZero =>
    exact carries_condition hfetch (by rw [hop]; rfl) (by simp [hop])
  | push => exact carries_push hfetch hop
  | pop => exact carries_pop hfetch hop

end Fetched

/-! ### Steps -/

/-- The instruction that the next step fetches, if the word at the program counter is one. -/
def fetched? (s : Machine τ) : Option Instruction := (exec (onCpu (Cpu.fetch s.memory)) s).1.toOption

/-- What a step has changed that has failed: registers that are there to find operands, and of the general
    registers those that the instruction counts up or down. -/
def Abandoned (s t : Machine τ) : Prop :=
  Touches (s.fetched?.elim [] (·.stepped)) s t

/-- What the next step of `s` changes: a step that succeeds gives the instruction that was fetched
    and, if it is no system call, has `Executed` it; a step that fails is `Abandoned`. -/
def Footprint (handler : TrapHandler τ) (s : Machine τ) : Prop :=
  Ends (step handler) s
    (fun r t => s.fetched? = some r.1 ∧ (r.1.opcode ≠ .systemCall → Executed s r.1 t))
    (fun _ t => Abandoned s t)

/-- **What one step changes**, if the trap handler never fails: `Footprint handler s` of every
    machine `s`, without a condition on its layout or its registers. -/
theorem step_footprint (hhandler : ∀ call, Raises (fun _ => False) (handler call)) (s : Machine τ) :
    Footprint handler s := by
  unfold Footprint
  rcases hfetch : exec (onCpu (Cpu.fetch s.memory)) s with ⟨e | i, t⟩
  · have hfetched : s.fetched? = none := by rw [fetched?, hfetch]; rfl
    rw [ends_of_error (exec_step_error hfetch), Abandoned, hfetched]
    exact (ends_of_error hfetch).mp (fetch_reads s)
  have hfetched : s.fetched? = some i := by rw [fetched?, hfetch]; rfl
  -- An instruction that fails has touched what its operands step over, and nothing else.
  have habandoned : ∀ {u}, Touches i.stepped s u → Abandoned s u := by
    intro u hu
    rw [Abandoned, hfetched]
    exact hu
  by_cases hi : i.opcode = .systemCall
  · -- The call itself does not fail, so that only its operand may not be found.
    have hfirst := first_reads hfetch (by simp [Instruction.operands, hi])
    rcases hoperand : exec (operand i.first) t with ⟨e | o, u⟩
    · have hstep : exec (step handler) s = (.error e, u) := by
        rw [exec_step_ok hfetch, exec_bind_error (exec_execute_error (by rw [hi]; rfl) hoperand)]
      rw [ends_of_error hstep]
      exact habandoned ((ends_of_error hoperand).mp hfirst)
    · have hstep := step_call handler (next?_of_fetch hfetch hoperand) hi
      rcases hcall : exec (handler o.value) u.environment with ⟨e | outcome, env⟩
      · exact absurd hcall (hhandler o.value _ e env)
      · rw [hcall] at hstep
        rw [ends_of_ok hstep]
        exact ⟨hfetched, fun hne => absurd hi hne⟩
  · have hcarries : Carries s i (execute handler i) t := carries_execute hfetch hi
    unfold Carries at hcarries
    rcases hexec : exec (execute handler i) t with ⟨e | next, u⟩
    · rw [ends_of_error hexec] at hcarries
      have hstep : exec (step handler) s = (.error e, u) := by
        rw [exec_step_ok hfetch, exec_bind_error hexec]
      rw [ends_of_error hstep]
      exact habandoned hcarries
    · rw [ends_of_ok hexec] at hcarries
      have hstep : exec (step handler) s = (.ok (i, next), u) := by
        rw [exec_step_ok hfetch, exec_bind_ok hexec, exec_pure]
      rw [ends_of_ok hstep]
      exact ⟨hfetched, fun _ => hcarries⟩

end Machine

end Timeshare
