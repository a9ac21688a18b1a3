import Timeshare.Proofs.Machine.Step

namespace Timeshare

/-!
# Two machines

What a program does depends on the words that it can reach alone.  Here two machines are compared
that have the same registers, stack and layout, while their memories are only related.

* `Memory.Twins l` — a relation of memories that agree on the range of operands, and that is kept by
  equal writes into it.
* `Machine.Twin l M H s t` — the machines `s` and `t` have the same processor, memories that are
  related by `M`, and trap handlers whose states are related by `H`.
* `Machine.Twin.alike_step` — if their trap handlers answer alike, such machines take the next step
  alike.
-/

/-- Related memories agree on the range of operands, and equal writes into it keep them related. -/
structure Memory.Twins (l : Layout) (M : Memory → Memory → Prop) : Prop where
  agree : ∀ m n, M m n → Memory.SameOn (· ∈ l.operandRange) m n
  write : ∀ m n a w, M m n → a ∈ l.operandRange → M (m.write a w) (n.write a w)

/-- Two trap states have the same registers, and related memories and handlers' states. -/
structure TrapState.Twin {τ : Type} (M : Memory → Memory → Prop) (H : τ → τ → Prop)
    (s t : TrapState τ) : Prop where
  registers : s.registers = t.registers
  host : H s.host t.host
  memory : M s.memory t.memory

namespace Machine

open Timeshare.Action

variable {τ : Type}

/-- Two machines with a layout have the same processor, and related memories and handlers'
    states. -/
structure Twin (l : Layout) (M : Memory → Memory → Prop) (H : τ → τ → Prop) (s t : Machine τ) :
    Prop where
  layout : s.cpu.layout = l
  cpu : s.cpu = t.cpu
  host : H s.host t.host
  memory : M s.memory t.memory

variable {l : Layout} {M : Memory → Memory → Prop} {H : τ → τ → Prop} {s t : Machine τ}
  {handler handler' : TrapHandler τ}

/-- Twin machines stay so with the same other registers `r`. -/
theorem Twin.withRegisters (h : Twin l M H s t) (r : Registers) :
    Twin l M H (s.withRegisters r) (t.withRegisters r) where
  layout := h.layout
  cpu := congrArg (Cpu.withRegisters · r) h.cpu
  host := h.host
  memory := h.memory

/-- Twin machines change their registers alike, by the same `f`. -/
theorem Twin.alike_modifyRegisters (h : Twin l M H s t) (f : Registers → Registers) :
    Alike (Twin l M H) (modifyRegisters f) (modifyRegisters f) s t := by
  have hf := h.withRegisters (f s.cpu.registers)
  refine ⟨rfl, ?_⟩
  show Twin l M H (s.withRegisters (f s.cpu.registers)) (t.withRegisters (f t.cpu.registers))
  rwa [← h.cpu]

/-- Twin machines stay so when both clocks go on. -/
theorem Twin.tick (h : Twin l M H s t) (cost : UInt64) : Twin l M H (s.tick cost) (t.tick cost) := by
  have hclock := h.withRegisters { s.cpu.registers with clock := s.cpu.registers.clock + cost }
  show Twin l M H (s.withRegisters _) (t.withRegisters { t.cpu.registers with
    clock := t.cpu.registers.clock + cost })
  rwa [← h.cpu]

/-- What the processor does in the same way on both memories (`hxy`), without changing the layout,
    twin machines do alike. -/
theorem Twin.alike_onCpu {α : Type} {x y : Action Cpu α} (h : Twin l M H s t)
    (hxy : exec x s.cpu = exec y s.cpu) (hlayout : (exec x s.cpu).2.layout = s.cpu.layout) :
    Alike (Twin l M H) (onCpu x) (onCpu y) s t := by
  unfold Alike onCpu
  rw [exec_zoom, exec_zoom, ← h.cpu, ← hxy]
  exact ⟨rfl, hlayout.trans h.layout, rfl, h.host, h.memory⟩

/-- Twin machines store a word alike, where a program may reach: at a location in `l.operandRange`,
    or in a register. -/
theorem Twin.alike_store (h : Twin l M H s t) (hM : Memory.Twins l M) {location : Location}
    (w : Word) (hloc : ∀ a, location = .memory a → a ∈ l.operandRange) :
    Alike (Twin l M H) (store location w) (store location w) s t := by
  cases location with
  | register r => exact h.alike_modifyRegisters _
  | memory a =>
    refine alike_modify ⟨h.layout, h.cpu, h.host, ?_⟩
    exact hM.write _ _ a w h.memory (hloc a rfl)
  | program => exact alike_throw h

/-- Twin machines call their trap handlers alike, if these answer alike on every pair that is
    `TrapState.Twin`. -/
theorem Twin.alike_trap (h : Twin l M H s t)
    (hhandler : ∀ w s t, TrapState.Twin M H s t →
      Alike (TrapState.Twin M H) (handler w) (handler' w) s t) (number : Word) :
    Alike (Twin l M H) (trap handler number) (trap handler' number) s t := by
  refine alike_zoom (Q := TrapState.Twin M H) ?_ (hhandler number _ _ ⟨?_, h.host, h.memory⟩)
  · intro s' t' h'
    refine ⟨h.layout, ?_, h'.host, h'.memory⟩
    show s.cpu.withRegisters s'.registers = t.cpu.withRegisters t'.registers
    rw [h.cpu, h'.registers]
  · rw [h.cpu]

section Step

variable (hL : l.Valid) (hM : Memory.Twins l M)

include hL hM

/-- The memories of twin machines agree on what the processor may reach, `operandRange`. -/
theorem Twin.agree (h : Twin l M H s t) : s.cpu.layout.Valid ∧
    Memory.SameOn (· ∈ s.cpu.layout.operandRange) s.memory t.memory :=
  ⟨h.layout ▸ hL, h.layout ▸ hM.agree _ _ h.memory⟩

/-- Twin machines read the next word of the program alike. -/
theorem Twin.alike_nextWord (h : Twin l M H s t) :
    Alike (Twin l M H) (nextWord : Action (Machine τ) Word) nextWord s t := by
  obtain ⟨hL', hmem⟩ := h.agree hL hM
  refine Alike.get_bind (h.alike_onCpu (Cpu.nextWord_congr hL' hmem) ?_)
  refine (ends_state_iff (P := fun d : Cpu => d.layout = s.cpu.layout)).mp ?_
  refine Cpu.nextWord_ends.mono ?_ ?_
  · rintro w d ⟨r, rfl⟩
    rfl
  · rintro e d rfl
    rfl

/-- Twin machines find an operand alike. -/
theorem Twin.alike_operand (h : Twin l M H s t) (spec : OperandSpec) :
    Alike (Twin l M H) (operand spec : Action (Machine τ) Operand) (operand spec) s t := by
  obtain ⟨hL', hmem⟩ := h.agree hL hM
  refine Alike.get_bind (h.alike_onCpu (Cpu.operand_congr hL' hmem spec) ?_)
  refine (ends_state_iff (P := fun d : Cpu => d.layout = s.cpu.layout)).mp ?_
  refine (Cpu.operand_ends hL' spec).mono ?_ ?_
  · rintro o d ⟨-, r, rfl⟩
    rfl
  · rintro e d ⟨r, rfl⟩
    rfl

/-- An operand of twin machines is where a program may reach: `Cpu.Reached l o`. -/
theorem Twin.reached (h : Twin l M H s t) {s' : Machine τ} {spec : OperandSpec} {o : Operand}
    (ho : exec (operand spec) s = (.ok o, s')) : Cpu.Reached l o := by
  obtain ⟨hL', -⟩ := h.agree hL hM
  have hends := (ends_of_ok ho).mp (operand_ends hL' spec)
  exact h.layout ▸ hends.1

/-- Whatever a program can reach is the same on twin machines:
    `s.memory.read a = t.memory.read a`. -/
theorem Twin.reachable (h : Twin l M H s t) {w : Word} {a : Address}
    (ha : s.cpu.reachable w = .ok a) :
    a ∈ l.operandRange ∧ s.memory.read a = t.memory.read a := by
  obtain ⟨hL', hmem⟩ := h.agree hL hM
  have hmem' := (Cpu.reachable_mem hL' ha).1
  exact ⟨h.layout ▸ hmem', hmem a hmem'⟩

/-- Twin machines put a word `w` on the stack alike, at `sp`. -/
theorem Twin.alike_push (h : Twin l M H s t) (sp w : Word) :
    Alike (Twin l M H)
      (do
        let a ← Action.ofExcept (s.cpu.reachable sp)
        store (.memory a) w
        modifyRegisters fun r => { r with sp }
        return Step.proceed)
      (do
        let a ← Action.ofExcept (s.cpu.reachable sp)
        store (.memory a) w
        modifyRegisters fun r => { r with sp }
        return Step.proceed) s t := by
  cases ha : s.cpu.reachable sp with
  | error e => exact alike_throw h
  | ok a =>
    refine (alike_ofExcept h).bind fun b s' t' hb h' => ?_
    obtain rfl : a = b := Except.ok.inj (congrArg Prod.fst hb)
    -- The address was reachable, so that it lies in the range of operands.
    have hloc : ∀ b, Location.memory a = .memory b → b ∈ l.operandRange := by
      rintro b hb
      obtain rfl := Location.memory.inj hb
      exact (h.reachable hL hM ha).1
    refine (h'.alike_store hM w hloc).bind fun _ s t _ h => ?_
    exact (h.alike_modifyRegisters _).bind fun _ s t _ h => alike_pure h

/-- Twin machines take the word at `sp` from the stack alike. -/
theorem Twin.alike_pop (h : Twin l M H s t) (sp : Word) {location : Location}
    (hloc : ∀ a, location = .memory a → a ∈ l.operandRange) :
    Alike (Twin l M H)
      (do
        let a ← Action.ofExcept (s.cpu.reachable sp)
        store location (s.memory.read a)
        modifyRegisters fun r => { r with sp := sp - 1 }
        return Step.proceed)
      (do
        let a ← Action.ofExcept (s.cpu.reachable sp)
        store location (t.memory.read a)
        modifyRegisters fun r => { r with sp := sp - 1 }
        return Step.proceed) s t := by
  cases ha : s.cpu.reachable sp with
  | error e => exact alike_throw h
  | ok a =>
    refine (alike_ofExcept h).bind fun b s' t' hb h' => ?_
    obtain rfl : a = b := Except.ok.inj (congrArg Prod.fst hb)
    rw [(h.reachable hL hM ha).2]
    refine (h'.alike_store hM _ hloc).bind fun _ s t _ h => ?_
    exact (h.alike_modifyRegisters _).bind fun _ s t _ h => alike_pure h

/-- Twin machines execute an instruction alike, if their trap handlers answer alike, as in
    `Twin.alike_trap`. -/
theorem Twin.alike_execute (h : Twin l M H s t)
    (hhandler : ∀ w s t, TrapState.Twin M H s t →
      Alike (TrapState.Twin M H) (handler w) (handler' w) s t) (i : Instruction) :
    Alike (Twin l M H) (execute handler i) (execute handler' i) s t := by
  obtain ⟨opcode, first, second⟩ := i
  cases opcode with
  | halt => exact alike_pure h
  | add | subtract | multiply | divide | move =>
    refine (h.alike_operand hL hM first).bind fun target s t htarget h' => ?_
    -- The target was found first; the second operand does not change where it is.
    have hreached := h.reached hL hM htarget
    refine (h'.alike_operand hL hM second).bind fun source s t _ h => ?_
    refine (alike_ofExcept h).bind fun result s t _ h => ?_
    exact (h.alike_store hM result hreached).bind fun _ s t _ h => alike_pure h
  | branch =>
    refine (h.alike_nextWord hL hM).bind fun target s t _ h => ?_
    exact (h.alike_modifyRegisters _).bind fun _ s t _ h => alike_pure h
  | branchOnMinus | branchOnPlus | branchOnZero =>
    refine (h.alike_operand hL hM first).bind fun condition s t _ h => ?_
    refine (h.alike_nextWord hL hM).bind fun target s t _ h => ?_
    split
    · exact (h.alike_modifyRegisters _).bind fun _ s t _ h => alike_pure h
    · exact alike_pure h
  | push =>
    refine (h.alike_operand hL hM first).bind fun source s t _ h => Alike.get_bind ?_
    -- Both machines ask the same processor for the window of the stack.
    simp only [← h.cpu]
    have hpush := h.alike_push hL hM (s.cpu.registers.sp + 1) source.value
    split
    · split
      · exact alike_throw h
      · exact hpush
    · exact hpush
  | pop =>
    refine (h.alike_operand hL hM first).bind fun target s t htarget h' => Alike.get_bind ?_
    have hreached := h.reached hL hM htarget
    simp only [← h'.cpu]
    have hpop := h'.alike_pop hL hM s.cpu.registers.sp hreached
    split
    · split
      · exact alike_throw h'
      · exact hpop
    · exact hpop
  -- The handlers see the same registers and related memories, and answer alike by `hhandler`.
  | systemCall =>
    refine (h.alike_operand hL hM first).bind fun call s t _ h => ?_
    refine Alike.get_bind ((alike_note h).bind fun _ s t _ h => ?_)
    refine (h.alike_modifyRegisters _).bind fun _ s t _ h => ?_
    refine (h.alike_trap hhandler call.value).observe.bind fun outcome s t _ h => ?_
    refine (h.alike_modifyRegisters _).bind fun _ s t _ h => ?_
    refine (alike_ofExcept h).bind fun outcome s t _ h => ?_
    cases outcome with
    | proceed => exact alike_pure h
    | block status => exact alike_pure h

/-- **Steps of two machines.**  Machines that are `Twin`, so that they differ only in words that a
    program cannot reach, take the next step alike, if their trap handlers answer alike. -/
theorem Twin.alike_step (h : Twin l M H s t)
    (hhandler : ∀ w s t, TrapState.Twin M H s t →
      Alike (TrapState.Twin M H) (handler w) (handler' w) s t) :
    Alike (Twin l M H) (step handler) (step handler') s t := by
  obtain ⟨hL', hmem⟩ := h.agree hL hM
  -- Both fetch the same instruction, as the program counter is where a program may reach.
  have hfetch : Alike (Twin l M H) (onCpu (Cpu.fetch s.memory)) (onCpu (Cpu.fetch t.memory)) s t := by
    refine h.alike_onCpu (Cpu.fetch_congr hL' hmem) ?_
    refine (ends_state_iff (P := fun d : Cpu => d.layout = s.cpu.layout)).mp ?_
    refine Cpu.fetch_ends.mono ?_ ?_
    all_goals
      rintro x d ⟨r, rfl⟩
      rfl
  refine Alike.get_bind (hfetch.bind fun i s t _ h => Alike.get_bind ?_)
  refine (alike_note h).bind fun _ s t _ h => ?_
  exact (h.alike_execute hL hM hhandler i).bind fun next s t _ h => alike_pure h

end Step

end Machine

end Timeshare
