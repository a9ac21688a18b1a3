import Timeshare.Proofs.Machine.Operand

namespace Timeshare

/-!
# What a step can do

* `Machine.Effect handler s res t` — the ways in which a step from the machine `s` can lead to the
  machine `t`: registers change and nothing else; an instruction stores one word where a program
  may reach; the trap handler was called.
* `Machine.step_effect` — there are no other ways.  Everything about runs that is not about the
  registers follows from it.
* `Machine.keeps_step` — after a step the processor works at the level of programs again, whatever the
  trap handler has done.
* `Machine.returns_step` — a program waits only for what its trap handler lets it wait for.
-/

/-- Operations that write a result to an operand or to the stack. -/
def Opcode.stores : Opcode → Bool
  | .add | .subtract | .multiply | .divide | .move | .push | .pop => true
  | .halt | .branch | .branchOnMinus | .branchOnPlus | .branchOnZero | .systemCall => false

namespace Machine

open Timeshare.Action

variable {τ : Type} {handler : TrapHandler τ} {s t u : Machine τ} {i : Instruction}

/-! ### Changes of registers -/

/-- The machine with other registers. -/
def withRegisters (s : Machine τ) (r : Registers) : Machine τ :=
  { s with cpu := s.cpu.withRegisters r }

/-- A machine that differs from another in its registers only. -/
def SameRest (s t : Machine τ) : Prop := ∃ r, t = s.withRegisters r

/-- The machine with other registers is the same in all the rest:
    `SameRest s (s.withRegisters r)`. -/
theorem sameRest_withRegisters (s : Machine τ) (r : Registers) : SameRest s (s.withRegisters r) :=
  ⟨r, rfl⟩

@[refl] theorem SameRest.refl (s : Machine τ) : SameRest s s := ⟨s.cpu.registers, rfl⟩

/-- Being the same but for the registers is transitive. -/
theorem SameRest.trans (h : SameRest s t) (h' : SameRest t u) : SameRest s u := by
  obtain ⟨r, rfl⟩ := h
  obtain ⟨r', rfl⟩ := h'
  exact ⟨r', rfl⟩

/-- A machine that is the same but for its registers has the same layout. -/
theorem SameRest.layout (h : SameRest s t) : t.cpu.layout = s.cpu.layout := by
  obtain ⟨r, rfl⟩ := h
  rfl

@[simp] theorem exec_modifyRegisters (f : Registers → Registers) (s : Machine τ) :
    exec (modifyRegisters f) s = (.ok (), s.withRegisters (f s.cpu.registers)) := rfl

@[simp] theorem ends_modifyRegisters {f : Registers → Registers} {Q : Unit → Machine τ → Prop}
    {E : Fault → Machine τ → Prop} :
    Ends (modifyRegisters f) s Q E ↔ Q () (s.withRegisters (f s.cpu.registers)) := Iff.rfl

/-- Reading a word that follows an instruction changes registers only, also if it fails:
    `SameRest s t`. -/
theorem nextWord_ends :
    Ends (nextWord : Action (Machine τ) Word) s (fun _ t => SameRest s t)
      (fun _ t => SameRest s t) := by
  simp only [nextWord, onCpu, ends_bind, ends_get, ends_zoom]
  refine Cpu.nextWord_ends.mono ?_ ?_
  · rintro w c ⟨r, rfl⟩
    exact ⟨r, rfl⟩
  · rintro e c rfl
    exact SameRest.refl s

/-- Finding an operand changes registers only, and an operand in memory is where a program may
    reach, `Cpu.Reached`. -/
theorem operand_ends (hL : s.cpu.layout.Valid) (spec : OperandSpec) :
    Ends (operand spec) s (fun o t => Cpu.Reached s.cpu.layout o ∧ SameRest s t)
      (fun _ t => SameRest s t) := by
  simp only [operand, onCpu, ends_bind, ends_get, ends_zoom]
  refine (Cpu.operand_ends hL spec).mono ?_ ?_
  · rintro o c ⟨ho, r, rfl⟩
    exact ⟨ho, r, rfl⟩
  · rintro e c ⟨r, rfl⟩
    exact ⟨r, rfl⟩

/-! ### The effect of a step -/

/-- What a step from a machine can lead to. -/
inductive Effect (handler : TrapHandler τ) (s : Machine τ) :
    Except Fault (Instruction × Step) → Machine τ → Prop where
  /-- Registers change, and nothing else. -/
  | registers (res : Except Fault (Instruction × Step)) (r : Registers) :
    Effect handler s res (s.withRegisters r)
  /-- An instruction stores one word where a program may reach. -/
  | stored (i : Instruction) (r : Registers) (a : Address) (w : Word)
    (hi : i.opcode.stores = true) (ha : a ∈ s.cpu.layout.operandRange) :
    Effect handler s (.ok (i, .proceed)) { s.withRegisters r with memory := s.memory.write a w }
  /-- The trap handler was called. -/
  | trapped (res : Except Fault (Instruction × Step)) (number : Word) (r r' : Registers)
    (t : TrapState τ) (ht : (exec (handler number) ⟨r, s.memory, s.host⟩).2 = t) :
    Effect handler s res { s.withRegisters r' with memory := t.memory, host := t.host }

/-- A change of registers only is an `Effect` of a step, however the step ends. -/
theorem SameRest.effect (h : SameRest s t) (res : Except Fault (Instruction × Step)) :
    Effect handler s res t := by
  obtain ⟨r, rfl⟩ := h
  exact .registers res r

/-- Registers may change before the rest of a step. -/
theorem Effect.of_sameRest {res : Except Fault (Instruction × Step)} (h : SameRest s t)
    (h' : Effect handler t res u) : Effect handler s res u := by
  obtain ⟨r, rfl⟩ := h
  cases h' with
  | registers res r' => exact .registers res r'
  | stored i r' a w hi ha => exact .stored i r' a w hi ha
  | trapped res number r₁ r₂ t' ht => exact .trapped res number r₁ r₂ t' ht

/-- Storing the word `w` changes a register, or writes `w` to the address of the operand. -/
theorem store_ends {location : Location} {w : Word} :
    Ends (store location w) s
      (fun _ t => SameRest s t
        ∨ ∃ a, location = .memory a ∧ t = { s with memory := s.memory.write a w })
      (fun _ t => t = s) := by
  cases location with
  | register r => exact .inl ⟨_, rfl⟩
  | memory a => exact .inr ⟨a, rfl, rfl⟩
  | program => rfl

/-- An instruction that `stores` has an effect of a step when it stores its result where an operand
    was found; registers may change before and after it. -/
theorem store_effect {o : Operand} {w : Word} (hi : i.opcode.stores = true) (hst : SameRest s t)
    (ho : Cpu.Reached s.cpu.layout o) :
    Ends (store o.location w) t
      (fun _ u => ∀ r, Effect handler s (.ok (i, .proceed)) (u.withRegisters r))
      (fun e u => Effect handler s (.error e) u) := by
  refine store_ends.mono ?_ ?_
  · rintro _ u (h | ⟨a, hloc, rfl⟩) r
    · exact ((hst.trans h).trans (sameRest_withRegisters u r)).effect _
    · refine Effect.of_sameRest hst (.stored i r a w hi ?_)
      rw [hst.layout]
      exact ho a hloc
  · rintro e u rfl
    exact hst.effect _

/-- A call of the trap handler is an `Effect` of a step, also if it fails; registers may change
    before and after it. -/
theorem trap_effect (hst : SameRest s t) (number : Word) :
    Ends (trap handler number) t
      (fun _ u => ∀ res r, Effect handler s res (u.withRegisters r))
      (fun _ u => ∀ res r, Effect handler s res (u.withRegisters r)) := by
  refine (ends_state_iff (P := fun u : Machine τ => ∀ res r,
    Effect handler s res (u.withRegisters r))).mpr ?_
  exact fun res r => .of_sameRest hst (.trapped res number t.cpu.registers r _ rfl)

/-- Every instruction has an effect of a step, seen from the machine `s` that has fetched it. -/
theorem execute_effect (hL : s.cpu.layout.Valid) (i : Instruction) :
    Ends (execute handler i) s (fun next t => Effect handler s (.ok (i, next)) t)
      (fun e t => Effect handler s (.error e) t) := by
  -- Up to the point where a result is stored, a failure leaves nothing but registers behind.
  have hfail : ∀ e t, SameRest s t → Effect handler s (.error e) t := fun e t h => h.effect _
  obtain ⟨opcode, first, second⟩ := i
  cases opcode with
  | halt => exact (SameRest.refl s).effect _
  | add | subtract | multiply | divide | move =>
    simp only [execute, ends_bind, ends_pure]
    refine (operand_ends hL first).mono ?_ hfail
    rintro target t ⟨htarget, ht⟩
    refine (operand_ends (ht.layout ▸ hL) second).mono ?_ fun e u hu => hfail e u (ht.trans hu)
    rintro source u ⟨-, hu⟩
    rw [ends_ofExcept]
    refine ⟨fun result _ => ?_, fun e _ => hfail e u (ht.trans hu)⟩
    exact (store_effect rfl (ht.trans hu) htarget).mono
      (fun _ v hv => hv v.cpu.registers) fun e v hv => hv
  | branch =>
    simp only [execute, ends_bind, ends_pure]
    refine nextWord_ends.mono (fun target t ht => ?_) hfail
    exact (ht.trans (sameRest_withRegisters t _)).effect _
  | branchOnMinus | branchOnPlus | branchOnZero =>
    simp only [execute, ends_bind]
    refine (operand_ends hL first).mono ?_ hfail
    rintro condition t ⟨-, ht⟩
    refine nextWord_ends.mono (fun target u hu => ?_) fun e u hu => hfail e u (ht.trans hu)
    split
    · exact ((ht.trans hu).trans (sameRest_withRegisters u _)).effect _
    · exact (ht.trans hu).effect _
  | push =>
    simp only [execute, ends_bind, ends_get]
    refine (operand_ends hL first).mono ?_ hfail
    rintro source t ⟨-, ht⟩
    -- Whether the stack is bounded or not, this is what remains of the instruction.
    have hpush : Ends (do
        let a ← Action.ofExcept (t.cpu.reachable (t.cpu.registers.sp + 1))
        store (.memory a) source.value
        modifyRegisters fun r => { r with sp := t.cpu.registers.sp + 1 }
        return Step.proceed) t
        (fun next u => Effect handler s (.ok (⟨.push, first, second⟩, next)) u)
        (fun e u => Effect handler s (.error e) u) := by
      simp only [ends_bind, ends_ofExcept, ends_modifyRegisters, ends_pure]
      refine ⟨fun a ha => ?_, fun e _ => hfail e t ht⟩
      refine .of_sameRest ht (.stored _ _ a _ rfl ?_)
      exact (Cpu.reachable_mem (ht.layout ▸ hL) ha).1
    split
    · split
      · exact hfail _ t ht
      · exact hpush
    · exact hpush
  | pop =>
    simp only [execute, ends_bind, ends_get]
    refine (operand_ends hL first).mono ?_ hfail
    rintro target t ⟨htarget, ht⟩
    -- The word may come from anywhere; what counts is where it goes.
    have hpop : Ends (do
        let a ← Action.ofExcept (t.cpu.reachable t.cpu.registers.sp)
        store target.location (t.memory.read a)
        modifyRegisters fun r => { r with sp := t.cpu.registers.sp - 1 }
        return Step.proceed) t
        (fun next u => Effect handler s (.ok (⟨.pop, first, second⟩, next)) u)
        (fun e u => Effect handler s (.error e) u) := by
      simp only [ends_bind, ends_ofExcept, ends_modifyRegisters, ends_pure]
      refine ⟨fun a _ => ?_, fun e _ => hfail e t ht⟩
      exact (store_effect rfl ht htarget).mono (fun _ u hu => hu _) fun e u hu => hu
    split
    · split
      · exact hfail _ t ht
      · exact hpop
    · exact hpop
  | systemCall =>
    simp only [execute, ends_bind, ends_get, ends_note, ends_modifyRegisters, ends_observe]
    refine (operand_ends hL first).mono ?_ hfail
    rintro call t ⟨-, ht⟩
    -- The handler may fail; the privilege level changes back before the failure is passed on.
    refine (trap_effect (ht.trans (sameRest_withRegisters t _)) call.value).mono ?_ ?_
    · intro outcome u hu
      cases outcome with
      | proceed => exact hu _ _
      | block status => exact hu _ _
    · intro e u hu
      exact hu _ _

/-- **Effect of a step.**  A step changes registers, or stores one word where the program may reach,
    or calls the trap handler; `Effect` has no other cases. -/
theorem step_effect (handler : TrapHandler τ) (hL : s.cpu.layout.Valid) :
    Effect handler s (exec (step handler) s).1 (exec (step handler) s).2 := by
  have h : Ends (step handler) s (fun a t => Effect handler s (.ok a) t)
      (fun e t => Effect handler s (.error e) t) := by
    simp only [step, onCpu, ends_bind, ends_get, ends_zoom, ends_note, ends_pure]
    -- Fetching the instruction changes registers only, and the rest is `execute_effect`.
    refine Cpu.fetch_ends.mono ?_ ?_
    · rintro i c ⟨r, rfl⟩
      have hfetch : SameRest s (s.withRegisters r) := ⟨r, rfl⟩
      exact (execute_effect (hfetch.layout ▸ hL) i).mono
        (fun next t h => .of_sameRest hfetch h) fun e t h => .of_sameRest hfetch h
    · rintro e c ⟨r, rfl⟩
      exact .registers _ r
  rcases hx : exec (step handler) s with ⟨e | a, t⟩
  · rwa [ends_of_error hx] at h
  · rwa [ends_of_ok hx] at h

/-- A step leaves the window of the stack alone: `t.cpu.stack = s.cpu.stack`. -/
theorem Effect.stack {res : Except Fault (Instruction × Step)} (h : Effect handler s res t) :
    t.cpu.stack = s.cpu.stack := by
  cases h <;> rfl

/-- A step leaves the layout alone: `t.cpu.layout = s.cpu.layout`. -/
theorem Effect.layout {res : Except Fault (Instruction × Step)} (h : Effect handler s res t) :
    t.cpu.layout = s.cpu.layout := by
  cases h <;> rfl

/-! ### The privilege level -/

/-- The processor works at the level of programs. -/
def AtUserLevel (s : Machine τ) : Prop := s.cpu.registers.privilege = .user

/-- What the processor does without changing `steady` leaves the privilege level. -/
theorem keeps_onCpu {α : Type} {x : Action Cpu α} (h : ∀ g, Keeps (·.registers.steady = g) x) :
    Keeps AtUserLevel (onCpu x : Action (Machine τ) α) := by
  intro s hs
  have hsteady : (exec x s.cpu).2.registers.steady = s.cpu.registers.steady := h _ s.cpu rfl
  have hlevel : (exec x s.cpu).2.registers.privilege = s.cpu.registers.privilege :=
    congrArg (fun g => g.2.1) hsteady
  exact hlevel.trans hs

/-- A change of registers that leaves the privilege level keeps `AtUserLevel`. -/
theorem keeps_modifyRegisters {f : Registers → Registers}
    (h : ∀ r, (f r).privilege = r.privilege) :
    Keeps AtUserLevel (modifyRegisters f : Action (Machine τ) Unit) := fun s hs =>
  (h s.cpu.registers).trans hs

theorem keeps_store (location : Location) (w : Word) :
    Keeps AtUserLevel (store location w : Action (Machine τ) Unit) := by
  cases location with
  | register r => exact keeps_modifyRegisters fun _ => rfl
  | memory a => exact keeps_modify fun _ h => h
  | program => exact keeps_throw _

/-- What the parts of an instruction keep, the instruction keeps, unless it is a system call: `P`
    need only be kept by what leaves `steady` alone, by changes of registers, and by stores. -/
theorem keeps_execute_of {P : Machine τ → Prop} (hcpu : ∀ {α : Type} {x : Action Cpu α},
      (∀ g, Keeps (·.registers.steady = g) x) → Keeps P (onCpu x))
    (hregisters : ∀ {f : Registers → Registers},
      (∀ r, (f r).privilege = r.privilege ∧ (f r).clock = r.clock) → Keeps P (modifyRegisters f))
    (hstore : ∀ location w, Keeps P (store location w))
    (handler : TrapHandler τ) {i : Instruction} (hi : i.opcode ≠ .systemCall) :
    Keeps P (execute handler i) := by
  -- Both ways of finding a word of the instruction are computations of the processor.
  have hoperand : ∀ spec, Keeps P (operand spec) := fun spec =>
    keeps_get.bind fun s => hcpu fun _ => Cpu.keeps_operand s.memory spec
  have hword : Keeps P nextWord := keeps_get.bind fun s => hcpu fun _ => Cpu.keeps_nextWord s.memory
  obtain ⟨opcode, first, second⟩ := i
  cases opcode with
  | halt => exact keeps_pure _
  | add | subtract | multiply | divide | move =>
    exact (hoperand first).bind fun _ => (hoperand second).bind fun _ =>
      (keeps_ofExcept _).bind fun _ => (hstore _ _).bind fun _ => keeps_pure _
  | branch =>
    exact hword.bind fun _ => (hregisters (by exact fun _ => ⟨rfl, rfl⟩)).bind fun _ => keeps_pure _
  | branchOnMinus | branchOnPlus | branchOnZero =>
    refine (hoperand first).bind fun _ => hword.bind fun _ => ?_
    split
    · exact (hregisters (by exact fun _ => ⟨rfl, rfl⟩)).bind fun _ => keeps_pure _
    · exact keeps_pure _
  | push =>
    refine (hoperand first).bind fun source => keeps_get.bind fun s => ?_
    have hpush : ∀ sp, Keeps P (do
        let a ← Action.ofExcept (s.cpu.reachable sp)
        store (.memory a) source.value
        modifyRegisters fun r => { r with sp }
        return Step.proceed) := fun sp =>
      (keeps_ofExcept _).bind fun _ => (hstore _ _).bind fun _ =>
        (hregisters (by exact fun _ => ⟨rfl, rfl⟩)).bind fun _ => keeps_pure _
    dsimp only
    split
    · split
      · exact (keeps_throw _).bind fun _ => hpush _
      · exact hpush _
    · exact hpush _
  | pop =>
    refine (hoperand first).bind fun target => keeps_get.bind fun s => ?_
    have hpop : ∀ sp : Word, Keeps P (do
        let a ← Action.ofExcept (s.cpu.reachable sp)
        store target.location (s.memory.read a)
        modifyRegisters fun r => { r with sp := sp - 1 }
        return Step.proceed) := fun sp =>
      (keeps_ofExcept _).bind fun _ => (hstore _ _).bind fun _ =>
        (hregisters (by exact fun _ => ⟨rfl, rfl⟩)).bind fun _ => keeps_pure _
    dsimp only
    split
    · split
      · exact (keeps_throw _).bind fun _ => hpop _
      · exact hpop _
    · exact hpop _
  | systemCall => exact absurd rfl hi

/-- **Privilege.**  Between instructions a program has the privilege level of programs,
    `AtUserLevel`, however its instructions end. -/
theorem keeps_execute (handler : TrapHandler τ) (i : Instruction) :
    Keeps AtUserLevel (execute handler i) := by
  by_cases hi : i.opcode = .systemCall
  · obtain ⟨opcode, first, second⟩ := i
    obtain rfl := hi
    refine (keeps_get.bind fun s => keeps_onCpu fun _ => Cpu.keeps_operand s.memory first).bind
      fun call => keeps_get.bind fun _ => (keeps_note _).bind fun _ => ?_
    -- The level is that of the kernel during the call, and set back whatever the handler has done.
    intro s _
    rw [exec_bind_ok (exec_modifyRegisters _ s), exec_bind_ok (exec_observe _ _),
      exec_bind_ok (exec_modifyRegisters _ _)]
    refine Keeps.bind (keeps_ofExcept _) (fun outcome => ?_) _ rfl
    cases outcome <;> exact keeps_pure _
  · exact keeps_execute_of keeps_onCpu (fun h => keeps_modifyRegisters fun r => (h r).1) keeps_store
      handler hi

/-- A step keeps `AtUserLevel`, however it ends. -/
theorem keeps_step (handler : TrapHandler τ) :
    Keeps AtUserLevel (step handler) :=
  keeps_get.bind fun s => (keeps_onCpu fun _ => Cpu.keeps_fetch s.memory).bind fun i =>
    keeps_get.bind fun _ => (keeps_note _).bind fun _ =>
      (keeps_execute handler i).bind fun _ => keeps_pure _

/-! ### The clock -/

/-- **Time.**  A step leaves the clock alone, as long as the trap handler does; the clock goes on
    when the instruction is charged for. -/
theorem keeps_clock_step {time : UInt64}
    (hhandler : ∀ number, Keeps (·.registers.clock = time) (handler number)) :
    Keeps (·.cpu.registers.clock = time) (step handler) := by
  -- The clock is one of the steady registers, which finding operands leaves alone.
  have hcpu : ∀ {α : Type} {x : Action Cpu α}, (∀ g, Keeps (·.registers.steady = g) x) →
      Keeps (·.cpu.registers.clock = time) (onCpu x : Action (Machine τ) α) := fun h s hs =>
    (congrArg (fun g => g.2.2) (h _ s.cpu rfl)).trans hs
  have hregisters : ∀ {f : Registers → Registers}, (∀ r, (f r).clock = r.clock) →
      Keeps (·.cpu.registers.clock = time) (modifyRegisters f : Action (Machine τ) Unit) := fun h s hs =>
    (h s.cpu.registers).trans hs
  have hstore : ∀ location w,
      Keeps (·.cpu.registers.clock = time) (store location w : Action (Machine τ) Unit) := fun location w => by
    cases location with
    | register r => exact hregisters fun _ => rfl
    | memory a => exact keeps_modify fun _ h => h
    | program => exact keeps_throw _
  refine keeps_get.bind fun s => (hcpu fun _ => Cpu.keeps_fetch s.memory).bind fun i =>
    keeps_get.bind fun _ => (keeps_note _).bind fun _ => Keeps.bind ?_ fun _ => keeps_pure _
  by_cases hi : i.opcode = .systemCall
  · obtain ⟨opcode, first, second⟩ := i
    obtain rfl := hi
    refine (keeps_get.bind fun s => hcpu fun _ => Cpu.keeps_operand s.memory first).bind fun call =>
      keeps_get.bind fun _ => (keeps_note _).bind fun _ => (hregisters (by exact fun _ => rfl)).bind
        fun _ => Keeps.bind ?_ fun outcome => (hregisters (by exact fun _ => rfl)).bind fun _ =>
          (keeps_ofExcept _).bind fun next => ?_
    -- The handler runs on the part of the machine that has the clock.
    · exact fun s hs => hhandler call.value ⟨s.cpu.registers, s.memory, s.host⟩ hs
    · cases next <;> exact keeps_pure _
  · exact keeps_execute_of hcpu (fun h => hregisters fun r => (h r).2) hstore handler hi

/-! ### What a program waits for -/

/-- A program waits for nothing but what its trap handler makes it wait for. -/
def Waits (B : Status → Prop) (next : Step) : Prop := ∀ status, next = .block status → B status

theorem waits_proceed {B : Status → Prop} : Waits B .proceed := fun _ h => absurd h (by simp)

/-- Only a system call lets a program wait: all other instructions return no `Step.block`. -/
theorem returns_execute_of {i : Instruction} (handler : TrapHandler τ) (hi : i.opcode ≠ .systemCall) :
    Returns (Waits fun _ => False) (execute handler i) := by
  obtain ⟨opcode, first, second⟩ := i
  cases opcode with
  | halt => exact returns_pure fun _ h => absurd h (by simp)
  | add | subtract | multiply | divide | move =>
    exact .after fun _ => .after fun _ => .after fun _ => .after fun _ => returns_pure waits_proceed
  | branch => exact .after fun _ => .after fun _ => returns_pure waits_proceed
  | branchOnMinus | branchOnPlus | branchOnZero =>
    refine .after fun _ => .after fun _ => ?_
    split
    · exact .after fun _ => returns_pure waits_proceed
    · exact returns_pure waits_proceed
  | push | pop =>
    refine .after fun _ => .after fun _ => ?_
    dsimp only
    split
    · split
      · exact .after fun _ => .after fun _ => .after fun _ => .after fun _ => returns_pure waits_proceed
      · exact .after fun _ => .after fun _ => .after fun _ => returns_pure waits_proceed
    · exact .after fun _ => .after fun _ => .after fun _ => returns_pure waits_proceed
  | systemCall => exact absurd rfl hi

/-- An instruction waits only for what its trap handler lets the program wait for: the statuses in
    `B`. -/
theorem returns_execute {B : Status → Prop}
    (hhandler : ∀ call, Returns (fun o => ∀ status, o = .block status → B status) (handler call))
    (i : Instruction) : Returns (Waits B) (execute handler i) := by
  by_cases hi : i.opcode = .systemCall
  · rw [execute, hi]
    refine .after fun call => .after fun _ => .after fun _ => .after fun _ => ?_
    -- What the program waits for is what the handler says.
    refine (returns_zoom (hhandler call.value)).observe.bind fun outcome hwaits => .after fun _ => ?_
    refine (returns_ofExcept hwaits).bind fun o ho => ?_
    cases o with
    | proceed => exact returns_pure waits_proceed
    | block status =>
      exact returns_pure fun status' h => ho status' (congrArg TrapOutcome.block (Step.block.inj h))
  · exact fun s next t h status hstatus => (returns_execute_of handler hi s next t h status hstatus).elim

/-- A step waits only for what its trap handler lets the program wait for: the statuses in `B`. -/
theorem returns_step {B : Status → Prop}
    (hhandler : ∀ call, Returns (fun o => ∀ status, o = .block status → B status) (handler call)) :
    Returns (fun x => Waits B x.2) (step handler) :=
  .after fun _ => .after fun i => .after fun _ => .after fun _ =>
    (returns_execute hhandler i).bind fun _ h => returns_pure h

end Machine

end Timeshare
