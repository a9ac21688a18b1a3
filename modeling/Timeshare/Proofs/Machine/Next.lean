import Timeshare.Proofs.Machine.Step

namespace Timeshare

/-!
# The next instruction

A step fetches an instruction, and then finds its operands.  Up to there it has changed nothing but
registers.  For the instructions that do more than compute (a push, a pop, a system call) this file says
what becomes of the step once the operand is found, and for all others what they leave alone.

* `Machine.Still s t` — from the machine `s` to `t` nothing has changed but registers, and none of the
  `Registers.steady` ones.
* `Machine.next? s` — the instruction that the next step executes, with its first operand and the
  machine that has found it.
* `Machine.step_push`, `Machine.step_pop`, `Machine.step_call` — the rest of such a step, written out.
* `Machine.call? s` — the system call that the next step makes.
* `Machine.Plain s res t`, `Machine.step_cases` — every other step.
-/

/-- Operations that neither use the stack nor call the operating system. -/
def Opcode.isPlain : Opcode → Bool
  | .push | .pop | .systemCall => false
  | _ => true

/-- How a step goes on after a system call. -/
def TrapOutcome.step : TrapOutcome → Step
  | .proceed => .proceed
  | .block status => .block status

namespace Machine

open Timeshare.Action

variable {τ : Type} {handler : TrapHandler τ} {s t u : Machine τ} {i : Instruction} {o : Operand}

/-! ### Finding operands -/

/-- Nothing has changed from `s` to `t` but registers, and none of the `Registers.steady` ones: what
    is left are the general registers and `pc`, which serve to find the words of an instruction. -/
structure Still (s t : Machine τ) : Prop where
  rest : SameRest s t
  steady : t.cpu.registers.steady = s.cpu.registers.steady

@[refl] theorem Still.refl (s : Machine τ) : Still s s := ⟨SameRest.refl s, rfl⟩

/-- From `Still s t` and `Still t u` follows `Still s u`, so that the parts of a step can be put
    together. -/
theorem Still.trans (h : Still s t) (h' : Still t u) : Still s u :=
  ⟨h.rest.trans h'.rest, h'.steady.trans h.steady⟩

/-- Finding words leaves the stack pointer: `sp` is one of the steady registers. -/
theorem Still.sp (h : Still s t) : t.cpu.registers.sp = s.cpu.registers.sp :=
  congrArg (fun g => g.1) h.steady

/-- Finding words leaves `cpu.layout`. -/
theorem Still.layout (h : Still s t) : t.cpu.layout = s.cpu.layout := h.rest.layout

/-- Finding words leaves the bounds of the stack. -/
theorem Still.stack (h : Still s t) : t.cpu.stack = s.cpu.stack := by
  obtain ⟨⟨r, rfl⟩, -⟩ := h
  rfl

/-- Finding words writes nothing: `t.memory = s.memory`. -/
theorem Still.memory (h : Still s t) : t.memory = s.memory := by
  obtain ⟨⟨r, rfl⟩, -⟩ := h
  rfl

/-- Finding words leaves what the trap handler keeps: `t.host = s.host`. -/
theorem Still.host (h : Still s t) : t.host = s.host := by
  obtain ⟨⟨r, rfl⟩, -⟩ := h
  rfl

/-- An action of the processor that keeps each value of `registers.steady` keeps it as a part of the
    machine: `(exec (onCpu x) s).2.cpu.registers.steady = s.cpu.registers.steady`. -/
theorem steady_onCpu {α : Type} {x : Action Cpu α} (h : ∀ g, Keeps (·.registers.steady = g) x)
    (s : Machine τ) : (exec (onCpu x) s).2.cpu.registers.steady = s.cpu.registers.steady :=
  h _ s.cpu rfl

/-- A fetch, whether it succeeds or not, ends with `Still s t`. -/
theorem fetch_still (s : Machine τ) :
    Ends (onCpu (Cpu.fetch s.memory)) s (fun _ t => Still s t) (fun _ t => Still s t) := by
  have hrest : Ends (onCpu (Cpu.fetch s.memory)) s (fun _ t => SameRest s t)
      (fun _ t => SameRest s t) := by
    rw [onCpu, ends_zoom]
    refine Cpu.fetch_ends.mono ?_ ?_
    · rintro i c ⟨r, rfl⟩
      exact ⟨r, rfl⟩
    · rintro e c ⟨r, rfl⟩
      exact ⟨r, rfl⟩
  exact (hrest.and_state (steady_onCpu (fun _ => Cpu.keeps_fetch s.memory) s)).mono
    (fun _ _ h => ⟨h.1, h.2⟩) fun _ _ h => ⟨h.1, h.2⟩

/-- Reading the word behind the instruction, whether it succeeds or not, ends with `Still s t`. -/
theorem nextWord_still :
    Ends (nextWord : Action (Machine τ) Word) s (fun _ t => Still s t) (fun _ t => Still s t) := by
  have hsteady := steady_onCpu (fun _ => Cpu.keeps_nextWord s.memory) s
  exact (nextWord_ends.and_state hsteady).mono (fun _ _ h => ⟨h.1, h.2⟩) fun _ _ h => ⟨h.1, h.2⟩

/-- Finding an operand, whether it succeeds or not, ends with `Still s t`; an operand that was found
    is `Cpu.Reached`, so that one in memory lies in the range of operands. -/
theorem operand_still (hL : s.cpu.layout.Valid) (spec : OperandSpec) :
    Ends (operand spec) s (fun o t => Cpu.Reached s.cpu.layout o ∧ Still s t)
      (fun _ t => Still s t) := by
  have hsteady := steady_onCpu (fun _ => Cpu.keeps_operand s.memory spec) s
  exact ((operand_ends hL spec).and_state hsteady).mono (fun _ _ h => ⟨h.1.1, h.1.2, h.2⟩)
    fun _ _ h => ⟨h.1, h.2⟩

/-! ### The next instruction -/

/-- Fetches an instruction and finds its first operand. -/
def locate : Action (Machine τ) (Instruction × Operand) := do
  let s ← get
  let i ← onCpu (Cpu.fetch s.memory)
  let o ← operand i.first
  return (i, o)

/-- The instruction `i` that the next step executes, with its first operand `o` and the machine `u`
    that has found it: `some (i, o, u)`.  It is `none` if the fetch or the operand is a fault. -/
def next? (s : Machine τ) : Option (Instruction × Operand × Machine τ) :=
  match exec locate s with
  | (.ok (i, o), u) => some (i, o, u)
  | (.error _, _) => none

/-- That `next? s = some (i, o, u)` says that a fetch from `s` gives `i` and some `t`, and that from
    `t` the operand `i.first` is found as `o` with the machine `u`. -/
theorem next?_eq_some_iff : s.next? = some (i, o, u) ↔
    ∃ t, exec (onCpu (Cpu.fetch s.memory)) s = (.ok i, t) ∧ exec (operand i.first) t = (.ok o, u) := by
  have hlocate : s.next? = some (i, o, u) ↔ exec locate s = (.ok (i, o), u) := by
    unfold next?
    rcases exec locate s with ⟨e | ⟨j, p⟩, v⟩
    · simp
    · simp [and_assoc]
  rw [hlocate, locate, exec_bind_ok (exec_get s), exec_bind_eq_ok_iff]
  constructor
  · rintro ⟨j, t, hfetch, h⟩
    obtain ⟨p, v, hoperand, h⟩ := exec_bind_eq_ok_iff.mp h
    cases h
    exact ⟨t, hfetch, hoperand⟩
  · rintro ⟨t, hfetch, hoperand⟩
    exact ⟨i, t, hfetch, exec_bind_eq_ok_iff.mpr ⟨o, u, hoperand, rfl⟩⟩

/-- Where `next? s = some (i, o, u)`, nothing but registers has changed (`Still s u`), and an
    operand in memory is where a program may reach. -/
theorem next?_still (hL : s.cpu.layout.Valid) (h : s.next? = some (i, o, u)) :
    Cpu.Reached s.cpu.layout o ∧ Still s u := by
  obtain ⟨t, hfetch, hoperand⟩ := next?_eq_some_iff.mp h
  have ht : Still s t := (ends_of_ok hfetch).mp (fetch_still s)
  obtain ⟨ho, hu⟩ := (ends_of_ok hoperand).mp (operand_still (ht.layout ▸ hL) i.first)
  exact ⟨ht.layout ▸ ho, ht.trans hu⟩

/-- A step is a fetch and the execution of what was fetched: where the fetch gives `i` and `t`,
    `step` from `s` is `execute handler i` from `t` with `i` put before the result. -/
theorem exec_step_ok (hfetch : exec (onCpu (Cpu.fetch s.memory)) s = (.ok i, t)) :
    exec (step handler) s = exec (execute handler i >>= fun next => pure (i, next)) t := by
  rw [step, exec_bind_ok (exec_get s), exec_bind_ok hfetch, exec_bind_ok (exec_get t),
    exec_bind_ok (exec_note _ t)]

/-- A step whose fetch is a fault `e` ends with `e`, in the state `t` that the fetch has left. -/
theorem exec_step_error {e : Fault} (hfetch : exec (onCpu (Cpu.fetch s.memory)) s = (.error e, t)) :
    exec (step handler) s = (.error e, t) := by
  rw [step, exec_bind_ok (exec_get s), exec_bind_error hfetch]

/-! ### The rest of the step -/

/-- The machine with another stack pointer. -/
def withSp (s : Machine τ) (sp : Word) : Machine τ :=
  s.withRegisters { s.cpu.registers with sp }

/-- **A push.**  It is `stackOverflow` where `sp + 1` exceeds the limit `b.limit`; otherwise the
    value `o.value` is written to `sp + 1`, which becomes the stack pointer, unless that word is out
    of reach. -/
theorem step_push (h : s.next? = some (i, o, u)) (hi : i.opcode = .push) {b : StackBounds}
    (hb : u.cpu.stack = some b) :
    exec (step handler) s =
      if b.limit < u.cpu.registers.sp + 1 then (.error .stackOverflow, u)
      else
        match u.cpu.reachable (u.cpu.registers.sp + 1) with
        | .ok a => (.ok (i, .proceed),
            withSp { u with memory := u.memory.write a o.value } (u.cpu.registers.sp + 1))
        | .error e => (.error e, u) := by
  obtain ⟨t, hfetch, hoperand⟩ := next?_eq_some_iff.mp h
  rw [exec_step_ok hfetch]
  simp only [execute, hi, exec_bind, hoperand, exec_get, hb]
  by_cases hfull : b.limit < u.cpu.registers.sp + 1
  · simp only [hfull, if_true, exec_bind, exec_throw]
  · simp only [hfull, if_false, exec_bind, exec_ofExcept]
    cases u.cpu.reachable (u.cpu.registers.sp + 1) with
    | ok a => rfl
    | error e => rfl

/-- The rest of a pop: a word goes where the operand was found, and the stack pointer gets its new
    value. -/
def takeOff (i : Instruction) (location : Location) (w sp : Word) :
    Action (Machine τ) (Instruction × Step) := do
  store location w
  modifyRegisters fun r => { r with sp }
  return (i, .proceed)

/-- **A pop.**  It is `stackUnderflow` where `sp` is below `b.base`; otherwise the word at `sp` goes
    to `o.location` and `sp - 1` becomes the stack pointer (`takeOff`), unless that word is out of
    reach. -/
theorem step_pop (h : s.next? = some (i, o, u)) (hi : i.opcode = .pop) {b : StackBounds}
    (hb : u.cpu.stack = some b) :
    exec (step handler) s =
      if u.cpu.registers.sp < b.base then (.error .stackUnderflow, u)
      else
        match u.cpu.reachable u.cpu.registers.sp with
        | .ok a => exec (takeOff i o.location (u.memory.read a) (u.cpu.registers.sp - 1)) u
        | .error e => (.error e, u) := by
  obtain ⟨t, hfetch, hoperand⟩ := next?_eq_some_iff.mp h
  rw [exec_step_ok hfetch]
  simp only [execute, hi, exec_bind, hoperand, exec_get, hb]
  -- Underflow is checked first; only then is the word at the stack pointer looked for.
  by_cases hempty : u.cpu.registers.sp < b.base
  · simp only [hempty, if_true, exec_bind, exec_throw]
  · simp only [hempty, if_false, exec_bind, exec_ofExcept]
    cases u.cpu.reachable u.cpu.registers.sp with
    | ok a =>
      simp only [takeOff, exec_bind]
      rcases exec (store o.location (u.memory.read a)) u with ⟨e | x, v⟩
      · rfl
      · rfl
    | error e => rfl

/-- What a trap handler works on: the registers at the privilege `.os`, the memory and what the host
    keeps. -/
def environment (u : Machine τ) : TrapState τ :=
  ⟨{ u.cpu.registers with privilege := .os }, u.memory, u.host⟩

/-- The machine that goes on after a trap handler has left its environment as `t`: its registers at
    the privilege `.user`, its memory and its host. -/
def resume (u : Machine τ) (t : TrapState τ) : Machine τ :=
  { u.withRegisters { t.registers with privilege := .user } with memory := t.memory, host := t.host }

/-- **A system call.**  The rest of the step is what the trap handler does: `handler o.value` runs
    on `u.environment`, its result is the step's, and what it leaves is put back by `u.resume`. -/
theorem step_call (handler : TrapHandler τ) (h : s.next? = some (i, o, u)) (hi : i.opcode = .systemCall) :
    exec (step handler) s =
      ((exec (handler o.value) u.environment).1.map fun x => (i, x.step),
        u.resume (exec (handler o.value) u.environment).2) := by
  obtain ⟨t, hfetch, hoperand⟩ := next?_eq_some_iff.mp h
  -- The handler runs with the privilege of the system, which is put back afterwards.
  have htrap : exec (trap handler o.value)
      (u.withRegisters { u.cpu.registers with privilege := .os })
      = ((exec (handler o.value) u.environment).1,
        { u.withRegisters (exec (handler o.value) u.environment).2.registers with
          memory := (exec (handler o.value) u.environment).2.memory
          host := (exec (handler o.value) u.environment).2.host }) := by
    rw [trap, exec_zoom]
    rfl
  rw [exec_step_ok hfetch]
  simp only [execute, hi, exec_bind, hoperand, exec_get, exec_note, exec_modifyRegisters,
    exec_observe, htrap, exec_ofExcept]
  cases (exec (handler o.value) u.environment).1 with
  | ok outcome =>
    cases outcome with
    | proceed => rfl
    | block status => rfl
  | error e => rfl

/-- The system call that the next step makes: `some (o.value, u.environment)`, its number with what
    the trap handler works on, or `none` if the next instruction is no system call. -/
def call? (s : Machine τ) : Option (Word × TrapState τ) :=
  match s.next? with
  | some (i, o, u) => if i.opcode = .systemCall then some (o.value, u.environment) else none
  | none => none

/-- That `s.call? = some (number, env)` says that `s.next? = some (i, o, u)` for a system call `i`
    with `o.value = number` and `u.environment = env`. -/
theorem call?_eq_some_iff {number : Word} {env : TrapState τ} : s.call? = some (number, env) ↔
    ∃ i o u, s.next? = some (i, o, u) ∧ i.opcode = .systemCall ∧ o.value = number
      ∧ u.environment = env := by
  unfold call?
  rcases hnext : s.next? with _ | ⟨i, o, u⟩
  · simp
  · by_cases hi : i.opcode = .systemCall
    · simp only [hi, if_true, Option.some.injEq, Prod.mk.injEq]
      constructor
      · rintro ⟨rfl, rfl⟩
        exact ⟨i, o, u, ⟨rfl, rfl, rfl⟩, hi, rfl, rfl⟩
      · rintro ⟨_, _, _, ⟨rfl, rfl, rfl⟩, -, rfl, rfl⟩
        exact ⟨rfl, rfl⟩
    · simp only [hi, if_false, Option.some.injEq, Prod.mk.injEq, reduceCtorEq, false_iff]
      rintro ⟨_, _, _, ⟨rfl, rfl, rfl⟩, hi', -⟩
      exact hi hi'

/-! ### All other steps -/

/-- A step of an instruction that neither uses the stack nor calls the operating system, or one that
    fails before it does: the steady registers stay, and at most one word of memory changes. -/
structure Plain (s : Machine τ) (res : Except Fault (Instruction × Step)) (t : Machine τ) : Prop where
  steady : t.cpu.registers.steady = s.cpu.registers.steady
  change : SameRest s t ∨ ∃ r a w, a ∈ s.cpu.layout.operandRange
    ∧ t = { s.withRegisters r with memory := s.memory.write a w }
  isPlain : ∀ i next, res = .ok (i, next) → i.opcode.isPlain = true ∧ ∀ status, next ≠ .block status

/-- A step that fails while it looks for words is a plain one. -/
theorem Still.plain (h : Still s t) {e : Fault} : Plain s (.error e) t :=
  ⟨h.steady, .inl h.rest, fun _ _ h => by simp at h⟩

/-- A plain step leaves the stack pointer. -/
theorem Plain.sp {res : Except Fault (Instruction × Step)} (h : Plain s res t) :
    t.cpu.registers.sp = s.cpu.registers.sp := congrArg (fun g => g.1) h.steady

/-- An instruction with `i.opcode.isPlain` executed from the machine `s` that has fetched it makes a
    `Plain` step, whether it succeeds or fails. -/
theorem execute_plain (handler : TrapHandler τ) (hL : s.cpu.layout.Valid) (hi : i.opcode.isPlain = true) :
    Ends (execute handler i) s (fun next t => Plain s (.ok (i, next)) t)
      (fun e t => Plain s (.error e) t) := by
  have hok : ∀ {next t}, t.cpu.registers.steady = s.cpu.registers.steady → SameRest s t →
      (∀ status, next ≠ .block status) → Plain s (.ok (i, next)) t := by
    intro next t hsteady hrest hnext
    refine ⟨hsteady, .inl hrest, fun j next' h => ?_⟩
    obtain ⟨rfl, rfl⟩ := Prod.mk.inj (Except.ok.inj h)
    exact ⟨hi, hnext⟩
  obtain ⟨opcode, first, second⟩ := i
  cases opcode with
  | halt => exact hok rfl (SameRest.refl s) (by simp)
  | add | subtract | multiply | divide | move =>
    simp only [execute, ends_bind, ends_pure]
    refine (operand_still hL first).mono ?_ fun e t ht => ht.plain
    rintro target t ⟨htarget, ht⟩
    refine (operand_still (ht.layout ▸ hL) second).mono ?_ fun e u hu => (ht.trans hu).plain
    rintro source u ⟨-, hu⟩
    have hsu := ht.trans hu
    rw [ends_ofExcept]
    refine ⟨fun result _ => ?_, fun e _ => hsu.plain⟩
    -- The result goes to a register or to one word of memory.
    have hfail : ∀ e, Plain s (.error e) u := fun e => hsu.plain
    obtain ⟨⟨r, rfl⟩, hsteady⟩ := hsu
    obtain ⟨location, value⟩ := target
    cases location with
    | register j => exact hok hsteady ⟨_, rfl⟩ (by simp)
    | memory a =>
      refine ⟨hsteady, .inr ⟨r, a, result, htarget a rfl, rfl⟩, fun j next h => ?_⟩
      obtain ⟨rfl, rfl⟩ := Prod.mk.inj (Except.ok.inj h)
      exact ⟨rfl, by simp⟩
    | program => exact hfail _
  | branch =>
    simp only [execute, ends_bind, ends_pure]
    refine nextWord_still.mono (fun target t ht => ?_) fun e t ht => ht.plain
    exact hok ht.steady (ht.rest.trans (sameRest_withRegisters t _)) (by simp)
  | branchOnMinus | branchOnPlus | branchOnZero =>
    simp only [execute, ends_bind]
    refine (operand_still hL first).mono ?_ fun e t ht => ht.plain
    rintro condition t ⟨-, ht⟩
    refine nextWord_still.mono (fun target u hu => ?_) fun e u hu => (ht.trans hu).plain
    have hsu := ht.trans hu
    split
    · exact hok hsu.steady (hsu.rest.trans (sameRest_withRegisters u _)) (by simp)
    · exact hok hsu.steady hsu.rest (by simp)
  | push | pop | systemCall => exact absurd hi (by simp [Opcode.isPlain])

/-- A push, a pop or a system call whose operand is the fault `e` ends with `e` and does nothing
    more. -/
theorem exec_execute_error {e : Fault} (hi : i.opcode.isPlain = false)
    (hoperand : exec (operand i.first) s = (.error e, t)) :
    exec (execute handler i) s = (.error e, t) := by
  obtain ⟨opcode, first, second⟩ := i
  cases opcode with
  | push | pop | systemCall => exact exec_bind_error hoperand
  | halt | add | subtract | multiply | divide | move | branch | branchOnMinus | branchOnPlus
  | branchOnZero => exact absurd hi (by simp [Opcode.isPlain])

/-- **Every step** is a push, a pop or a system call whose operand was found
    (`s.next? = some (i, o, u)` with `i.opcode.isPlain = false`), or a `Plain` one.  Which it is
    does not depend on the trap handler. -/
theorem step_cases (handler : TrapHandler τ) (hL : s.cpu.layout.Valid) :
    (∃ i o u, s.next? = some (i, o, u) ∧ i.opcode.isPlain = false) ∨
      Plain s (exec (step handler) s).1 (exec (step handler) s).2 := by
  -- A fetch that fails is plain; one that succeeds goes by the instruction that it gives.
  have hfetched := fetch_still s
  rcases hfetch : exec (onCpu (Cpu.fetch s.memory)) s with ⟨e | i, t⟩
  · rw [ends_of_error hfetch] at hfetched
    rw [exec_step_error hfetch]
    exact .inr hfetched.plain
  rw [ends_of_ok hfetch] at hfetched
  cases hi : i.opcode.isPlain with
  | true =>
    right
    -- What is plain after the fetch is plain from `s` on: the two changes of registers are one.
    have hplain : ∀ {res u}, Plain t res u → Plain s res u := fun h =>
      ⟨h.steady.trans hfetched.steady, by
        obtain ⟨r, rfl⟩ := hfetched.rest
        rcases h.change with ⟨r', rfl⟩ | ⟨r', a, w, ha, rfl⟩
        · exact .inl ⟨r', rfl⟩
        · exact .inr ⟨r', a, w, ha, rfl⟩, h.isPlain⟩
    have hexecuted := execute_plain handler (hfetched.layout ▸ hL) hi
    rcases hexec : exec (execute handler i) t with ⟨e | next, u⟩
    · rw [ends_of_error hexec] at hexecuted
      rw [exec_step_ok hfetch, exec_bind_error hexec]
      exact hplain hexecuted
    · rw [ends_of_ok hexec] at hexecuted
      rw [exec_step_ok hfetch, exec_bind_ok hexec, exec_pure]
      exact hplain hexecuted
  | false =>
    have hfound := operand_still (hfetched.layout ▸ hL) i.first
    rcases hoperand : exec (operand i.first) t with ⟨e | o, u⟩
    · rw [ends_of_error hoperand] at hfound
      rw [exec_step_ok hfetch, exec_bind_error (exec_execute_error hi hoperand)]
      exact .inr (hfetched.trans hfound).plain
    · exact .inl ⟨i, o, u, next?_eq_some_iff.mpr ⟨t, hfetch, hoperand⟩, hi⟩

/-- **A step that lets the program wait** is a system call, and the trap handler has said so:
    `s.call? = some (number, env)` and `handler number` gives `.block status` on `env`. -/
theorem call_of_block {status : Status} (h : exec (step handler) s = (.ok (i, .block status), t)) :
    ∃ number env, s.call? = some (number, env)
      ∧ (exec (handler number) env).1 = .ok (.block status) := by
  rcases hfetch : exec (onCpu (Cpu.fetch s.memory)) s with ⟨e | j, u⟩
  · rw [exec_step_error hfetch] at h
    exact absurd h (by simp)
  have hexecute := h
  rw [exec_step_ok hfetch] at hexecute
  obtain ⟨next, v, hnext, hpure⟩ := exec_bind_eq_ok_iff.mp hexecute
  obtain ⟨hres, rfl⟩ := Prod.mk.inj hpure
  obtain ⟨rfl, rfl⟩ := Prod.mk.inj (Except.ok.inj hres)
  -- No other operation gives `.block`.
  have hj : j.opcode = .systemCall := by
    by_contra hne
    exact returns_execute_of handler hne _ _ _ hnext _ rfl
  rcases hoperand : exec (operand j.first) u with ⟨e | o, w⟩
  · rw [exec_execute_error (by rw [hj]; rfl) hoperand] at hnext
    exact absurd hnext (by simp)
  have hfound : s.next? = some (j, o, w) := next?_eq_some_iff.mpr ⟨u, hfetch, hoperand⟩
  refine ⟨o.value, w.environment, call?_eq_some_iff.mpr ⟨j, o, w, hfound, hj, rfl, rfl⟩, ?_⟩
  have hcall := congrArg Prod.fst (h.symm.trans (step_call handler hfound hj))
  rcases houtcome : (exec (handler o.value) w.environment).1 with e | x <;> rw [houtcome] at hcall
  · exact absurd hcall (by simp [Except.map])
  · cases x with
    | proceed => exact absurd hcall (by simp [Except.map, TrapOutcome.step])
    | block status' =>
      simp only [Except.map, TrapOutcome.step, Except.ok.injEq, Prod.mk.injEq, Step.block.injEq] at hcall
      rw [hcall.2]

/-- Only a system call changes what its trap handler keeps: `s.call? = none` gives the `host` of `s`
    after the step, whether it succeeds or fails. -/
theorem host_of_call?_none (h : s.call? = none) : (exec (step handler) s).2.host = s.host := by
  -- Neither the processor nor a store touches what the handler keeps.
  have hcpu : ∀ {α : Type} (x : Action Cpu α), Keeps (fun t : Machine τ => t.host = s.host) (onCpu x) :=
    fun _ _ ht => ht
  have hstore : ∀ location w, Keeps (fun t : Machine τ => t.host = s.host) (store location w) := by
    intro location w
    cases location with
    | register r => exact hcpu _
    | memory a => exact keeps_modify fun _ ht => ht
    | program => exact keeps_throw _
  have hfetch : (exec (onCpu (Cpu.fetch s.memory)) s).2.host = s.host := hcpu _ s rfl
  rcases hexec : exec (onCpu (Cpu.fetch s.memory)) s with ⟨e | i, t⟩ <;> rw [hexec] at hfetch
  · rw [exec_step_error hexec]
    exact hfetch
  rw [exec_step_ok hexec]
  by_cases hi : i.opcode = .systemCall
  · -- The operand that tells the call is not found.
    have hoperand : (exec (operand i.first) t).2.host = s.host :=
      (keeps_get.bind fun _ => hcpu _) t hfetch
    rcases hres : exec (operand i.first) t with ⟨e | o, u⟩ <;> rw [hres] at hoperand
    · rw [exec_bind_error (exec_execute_error (by rw [hi]; rfl) hres)]
      exact hoperand
    · have hcall := call?_eq_some_iff.mpr
        ⟨i, o, u, next?_eq_some_iff.mpr ⟨t, hexec, hres⟩, hi, rfl, rfl⟩
      rw [h] at hcall
      exact absurd hcall (by simp)
  · exact (Keeps.bind (keeps_execute_of (fun _ => hcpu _) (fun _ => hcpu _) hstore handler hi)
      fun _ => keeps_pure _) t hfetch

end Machine

end Timeshare
