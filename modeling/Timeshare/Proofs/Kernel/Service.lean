import Timeshare.Kernel.Service
import Timeshare.Proofs.Machine.Run
import Timeshare.Proofs.Process.Record
import Timeshare.Proofs.Storage.Confinement

namespace Timeshare

/-!
# System services on any memory

What the services can do to memory when programs have written whatever they like into the user
pool.

* `Service.Confined s t` — the pool of the environment `t` covers the same region as that of `s`, and
  no word outside it has changed.
* `Service.handler_confined` — every service is confined, and none ends the program with a fault.
* `Service.returns_handler` — a service makes a program wait for input or output only.
* `Memory.Cloned l m₀ n₀ m n` — two memories agree on the range of operands, and their pools of
  process records are those of `m₀` and `n₀`.
* `Service.handler_alike` — every service answers alike on such memories, for processes with the
  same number, priority and state.
-/

namespace Service

open Timeshare.Action

variable {s t u : Env} {r q : Record}

/-! ### Confinement -/

/-- From `s` to `t`, nothing outside the region of the user pool has changed. -/
structure Confined (s t : Env) : Prop where
  region : t.host.region = s.host.region
  owner : t.host.owner = s.host.owner
  frame : Memory.SameOn (· ∉ s.host.region) s.memory t.memory

@[refl] theorem Confined.refl (s : Env) : Confined s s := ⟨rfl, rfl, Memory.SameOn.refl _ _⟩

/-- Registers may change after it. -/
theorem Confined.withRegisters (h : Confined s t) (r : Registers) :
    Confined s { t with registers := r } := ⟨h.region, h.owner, h.frame⟩

@[simp] theorem ends_reply {w : Word} {Q : Unit → Env → Prop} {E : Fault → Env → Prop} :
    Ends (TrapState.reply w) s Q E ↔ Q () { s with registers := s.registers.set .r0 w } := Iff.rfl

@[simp] theorem ends_setRegister {i : Register} {w : Word} {Q : Unit → Env → Prop}
    {E : Fault → Env → Prop} :
    Ends (setRegister i w) s Q E ↔ Q () { s with registers := s.registers.set i w } := Iff.rfl

/-- A pool operation that stays in the pool is `Confined`, and does not fail: what it ends with is a
    value for the service. -/
theorem onPool_confined {α : Type} {f : Pool → Memory → Attempt (α × Pool × Memory)}
    (h : ∀ a p m, (f s.host s.memory).outcome = .ok (a, p, m) → p.region = s.host.region
      ∧ p.owner = s.host.owner ∧ Memory.SameOn (· ∉ s.host.region) s.memory m) :
    Ends (onPool f) s (fun _ t => Confined s t) (fun _ _ => False) := by
  simp only [onPool, ends_observe, ends_bind, ends_get, ends_attempt, ends_set, ends_pure]
  refine ⟨?_, fun e _ => Confined.refl s⟩
  rintro ⟨a, p, m⟩ ha
  obtain ⟨hregion, howner, hframe⟩ := h a p m ha
  exact ⟨hregion, howner, hframe⟩

/-- **Memory for a program.**  `mem-alloc` is confined on any memory, and never ends the program
    with a fault. -/
theorem allocate_confined (hr : s.host.region.Fits) :
    Ends allocate s (fun _ t => Confined s t) (fun _ _ => False) := by
  simp only [allocate, ends_bind, ends_get]
  -- A request for less than one word is answered before the pool is looked at.
  split
  · simp only [ends_bind, ends_note, ends_reply, ends_pure]
    exact (Confined.refl s).withRegisters _
  · rw [ends_bind]
    refine (onPool_confined fun a p m h => (Pool.allocate_confined hr h).2).mono ?_ fun _ _ h => h
    intro x t ht
    cases x with
    | ok a =>
      simp only [ends_bind, ends_note, ends_setRegister, ends_reply, ends_pure]
      exact ht.withRegisters _
    | error e =>
      simp only [ends_bind, ends_setRegister, ends_reply, ends_pure]
      exact ht.withRegisters _

/-- **Memory from a program.**  `mem-free` is confined on any memory, whatever start and size the
    program gives. -/
theorem release_confined (hr : s.host.region.Fits) :
    Ends release s (fun _ t => Confined s t) (fun _ _ => False) := by
  simp only [release, ends_bind, ends_get]
  refine (onPool_confined fun a p m h => ?_).mono ?_ fun _ _ h => h
  · exact Pool.release_confined hr (Pool.map_release_eq_ok_iff.mp h)
  · intro x t ht
    cases x with
    | ok a =>
      simp only [ends_bind, ends_note, ends_reply, ends_pure]
      exact ht.withRegisters _
    | error e =>
      simp only [ends_bind, ends_reply, ends_pure]
      exact ht.withRegisters _

/-- **Services are confined.**  On any memory, a service changes no word outside the user pool, and
    it does not fail: `Confined s t` for whatever call. -/
theorem handler_confined (hr : s.host.region.Fits) (r : Record) (call : Word) :
    Ends (handler r call) s (fun _ t => Confined s t) (fun _ _ => False) := by
  have hsame : ∀ regs, Confined s { s with registers := regs } :=
    (Confined.refl s).withRegisters
  simp only [handler, ends_bind, ends_get, ends_note]
  split
  · simp only [inquire, ends_bind, ends_get, ends_setRegister, ends_reply, ends_pure]
    exact hsame _
  · exact allocate_confined hr
  · exact release_confined hr
  all_goals
    simp only [wait, ends_bind, ends_note, ends_reply, ends_pure]
    exact hsame _

/-- **Waits.**  A service makes a program wait for input or output only: `waitingForInput`,
    `waitingForOutput`. -/
theorem returns_handler (r : Record) (call : Word) :
    Returns (fun o => ∀ status, o = .block status →
      status = .waitingForInput ∨ status = .waitingForOutput) (handler r call) := by
  have hproceed : ∀ status, TrapOutcome.proceed = .block status →
      status = .waitingForInput ∨ status = .waitingForOutput := fun _ h => absurd h (by simp)
  refine .after fun _ => .after fun _ => ?_
  -- One case for each service; only the last two block.
  split
  · exact .after fun _ => .after fun _ => .after fun _ => .after fun _ => .after fun _ =>
      returns_pure hproceed
  · refine .after fun s => ?_
    dsimp only
    split
    · exact .after fun _ => .after fun _ => returns_pure hproceed
    · refine .after fun x => ?_
      split
      · exact .after fun _ => .after fun _ => .after fun _ => returns_pure hproceed
      · exact .after fun _ => .after fun _ => returns_pure hproceed
  · refine .after fun s => .after fun x => ?_
    split
    · exact .after fun _ => .after fun _ => returns_pure hproceed
    · exact .after fun _ => returns_pure hproceed
  · exact .after fun _ => returns_pure fun _ h => .inl (TrapOutcome.block.inj h).symm
  · exact .after fun _ => returns_pure fun _ h => .inr (TrapOutcome.block.inj h).symm
  all_goals exact .after fun _ => .after fun _ => returns_pure hproceed

/-- **Time.**  No service touches the clock. -/
theorem keeps_clock_handler {time : UInt64} (r : Record) (call : Word) :
    Keeps (·.registers.clock = time) (handler r call) := by
  have hreply : ∀ w, Keeps (·.registers.clock = time) (TrapState.reply w : Action Env Unit) := fun _ =>
    keeps_modify fun _ h => h
  have hset : ∀ i w, Keeps (·.registers.clock = time) (setRegister i w) := fun _ _ =>
    keeps_modify fun _ h => h
  -- An operation of a pool changes the pool and memory.
  have hpool : ∀ {α : Type} (f : Pool → Memory → Attempt (α × Pool × Memory)),
      Keeps (·.registers.clock = time) (onPool f) := fun f s hs => by
    refine ends_state_iff (P := fun t : Env => t.registers.clock = time).mp ?_
    simp only [onPool, ends_observe, ends_bind, ends_get, ends_attempt, ends_set, ends_pure]
    exact ⟨fun _ _ => hs, fun _ _ => hs⟩
  refine keeps_get.bind fun _ => (keeps_note _).bind fun _ => ?_
  split
  · exact keeps_get.bind fun _ => (hset _ _).bind fun _ => (hset _ _).bind fun _ =>
      (hset _ _).bind fun _ => (hreply _).bind fun _ => keeps_pure _
  · refine keeps_get.bind fun s => ?_
    dsimp only
    split
    · exact (keeps_note _).bind fun _ => (hreply _).bind fun _ => keeps_pure _
    · refine (hpool _).bind fun x => ?_
      split
      · exact (keeps_note _).bind fun _ => (hset _ _).bind fun _ => (hreply _).bind fun _ => keeps_pure _
      · exact (hset _ _).bind fun _ => (hreply _).bind fun _ => keeps_pure _
  · refine keeps_get.bind fun s => (hpool _).bind fun x => ?_
    split
    · exact (keeps_note _).bind fun _ => (hreply _).bind fun _ => keeps_pure _
    · exact (hreply _).bind fun _ => keeps_pure _
  all_goals exact (hreply _).bind fun _ => keeps_pure _

end Service

/-! ### Two memories -/

/-- The memories `m` and `n` agree on the range of operands, and their pools of process records are
    still those of `m₀` and `n₀`. -/
structure Memory.Cloned (l : Layout) (m₀ n₀ m n : Memory) : Prop where
  agree : Memory.SameOn (· ∈ l.operandRange) m n
  left : Memory.SameOn (· ∈ l.osPool) m₀ m
  right : Memory.SameOn (· ∈ l.osPool) n₀ n

namespace Service

open Timeshare.Action

variable {l : Layout} {m₀ n₀ : Memory} {s t : Env} {r q : Record}

/-- Programs write where both memories agree, so that `Memory.Cloned` is a relation that steps of a
    program keep. -/
theorem cloned_twins (hL : l.Valid) (m₀ n₀ : Memory) : Memory.Twins l (Memory.Cloned l m₀ n₀) where
  agree _ _ h := h.agree
  write _ _ a w h ha :=
    have hout : ¬ a ∈ l.osPool := fun hos => hL.not_mem_operandRange hos ha
    ⟨h.agree.write a w, h.left.trans (Memory.sameOn_write hout),
      h.right.trans (Memory.sameOn_write hout)⟩

/-- Two pools are the same, and cover the user pool of the layout `l`. -/
def SamePool (l : Layout) (p q : Pool) : Prop := p = q ∧ p.region = l.userPool

/-- Two environments that differ in words that programs cannot reach. -/
abbrev Twin (l : Layout) (m₀ n₀ : Memory) : Env → Env → Prop :=
  TrapState.Twin (Memory.Cloned l m₀ n₀) (SamePool l)

/-- A register `i` that gets the same word on both sides keeps two environments alike. -/
theorem alike_setRegister (h : Twin l m₀ n₀ s t) (i : Register) (w : Word) :
    Alike (Twin l m₀ n₀) (setRegister i w) (setRegister i w) s t :=
  alike_modify ⟨congrArg (Registers.set · i w) h.registers, h.host, h.memory⟩

/-- The same reply `w` on both sides keeps two environments alike. -/
theorem alike_reply (h : Twin l m₀ n₀ s t) (w : Word) :
    Alike (Twin l m₀ n₀) (TrapState.reply w) (TrapState.reply w) s t := alike_setRegister h _ w

/-- A pool operation that stays in the pool (`hconfined`) and sees its pool only (`hcongr`) ends
    alike in both environments. -/
theorem alike_onPool {α : Type} {f : Pool → Memory → Attempt (α × Pool × Memory)} (hL : l.Valid)
    (h : Twin l m₀ n₀ s t)
    (hconfined : ∀ m a p' m', (f s.host m).outcome = .ok (a, p', m') → p'.region = s.host.region
      ∧ p'.owner = s.host.owner ∧ Memory.SameOn (· ∉ s.host.region) m m')
    (hcongr : SameEnd (Pool.SameResult (· ∈ l.operandRange)) (f s.host s.memory).outcome
      (f s.host t.memory).outcome) :
    Alike (Twin l m₀ n₀) (onPool f) (onPool f) s t := by
  refine Alike.observe (Alike.get_bind ?_)
  obtain ⟨hregs, ⟨hhost, hregion⟩, hmem⟩ := h
  rw [← hhost]
  -- What the pool writes is out of reach for the pool of process records.
  have hos : ∀ a, a ∈ l.osPool → a ∉ s.host.region := fun a ha hin =>
    hL.not_mem_operandRange ha (hL.mem_operandRange (hregion ▸ hin))
  -- By `hcongr` the operation fails on both memories, or on none.
  cases hx : (f s.host s.memory).outcome with
  | error e =>
    cases hy : (f s.host t.memory).outcome with
    | error e' =>
      rw [hx, hy] at hcongr
      obtain rfl : e = e' := hcongr
      unfold Alike
      rw [exec_bind, exec_bind, exec_attempt, exec_attempt, hx, hy]
      exact ⟨rfl, hregs, ⟨hhost, hregion⟩, hmem⟩
    | ok y =>
      rw [hx, hy] at hcongr
      exact absurd hcongr (by simp [SameEnd])
  | ok x =>
    cases hy : (f s.host t.memory).outcome with
    | error e' =>
      rw [hx, hy] at hcongr
      exact absurd hcongr (by simp [SameEnd])
    | ok y =>
      rw [hx, hy] at hcongr
      obtain ⟨a, p, m⟩ := x
      obtain ⟨b, p', n⟩ := y
      obtain ⟨hab, hp, hmn⟩ := hcongr
      obtain ⟨hpr, -, hm⟩ := hconfined _ _ _ _ hx
      obtain ⟨-, -, hn⟩ := hconfined _ _ _ _ hy
      unfold Alike
      rw [exec_bind, exec_bind, exec_attempt, exec_attempt, hx, hy]
      refine ⟨congrArg Except.ok hab, hregs, ⟨hp, hpr.trans hregion⟩, hmn, ?_, ?_⟩
      · exact hmem.left.trans (hm.mono hos)
      · exact hmem.right.trans (hn.mono hos)

/-- Memory for a program is found alike on both memories: the free list of the user pool lies where
    they agree, forged or not. -/
theorem alike_allocate (hL : l.Valid) (h : Twin l m₀ n₀ s t) :
    Alike (Twin l m₀ n₀) allocate allocate s t := by
  have hregion := h.host.2
  have hr : s.host.region.Fits := hregion ▸ hL.userPool
  refine Alike.get_bind ?_
  rw [← h.registers]
  by_cases hsize : s.registers.get .r2 < 1
  · simp only [hsize, if_true]
    refine (alike_note h).bind fun _ s t _ h => ?_
    exact (alike_reply h _).bind fun _ s t _ h => alike_pure h
  · simp only [hsize, if_false]
    -- Both requests are of one size, and a pool decides by its region alone.
    have hpool : Alike (Twin l m₀ n₀) (onPool fun p m => p.allocate m (s.registers.get .r2))
        (onPool fun p m => p.allocate m (s.registers.get .r2)) s t := by
      refine alike_onPool hL h (fun m a p' m' hx => (Pool.allocate_confined hr hx).2) ?_
      exact Pool.allocate_congr hr (fun a ha => hL.mem_operandRange (hregion ▸ ha))
        h.memory.agree _
    refine hpool.bind fun x s t _ h => ?_
    cases x with
    | ok a =>
      refine (alike_note h).bind fun _ s t _ h => ?_
      refine (alike_setRegister h _ _).bind fun _ s t _ h => ?_
      exact (alike_reply h _).bind fun _ s t _ h => alike_pure h
    | error e =>
      refine (alike_setRegister h _ _).bind fun _ s t _ h => ?_
      exact (alike_reply h _).bind fun _ s t _ h => alike_pure h

/-- Memory from a program is taken back alike on both memories. -/
theorem alike_release (hL : l.Valid) (h : Twin l m₀ n₀ s t) :
    Alike (Twin l m₀ n₀) release release s t := by
  have hregion := h.host.2
  have hr : s.host.region.Fits := hregion ▸ hL.userPool
  refine Alike.get_bind ?_
  rw [← h.registers]
  have hcongr := Pool.release_congr hr (fun a ha => hL.mem_operandRange (hregion ▸ ha))
    h.memory.agree (s.registers.get .r1) (s.registers.get .r2)
  refine (alike_onPool hL h
    (fun m a p' m' hx => Pool.release_confined hr (Pool.map_release_eq_ok_iff.mp hx)) ?_).bind
      fun x s t _ h => ?_
  · rw [Attempt.outcome_map, Attempt.outcome_map]
    exact hcongr.map fun x y hxy => ⟨rfl, hxy⟩
  cases x with
  | ok a =>
    refine (alike_note h).bind fun _ s t _ h => ?_
    exact (alike_reply h _).bind fun _ s t _ h => alike_pure h
  | error e => exact (alike_reply h _).bind fun _ s t _ h => alike_pure h

/-- The processes `r` in `m₀` and `q` in `n₀` look the same to a program that asks about itself. -/
structure SameSelf (l : Layout) (m₀ n₀ : Memory) (r q : Record) : Prop where
  left : r.Within l.osPool
  right : q.Within l.osPool
  pid : r.get m₀ .pid = q.get n₀ .pid
  priority : r.get m₀ .priority = q.get n₀ .priority
  state : r.get m₀ .state = q.get n₀ .state

/-- What a program may ask for is the same for both processes, `r` and `q`, as long as their records
    are left alone. -/
theorem SameSelf.get_eq (hrq : SameSelf l m₀ n₀ r q) {m n : Memory}
    (h : Memory.Cloned l m₀ n₀ m n) {slot : Slot} (hslot : r.get m₀ slot = q.get n₀ slot) :
    r.get m slot = q.get n slot := by
  rw [← Record.get_congr (h.left.mono fun a ha => hrq.left.mem_of_span ha), hslot]
  exact Record.get_congr (h.right.mono fun a ha => hrq.right.mem_of_span ha) slot

/-- A program that asks about itself gets the same answer on both sides. -/
theorem alike_inquire (hrq : SameSelf l m₀ n₀ r q) (h : Twin l m₀ n₀ s t) :
    Alike (Twin l m₀ n₀) (inquire r) (inquire q) s t := by
  have hstate : r.state? s.memory = q.state? t.memory :=
    congrArg ProcessState.ofCode? (hrq.get_eq h.memory hrq.state)
  have hpid : r.pid s.memory = q.pid t.memory := hrq.get_eq h.memory hrq.pid
  have hpriority : r.priority s.memory = q.priority t.memory :=
    hrq.get_eq h.memory hrq.priority
  refine Alike.get_bind ?_
  simp only [hstate, hpid, hpriority]
  refine (alike_setRegister h _ _).bind fun _ s t _ h => ?_
  refine (alike_setRegister h _ _).bind fun _ s t _ h => ?_
  refine (alike_setRegister h _ _).bind fun _ s t _ h => ?_
  exact (alike_reply h _).bind fun _ s t _ h => alike_pure h

/-- **Services keep the kernel's secrets.**  Services answer alike, for processes with `SameSelf`,
    in environments that differ in words that programs cannot reach. -/
theorem handler_alike (hL : l.Valid) (hrq : SameSelf l m₀ n₀ r q) (call : Word)
    (h : Twin l m₀ n₀ s t) :
    Alike (Twin l m₀ n₀) (handler r call) (handler q call) s t := by
  refine Alike.get_bind ((alike_note h).bind fun _ s t _ h => ?_)
  split
  · exact alike_inquire hrq h
  · exact alike_allocate hL h
  · exact alike_release hL h
  · exact (alike_reply h _).bind fun _ s t _ h => alike_pure h
  · exact (alike_reply h _).bind fun _ s t _ h => alike_pure h
  all_goals
    refine (alike_note h).bind fun _ s t _ h => ?_
    exact (alike_reply h _).bind fun _ s t _ h => alike_pure h

end Service

end Timeshare
