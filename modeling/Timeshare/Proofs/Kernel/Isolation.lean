import Timeshare.Proofs.Kernel.Service

namespace Timeshare

/-!
# Isolation of programs

A program that runs under the kernel owns the program area and the user pool, and nothing else.
All of this holds on any memory, in particular if the program has forged the free list of the user
pool.

* `Guest.Contained l m₀ t` — the machine `t` is as a program may leave it that was started on the
  memory `m₀`; every step keeps this (`Guest.Contained.step`).
* `Guest.runSlice_integrity` — a time slice changes no word outside the range of operands, and words
  outside the user pool are changed by stores and pushes only.
* `Guest.runSlice_confidentiality` — the end of a time slice does not depend on the words outside the
  range of operands.
-/

/-- A machine that runs a program under the kernel. -/
def Machine.guest (l : Layout) (registers : Registers) (stack : Option StackBounds) (head : Link)
    (m : Memory) : Machine Pool :=
  ⟨⟨registers, stack, l⟩, m, ⟨.user, l.userPool, head⟩⟩

namespace Guest

open Timeshare.Action Machine

variable {l : Layout} {s t : Machine Pool} {r : Record}

/-! ### Integrity -/

/-- The machine `t` is as a program may leave it that was started on the memory `m₀`: no word
    outside the range of operands has changed. -/
structure Contained (l : Layout) (m₀ : Memory) (t : Machine Pool) : Prop where
  layout : t.cpu.layout = l
  region : t.host.region = l.userPool
  frame : Memory.SameOn (· ∉ l.operandRange) m₀ t.memory

/-- A program leaves the pool of process records alone. -/
theorem Contained.osPool {m₀ : Memory} (hL : l.Valid) (h : Contained l m₀ t) :
    Memory.SameOn (· ∈ l.osPool) m₀ t.memory :=
  h.frame.mono fun _ ha => hL.not_mem_operandRange ha

/-- The time that an instruction takes makes no difference. -/
theorem Contained.tick {m₀ : Memory} (h : Contained l m₀ t) (cost : UInt64) :
    Contained l m₀ (t.tick cost) := ⟨h.layout, h.region, h.frame⟩

/-- The words outside the user pool that a step changes: none, or the one that an instruction
    stores.  A system call writes in the user pool only, whatever its free list says. -/
theorem step_stores (hL : l.Valid) (hlayout : t.cpu.layout = l) (hregion : t.host.region = l.userPool) :
    let res := exec (step (Service.handler r)) t
    res.2.cpu.layout = l ∧ res.2.host.region = l.userPool ∧
      (Memory.SameOn (· ∉ l.userPool) t.memory res.2.memory ∨
        ∃ i a w, res.1 = .ok (i, .proceed) ∧ i.opcode.stores = true ∧ a ∈ l.operandRange
          ∧ res.2.memory = t.memory.write a w) := by
  intro res
  have heffect : Effect (Service.handler r) t res.1 res.2 :=
    step_effect (Service.handler r) (hlayout ▸ hL)
  generalize res.1 = x at heffect ⊢
  generalize res.2 = u at heffect ⊢
  cases heffect with
  | registers _ regs => exact ⟨hlayout, hregion, .inl (Memory.SameOn.refl _ _)⟩
  | stored i regs a w hi ha =>
    exact ⟨hlayout, hregion, .inr ⟨i, a, w, rfl, hi, hlayout ▸ ha, rfl⟩⟩
  | trapped _ number regs regs' v hv =>
    -- On the trap path all writes are those of the user pool.
    have hends := Service.handler_confined (s := ⟨regs, t.memory, t.host⟩)
      (hregion ▸ hL.userPool) r number
    have hconf := (ends_state_iff (P := Service.Confined ⟨regs, t.memory, t.host⟩)).mp
      (hends.mono (fun _ _ h => h) fun _ _ h => h.elim)
    rw [hv] at hconf
    refine ⟨hlayout, hconf.region.trans hregion, .inl ?_⟩
    have hframe : Memory.SameOn (· ∉ t.host.region) t.memory v.memory := hconf.frame
    exact hregion ▸ hframe

/-- A step of a program stays where the program may write: it keeps `Contained l m₀`. -/
theorem Contained.step {m₀ : Memory} (hL : l.Valid) (h : Contained l m₀ t) :
    Contained l m₀ (exec (Machine.step (Service.handler r)) t).2 := by
  obtain ⟨hlayout, hregion, hmem⟩ := step_stores (r := r) hL h.layout h.region
  refine ⟨hlayout, hregion, h.frame.trans ?_⟩
  rcases hmem with hsame | ⟨i, a, w, -, -, ha, hw⟩
  · exact hsame.mono fun a ha hin => ha (hL.mem_operandRange hin)
  · rw [hw]
    exact Memory.sameOn_not_write ha

/-- A time slice stays where the program may write, by induction on its steps. -/
theorem Contained.runSlice {m₀ : Memory} (hL : l.Valid) (h : Contained l m₀ s) (budget : UInt64) :
    Contained l m₀ (Machine.runSlice (Service.handler r) budget s).value.machine :=
  runSlice_invariant (fun _ h => h.step hL) (fun _ cost h => h.tick cost) budget h

/-- **Integrity.**  Whatever a program does within a time slice, no word outside `l.operandRange`
    changes, in particular none of the pool of process records.  This holds of every machine `t`
    that the run goes through; and a word outside the user pool changes only when an instruction
    with `i.opcode.stores` stores its result there or pushes it. -/
theorem runSlice_integrity (hl : l.validate = .ok ()) (registers : Registers)
    (stack : Option StackBounds) (head : Link) (m : Memory) (r : Record) (budget : UInt64) :
    let s := Machine.guest l registers stack head m
    let ended := (Machine.runSlice (Service.handler r) budget s).value.machine
    Memory.SameOn (· ∉ l.operandRange) m ended.memory
      ∧ Memory.SameOn (· ∈ l.osPool) m ended.memory
      ∧ ∀ is t, Steps (Service.handler r) s is t →
        let res := exec (Machine.step (Service.handler r)) t
        Memory.SameOn (· ∉ l.operandRange) m t.memory
          ∧ Memory.SameOn (· ∉ l.operandRange) m res.2.memory
          ∧ ∀ a, a ∉ l.userPool → t.memory.read a ≠ res.2.memory.read a →
            ∃ i w, res.1 = .ok (i, .proceed) ∧ i.opcode.stores = true
              ∧ res.2.memory = t.memory.write a w := by
  have hL : l.Valid := Layout.validate_eq_ok_iff.mp hl
  intro s ended
  have hs : Contained l m s := ⟨rfl, rfl, Memory.SameOn.refl _ m⟩
  have hended : Contained l m ended := hs.runSlice hL budget
  refine ⟨hended.frame, hended.osPool hL, fun is t hsteps => ?_⟩
  -- Every machine on the way is contained, and so is what one more step makes of it.
  have ht : Contained l m t :=
    hsteps.invariant (fun _ h => h.step hL) (fun _ cost h => h.tick cost) hs
  refine ⟨ht.frame, (ht.step hL).frame, fun a ha hne => ?_⟩
  obtain ⟨-, -, hsame | ⟨i, b, w, hres, hi, -, hw⟩⟩ := step_stores (r := r) hL ht.layout ht.region
  · exact absurd (hsame a ha) hne
  · by_cases hab : b = a
    · exact ⟨i, w, hres, hi, hab ▸ hw⟩
    · rw [hw, Memory.read_write_of_ne _ _ hab] at hne
      exact absurd rfl hne

/-- A program that forges the free list of the user pool and works with it: it is granted three
    words, gives them back, and is refused once it has let the list lead into the pool of process
    records.  The stack is in words `36` and `37`. -/
theorem runSlice_integrity_forged :
    let l : Layout := ⟨⟨0, 39⟩, ⟨40, 59⟩, ⟨60, 119⟩⟩
    let program : List Word :=
      [55060, 40, 50, 55060, 41, 6,       -- word 40: a block of six words, followed by word 50
        55060, 50, -1, 55060, 51, 10,     -- word 50: the last block, of ten words
        51260, 3, 126000, 4, 101100,      -- allocates three words and pushes their address
        126000, 5,                        -- releases them
        55060, 50, 60,                    -- word 50 is followed by word 60, which is no user's
        51260, 20, 126000, 4, 101000, 0]  -- allocates twenty words, pushes the status and halts
    let m := Memory.zero.writeWords 0 program
    let r : Record := ⟨⟨60, by decide⟩⟩
    let s := guest l { sp := 35 } (some ⟨36, 37⟩) (.node ⟨40, by decide⟩) m
    let ended := (runSlice (Service.handler r) 200 s).value
    (ended.outcome = .ok .halted ∧ ended.machine.host.head = .node ⟨40, by decide⟩
        ∧ [(40 : Word), 43, 50, 36, 37].map ended.machine.memory.load
          = [.ok 43, .ok 50, .ok 60, .ok 40, .ok Fault.invalidMemoryAddress.code])
      ∧ l.validate = .ok ()
      ∧ Memory.SameOn (· ∉ l.operandRange) m ended.machine.memory
      ∧ Memory.SameOn (· ∈ l.osPool) m ended.machine.memory
      ∧ ∀ is t, Steps (Service.handler r) s is t →
        let res := exec (Machine.step (Service.handler r)) t
        ∀ a, a ∉ l.userPool → t.memory.read a ≠ res.2.memory.read a →
          ∃ i w, res.1 = .ok (i, .proceed) ∧ i.opcode.stores = true
            ∧ res.2.memory = t.memory.write a w := by
  intro l program m r
  have hall := runSlice_integrity (l := l) (by decide) { sp := 35 } (some ⟨36, 37⟩)
    (.node ⟨40, by decide⟩) m r 200
  exact ⟨by decide +kernel, by decide, hall.1, hall.2.1, fun is t h => (hall.2.2 is t h).2.2⟩

/-! ### Confidentiality -/

/-- **Confidentiality.**  Two machines with the same processor and the same head of the user pool,
    whose memories `m` and `n` agree on `l.operandRange`, end a time slice in the same way, if the
    two processes `r` and `q` have the same number, priority and state.  Nothing else of the
    kernel's memory shows. -/
theorem runSlice_confidentiality (hl : l.validate = .ok ()) (registers : Registers)
    (stack : Option StackBounds) (head : Link) {m n : Memory} {r q : Record}
    (hmn : Memory.SameOn (· ∈ l.operandRange) m n)
    (hr : Record.ofAddress r.address l.osPool = .ok r)
    (hq : Record.ofAddress q.address l.osPool = .ok q) (hpid : r.pid m = q.pid n)
    (hpriority : r.priority m = q.priority n) (hstate : r.get m .state = q.get n .state)
    (budget : UInt64) :
    let e := (runSlice (Service.handler r) budget (guest l registers stack head m)).value
    let e' := (runSlice (Service.handler q) budget (guest l registers stack head n)).value
    e.outcome = e'.outcome ∧ e.meter = e'.meter ∧ e.machine.cpu = e'.machine.cpu
      ∧ e.machine.host = e'.machine.host
      ∧ Memory.SameOn (· ∈ l.operandRange) e.machine.memory e'.machine.memory := by
  have hL : l.Valid := Layout.validate_eq_ok_iff.mp hl
  have hrq : Service.SameSelf l m n r q :=
    { left := ((Record.ofAddress_eq_ok_iff hL.osPool).mp hr).2
      right := ((Record.ofAddress_eq_ok_iff hL.osPool).mp hq).2
      pid := hpid
      priority := hpriority
      state := hstate }
  -- The two machines start as twins: what a program and its calls can see is the same.
  have hstart : Machine.Twin l (Memory.Cloned l m n) (Service.SamePool l)
      (guest l registers stack head m) (guest l registers stack head n) :=
    { layout := rfl
      cpu := rfl
      host := ⟨rfl, rfl⟩
      memory := ⟨hmn, Memory.SameOn.refl _ m, Memory.SameOn.refl _ n⟩ }
  -- Each step keeps them twins and has the same end, and so has each charge of the meter.
  obtain ⟨houtcome, hmeter, hend⟩ := runSlice_alike
    (fun _ _ h => h.alike_step hL (Service.cloned_twins hL m n)
      fun call _ _ h => Service.handler_alike hL hrq call h)
    (fun _ _ cost h => h.tick cost) budget hstart
  exact ⟨houtcome, hmeter, hend.cpu, hend.host.1, hend.memory.agree⟩

/-- A program that asks for its number and then allocates twice from a list that it has forged: the
    first block is followed by word `59`, the last of the user pool, whose size would be in word `60`,
    and then by word `62`, where only the second kernel has what looks like a free block.  Both kernels
    refuse both requests, and the processor, the pool and the memory of the program are the same. -/
theorem runSlice_confidentiality_word :
    let l : Layout := ⟨⟨0, 39⟩, ⟨40, 59⟩, ⟨60, 119⟩⟩
    let program : List Word :=
      [126000, 3, 101100,                            -- inquires and pushes the number
        55060, 40, 59, 51260, 20, 126000, 4, 101000, -- word 59 follows; allocates, pushes the status
        55060, 40, 62, 126000, 4, 101000, 0]         -- word 62 follows; the same again, and halts
    let m := ((Memory.zero.writeWords 0 program).write ⟨41, by decide⟩ 6).write ⟨71, by decide⟩ 7
    let n := (((m.write ⟨60, by decide⟩ 2).write ⟨62, by decide⟩ (-1)).write ⟨63, by decide⟩ 20).write
      ⟨91, by decide⟩ 7
    let r : Record := ⟨⟨70, by decide⟩⟩
    let q : Record := ⟨⟨90, by decide⟩⟩
    let start := guest l { sp := 35 } (some ⟨36, 38⟩) (.node ⟨40, by decide⟩)
    let e := (runSlice (Service.handler r) 200 (start m)).value
    let e' := (runSlice (Service.handler q) 200 (start n)).value
    (e.outcome = .ok .halted
        ∧ [(36 : Word), 37, 38].map e.machine.memory.load
          = [.ok 7, .ok Fault.invalidMemoryAddress.code, .ok Fault.invalidMemoryAddress.code])
      ∧ m.read ⟨60, by decide⟩ ≠ n.read ⟨60, by decide⟩
      ∧ m.read ⟨63, by decide⟩ ≠ n.read ⟨63, by decide⟩
      ∧ e.outcome = e'.outcome ∧ e.meter = e'.meter ∧ e.machine.cpu = e'.machine.cpu
      ∧ e.machine.host = e'.machine.host
      ∧ Memory.SameOn (· ∈ l.operandRange) e.machine.memory e'.machine.memory := by
  intro l program m n r q start e e'
  -- The four words that differ are words of the pool of process records.
  have hmn : Memory.SameOn (· ∈ l.operandRange) m n :=
    (((Memory.sameOn_write (by decide)).trans (Memory.sameOn_write (by decide))).trans
      (Memory.sameOn_write (by decide))).trans (Memory.sameOn_write (by decide))
  have hself : r.pid m = q.pid n ∧ r.priority m = q.priority n ∧ r.get m .state = q.get n .state := by
    decide +kernel
  obtain ⟨hpid, hpriority, hstate⟩ := hself
  exact ⟨by decide +kernel, by decide +kernel, by decide +kernel,
    runSlice_confidentiality (by decide) { sp := 35 } (some ⟨36, 38⟩) (.node ⟨40, by decide⟩) hmn
      (by decide) (by decide) hpid hpriority hstate 200⟩

end Guest

end Timeshare
