import Timeshare.Proofs.Kernel.Calls
import Timeshare.Proofs.Kernel.Change
import Timeshare.Proofs.Kernel.Moments

namespace Timeshare

/-!
# What processes wait for

A process waits once it has called the kernel for a character, or for the end of an output.  As long as it
waits, its record says what for, and keeps the register of results.

* `Moment.waits?` — what a process begins to wait for with an instruction.
* `Record.awaited` — what the record of a waiting process says.
* `Kernel.Turn.waits` — a turn after which the process waits ends with such an instruction.
* `Kernel.Change.waits` — who waits after an operation has waited before it, or has just begun to wait.
-/

open Timeshare.Action

/-- What the process begins to wait for with an instruction, and the content of its register of results:
    it calls the kernel for a character, or for the end of an output. -/
def Moment.waits? (m : Moment) : Option (WaitReason × Word) :=
  m.machine.call?.bind fun (number, env) =>
    if number = 8 then some (.inputCompletion, env.registers.get .r1)
    else if number = 9 then some (.outputCompletion, env.registers.get .r1)
    else none

/-- The number of the process that executes an instruction. -/
def Moment.pid (m : Moment) : Word := m.process.pid m.machine.memory

/-- What the record `r` says that its process waits for, and the register of results. -/
def Record.awaited (r : Record) (m : Memory) : WaitReason × Word :=
  ((r.reason? m).getD .none, r.get m (.gpr .r1))

/-- A record that is kept, except for its link, says the same. -/
theorem Record.awaited_congr {r : Record} {m n : Memory}
    (h : ∀ s, s ≠ .next → r.get n s = r.get m s) : r.awaited n = r.awaited m := by
  rw [awaited, awaited, reason?_congr (h .reason (by simp)), h (.gpr .r1) (by simp)]

namespace Kernel

variable {k k' start stop : Kernel} {free free' : List FreeBlock} {ready waiting : List Record}
variable {ready' waiting' rest : List Record} {r : Record} {op : Operation}

/-- An instruction that lets its process wait is the call for what it waits for, and leaves the register of
    results alone. -/
theorem Moment.waits_of_block {m : Moment} (hL : m.machine.cpu.layout.Valid) {status : Status}
    {t : Machine Pool} (h : Machine.Finishes m.handler m.machine (.ok status) t)
    (hhalted : status ≠ .halted) :
    ∃ reason, m.waits? = some (reason, t.cpu.registers.get .r1)
      ∧ CycleOutcome.ofStatus (.ok status) = .blocked reason := by
  cases h with
  | halted _ => exact absurd rfl hhalted
  | @blocked i status u hstep =>
    obtain ⟨number, env, hcall, hblock⟩ := Machine.call_of_block hstep
    obtain ⟨hservice, hanswer⟩ := Service.handler_block hblock
    -- What the call leaves in the registers is its answer.
    obtain ⟨-, -, -, -, hget⟩ := Moment.after_call hL hcall
    have hafter : m.after = u.tick i.opcode.cost := by
      unfold Moment.after Machine.successor
      rw [hstep]
    have hresult : (u.tick i.opcode.cost).cpu.registers.get .r1 = env.registers.get .r1 := by
      have hanswer' : (exec (Service.handler m.process number) env).2 = _ := hanswer
      rw [← hafter, hget, hanswer']
      exact Registers.get_set_of_ne _ _ (by decide)
    rw [Moment.waits?, hcall, hresult]
    rcases hservice with ⟨rfl, rfl⟩ | ⟨rfl, rfl⟩
    · exact ⟨.inputCompletion, rfl, rfl⟩
    · exact ⟨.outputCompletion, rfl, rfl⟩

/-- **A turn after which the process waits** ends with the call for what it waits for: the last
    instruction `m` has `m.waits? = some (reason, …)`. -/
theorem Turn.waits {status : Except Fault Status} {reason : WaitReason}
    (h : Turn r k start stop status k') (hstart : Dispatched r k start) (hframed : Framed k)
    (hblocked : CycleOutcome.ofStatus status = .blocked reason) :
    ∃ ms m, k.moments = ms ++ [m] ∧ m.waits? = some (reason, stop.registers.get .r1) := by
  have hcontained := h.contained hstart hframed
  obtain @⟨k₁, hpop, -, hdispatch, hrun, -⟩ := h
  rw [Sound.exec_runProcess] at hrun
  obtain ⟨hres, rfl⟩ := Prod.mk.inj hrun
  have hstatus := Except.ok.inj hres
  -- A process that waits has not used its slice up, so that its run ended with its last
  -- instruction.
  have hne : (Machine.runSlice (Service.handler r) start.config.timeSlice start.machine).value.outcome
      ≠ .ok .timeSliceExpired := by
    rw [hstatus]
    rintro rfl
    exact absurd hblocked (by simp [CycleOutcome.ofStatus])
  obtain ⟨ms, t, hvisits, hlast⟩ := Machine.runSlice_last start.config.timeSlice start.machine hne
  have hmoments : k.moments = ms.map (Moment.mk r) ++ [⟨r, t⟩] := by
    unfold Kernel.moments
    simp only [hpop, hdispatch, hvisits, List.map_append, List.map_cons, List.map_nil]
  refine ⟨_, _, hmoments, ?_⟩
  obtain ⟨-, ht⟩ := hcontained ⟨r, t⟩ (by rw [hmoments]; simp)
  rw [hstatus] at hlast
  cases status with
  | error fault => exact absurd hblocked (by simp [CycleOutcome.ofStatus])
  | ok status =>
    -- The outcome names the reason, and `m` is a call for it.
    obtain ⟨reason', hwaits, hreason⟩ := Moment.waits_of_block (m := ⟨r, t⟩)
      (ht.layout ▸ hframed.valid.layout) hlast (by
        rintro rfl
        exact absurd hblocked (by simp [CycleOutcome.ofStatus]))
    obtain rfl := CycleOutcome.blocked.inj (hreason.symm.trans hblocked)
    exact hwaits

/-- The number of a process is the same in all its instructions of a turn. -/
theorem Turn.pid {status : Except Fault Status} (h : Turn r k start stop status k')
    (hstart : Dispatched r k start) (hframed : Framed k) (hr : r.Within k.config.layout.osPool) :
    ∀ m ∈ k.moments, m.pid = r.pid k.memory := by
  intro m hm
  obtain ⟨hprocess, hm⟩ := h.contained hstart hframed m hm
  show m.process.get m.machine.memory .pid = r.get k.memory .pid
  rw [hprocess, ← hstart.slots .pid rfl]
  exact (Record.get_congr ((hm.osPool hframed.valid.layout).mono fun _ ha => hr.mem_of_span ha) .pid).symm

/-- What happens to the processes that wait in an operation: each has waited before, for the same,
    or it has just had its turn and called for what it waits for. -/
theorem Change.waits (h : Sound k free ready waiting [])
    (hchange : Change k free ready waiting op k' free' ready' waiting') (hr : r ∈ waiting') :
    (r ∈ waiting ∧ r.awaited k'.memory = r.awaited k.memory) ∨
      (op = .cycle ∧ r ∈ ready ∧ ∃ ms m, k.moments = ms ++ [m]
        ∧ m.waits? = some (r.awaited k'.memory) ∧ m.pid = r.pid k.memory) := by
  -- One case for each effect; only a turn lets a process wait.
  cases hchange with
  | nothing _ _ _ => exact .inl ⟨hr, rfl⟩
  | undone _ undone =>
    exact .inl ⟨hr, Record.awaited_congr (undone.queued.kept.get r (List.mem_append_right _ hr))⟩
  | created _ _ _ _ kept => exact .inl ⟨hr, Record.awaited_congr (kept.get r (List.mem_append_right _ hr))⟩
  | @turn q rest start stop status _ _ _ _ first turn dispatched _ placed kept left =>
    subst first
    have hothers : r ∈ waiting → r ∈ waiting ∧ r.awaited k'.memory = r.awaited k.memory := fun hr =>
      ⟨hr, Record.awaited_congr (kept.get r (List.mem_append_right _ hr))⟩
    generalize houtcome : CycleOutcome.ofStatus status = outcome at placed left
    cases placed with
    | preempted _ => exact .inl (hothers hr)
    | terminated => exact .inl (hothers hr)
    | faulted _ => exact .inl (hothers hr)
    | blocked reason told =>
      rcases List.mem_cons.mp hr with rfl | hr
      · obtain ⟨ms, m, hms, hm⟩ := turn.waits dispatched h.toFramed houtcome
        have hwithin := h.ledger.within h.fits (x := r) (by simp)
        refine .inr ⟨rfl, List.mem_cons_self, ms, m, hms, ?_,
          turn.pid dispatched h.toFramed hwithin m (by rw [hms]; simp)⟩
        rw [hm, Record.awaited, told, (left.putAside rfl).saved.gpr .r1]
        rfl
      · exact .inl (hothers hr)
  | @released _ _ _ q _ before after _ _ _ waits _ _ _ kept =>
    refine .inl ⟨?_, Record.awaited_congr (kept.get r (List.mem_append_right _ hr))⟩
    rw [waits]
    simp only [List.mem_append, List.mem_cons] at hr ⊢
    tauto
  | shutDown _ _ _ => exact absurd hr (by simp)

end Kernel

end Timeshare
