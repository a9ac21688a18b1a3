import Timeshare.Proofs.Kernel.Reachable

namespace Timeshare

/-!
# Time slices

A program does not notice where its run is cut into time slices.  What it sees of the machine is the
same after a context switch, so that the slices of a process that is alone are the pieces of one run.

* `Guest.Runs l r s` — the machine `s` runs the program of the process `r`.
* `Guest.SameView l r s t` — the program of the process `r` cannot tell the machines `s` and `t` apart;
  it takes its steps alike on both (`Guest.SameView.alike_step`).
* `Kernel.Resumes r k s` — the next turn of the process `r` in the kernel `k` starts with what the
  program would see on the machine `s`.  So it is for the machine on which the last turn was cut
  (`Kernel.PutAside.resumes`).
* `Kernel.Sound.lone_cycle` — a cycle of a kernel with one process takes steps of its run.
* `Kernel.EndsAfter` — the cycles of a kernel up to the first that is not ended by the clock.
* `Kernel.timeSlice_independent` — what has become of a lone process then is the same for all time
  slices.
-/

/-! ### What a program sees -/

namespace Guest

open Timeshare.Action Machine

variable {l : Layout} {s t u : Machine Pool} {r : Record}

/-- The machine `s` runs the program of the process `r`: at the level of programs, and within the
    window that the record of the process tells. -/
structure Runs (l : Layout) (r : Record) (s : Machine Pool) : Prop where
  layout : s.cpu.layout = l
  region : s.host.region = l.userPool
  within : r.Within l.osPool
  level : s.AtUserLevel
  stack : s.cpu.stack = some (.ofSize (r.get s.memory .stackStart) (r.get s.memory .stackSize))
  state : r.get s.memory .state = ProcessState.running.code

/-- Such a machine is `Contained`, with its own memory to compare with. -/
theorem Runs.contained (h : Runs l r s) : Contained l s.memory s :=
  ⟨h.layout, h.region, Memory.SameOn.refl _ _⟩

/-- A step of the program leaves each word `r.get _ slot` of the record alone. -/
theorem Runs.get_step (hL : l.Valid) (h : Runs l r s) (slot : Slot) :
    r.get (exec (step (Service.handler r)) s).2.memory slot = r.get s.memory slot :=
  (Record.get_congr (((h.contained.step hL).osPool hL).mono fun _ ha =>
    h.within.mem_of_span ha) slot).symm

/-- A step of the program goes on running it: `Runs l r` holds of the machine after it. -/
theorem Runs.step (hL : l.Valid) (h : Runs l r s) :
    Runs l r (exec (step (Service.handler r)) s).2 := by
  have hend := h.contained.step (r := r) hL
  refine ⟨hend.layout, hend.region, h.within, keeps_step _ s h.level, ?_, ?_⟩
  · rw [h.get_step hL, h.get_step hL, (step_effect _ (h.layout ▸ hL)).stack, h.stack]
  · rw [h.get_step hL, h.state]

/-- The time that an instruction takes makes no difference to what runs: `Runs l r` holds of
    `s.tick cost`. -/
theorem Runs.tick (h : Runs l r s) (cost : UInt64) : Runs l r (s.tick cost) :=
  ⟨h.layout, h.region, h.within, h.level, h.stack, h.state⟩

/-- The program of the process `r` cannot tell the machines `s` and `t` apart.  Their memories may
    differ in the pool of process records, but not in what the process may ask for. -/
structure SameView (l : Layout) (r : Record) (s t : Machine Pool) : Prop where
  left : Runs l r s
  right : Runs l r t
  cpu : s.cpu = t.cpu
  host : s.host = t.host
  lasting : ∀ slot, slot.isLasting = true → r.get s.memory slot = r.get t.memory slot
  frame : Memory.SameOn (· ∉ l.osPool) s.memory t.memory

/-- Machines that cannot be told apart cannot be either after the same time: `SameView l r` holds of
    `s.tick cost` and `t.tick cost`. -/
theorem SameView.tick (h : SameView l r s t) (cost : UInt64) :
    SameView l r (s.tick cost) (t.tick cost) := by
  refine ⟨h.left.tick cost, h.right.tick cost, ?_, h.host, h.lasting, h.frame⟩
  show s.cpu.withRegisters { s.cpu.registers with clock := s.cpu.registers.clock + cost }
    = t.cpu.withRegisters { t.cpu.registers with clock := t.cpu.registers.clock + cost }
  rw [h.cpu]

/-- **Steps.**  The program takes the next step alike on both machines, and cannot tell them apart
    after it: one result, and `SameView l r` of what is left. -/
theorem SameView.alike_step (hL : l.Valid) (h : SameView l r s t) :
    Alike (SameView l r) (step (Service.handler r)) (step (Service.handler r)) s t := by
  have hself : Service.SameSelf l s.memory t.memory r r :=
    ⟨h.left.within, h.right.within, h.lasting .pid rfl, h.lasting .priority rfl,
      h.left.state.trans h.right.state.symm⟩
  -- Seen from the program the two machines are twins; the rest is what neither of them changes.
  have htwin : Machine.Twin l (Memory.Cloned l s.memory t.memory) (Service.SamePool l) s t :=
    ⟨h.left.layout, h.cpu, ⟨h.host, h.left.region⟩,
      h.frame.mono fun a ha hos => hL.not_mem_operandRange hos ha, Memory.SameOn.refl _ _,
      Memory.SameOn.refl _ _⟩
  obtain ⟨hres, hend⟩ := htwin.alike_step hL (Service.cloned_twins hL _ _)
    fun call _ _ h => Service.handler_alike hL hself call h
  refine ⟨hres, h.left.step hL, h.right.step hL, hend.cpu, hend.host.1, fun slot hs => ?_, fun a ha => ?_⟩
  · rw [h.left.get_step hL, h.right.get_step hL, h.lasting slot hs]
  · -- Within the range of operands the memories agree, and outside of it neither has changed.
    by_cases hin : a ∈ l.operandRange
    · exact hend.memory.agree a hin
    · have hs := (h.left.contained.step (r := r) hL).frame a hin
      have ht := (h.right.contained.step (r := r) hL).frame a hin
      exact hs.symm.trans ((h.frame a ha).trans ht)

/-- The stack of the process is given back alike: with the same user pool, and memories that agree
    outside `l.osPool`. -/
theorem SameView.returnStack (hL : l.Valid) (h : SameView l r s t) :
    (Kernel.returnStack r s).1 = (Kernel.returnStack r t).1
      ∧ Memory.SameOn (· ∉ l.osPool) (Kernel.returnStack r s).2 (Kernel.returnStack r t).2 := by
  have hcongr := Pool.release_congr (p := t.host) (h.right.region ▸ hL.userPool)
    (fun a ha => hL.not_mem_osPool (h.right.region ▸ ha)) h.frame (r.get t.memory .stackStart)
    (r.get t.memory .stackSize)
  unfold Kernel.returnStack
  rw [h.host, h.lasting .stackStart rfl, h.lasting .stackSize rfl]
  -- Both releases succeed or both fail.
  rcases hx : (t.host.release s.memory (r.get t.memory .stackStart)
      (r.get t.memory .stackSize)).outcome with e | x <;>
    rcases hy : (t.host.release t.memory (r.get t.memory .stackStart)
      (r.get t.memory .stackSize)).outcome with e' | y <;> rw [hx, hy] at hcongr
  · exact ⟨rfl, h.frame⟩
  · exact absurd hcongr (by simp [SameEnd])
  · exact absurd hcongr (by simp [SameEnd])
  · exact hcongr

/-- A program that ends its run does not end it like the clock: `CycleOutcome.ofStatus status` is
    not `.preempted`. -/
theorem ofStatus_ne_preempted {status : Except Fault Status}
    (h : Finishes (Service.handler r) s status t) : CycleOutcome.ofStatus status ≠ .preempted := by
  cases h with
  | failed h => simp [CycleOutcome.ofStatus]
  | halted h => simp [CycleOutcome.ofStatus]
  | blocked h =>
    rcases returns_step (Service.returns_handler r) _ _ _ h _ rfl with rfl | rfl
    · simp [CycleOutcome.ofStatus]
    · simp [CycleOutcome.ofStatus]

end Guest

namespace Kernel

open Timeshare.Action Machine Guest

variable {k k' start stop : Kernel} {free : List FreeBlock} {ready waiting held : List Record}
variable {r : Record} {s t u : Machine Pool}

/-! ### Cuts -/

/-- The next turn of the process `r` in the kernel `k` starts with what its program would see on the
    machine `s`. -/
structure Resumes (r : Record) (k : Kernel) (s : Machine Pool) : Prop where
  runs : Runs k.config.layout r s
  cpu : s.cpu = r.restoreContext k.memory k.machine.cpu
  host : s.host = k.userPool
  lasting : ∀ slot, slot.isLasting = true → r.get s.memory slot = r.get k.memory slot
  frame : Memory.SameOn (· ∉ k.config.layout.osPool) k.memory s.memory

/-- Machines `s` and `t` from which the same turn could start cannot be told apart. -/
theorem Resumes.sameView (h : Resumes r k s) (h' : Resumes r k t) :
    SameView k.config.layout r s t :=
  ⟨h.runs, h'.runs, h.cpu.trans h'.cpu.symm, h.host.trans h'.host.symm,
    fun slot hs => (h.lasting slot hs).trans (h'.lasting slot hs).symm, h.frame.symm.trans h'.frame⟩

/-- A machine that cannot be told apart from one with `Resumes r k` has it as well. -/
theorem Resumes.congr (h : Resumes r k s) (hst : SameView k.config.layout r s t) : Resumes r k t :=
  ⟨hst.right, hst.cpu.symm.trans h.cpu, hst.host.symm.trans h.host,
    fun slot hs => (hst.lasting slot hs).symm.trans (h.lasting slot hs), h.frame.trans hst.frame⟩

/-- So the turn does start: a process that was dispatched runs on a machine with `Resumes r k`. -/
theorem Dispatched.resumes (h : Dispatched r k start) (hk : Framed k)
    (hr : r.Within k.config.layout.osPool) : Resumes r k start.machine := by
  refine ⟨⟨?_, ?_, hr, ?_, ?_, h.state⟩, h.cpu, h.userPool,
    fun slot hs => h.slots slot (Slot.isScheduling_of_isLasting hs).2, h.frame⟩
  · rw [h.cpu]
    exact hk.layout
  · show start.userPool.region = _
    rw [h.userPool, hk.userRegion]
  · rw [AtUserLevel, h.cpu]
    rfl
  · show start.machine.cpu.stack
      = some (.ofSize (r.get start.memory .stackStart) (r.get start.memory .stackSize))
    rw [h.cpu, h.slots _ rfl, h.slots _ rfl]
    rfl

/-- **Context switches do not show.**  A process that is put aside is resumed with what its program
    saw when its turn has ended: `Resumes r k'` holds of the machine of `stop`. -/
theorem PutAside.resumes (h : PutAside r stop k') (hruns : Runs stop.config.layout r stop.machine) :
    Resumes r k' stop.machine := by
  have hconfig := h.config
  refine ⟨hconfig ▸ hruns, ?_, h.userPool.symm, fun slot hs => (h.lasting slot hs).symm, ?_⟩
  · rw [h.saved.restoreContext, h.cpu, h.lasting _ rfl, h.lasting _ rfl]
    -- The level of programs and the window of the stack are what the program had.
    have hlevel : stop.machine.cpu.registers.privilege = .user := hruns.level
    have hstack : stop.machine.cpu.stack
      = some (.ofSize (r.get stop.memory .stackStart) (r.get stop.memory .stackSize)) := hruns.stack
    rw [← hstack, ← hlevel]
    rfl
  · rw [hconfig]
    exact h.frame.symm

/-! ### The end of a process -/

/-- The user pool and memory that the process `r` leaves behind on the machine `s`: as they are if
    it goes on, and with its stack given back otherwise. -/
def remains (r : Record) (outcome : CycleOutcome) (s : Machine Pool) : Pool × Memory :=
  if outcome.goesOn then (s.host, s.memory) else returnStack r s

/-- Outside the pool of process records, the kernel `k` is as a process has left it on the machine
    `s`. -/
structure Leaves (l : Layout) (r : Record) (outcome : CycleOutcome) (s : Machine Pool) (k : Kernel) :
    Prop where
  cpu : k.machine.cpu = s.cpu
  userPool : k.userPool = (remains r outcome s).1
  frame : Memory.SameOn (· ∉ l.osPool) (remains r outcome s).2 k.memory

/-- What a turn leaves behind is what its machine leaves: `LeftBehind` of the kernels gives `Leaves`
    of the machine. -/
theorem LeftBehind.leaves {outcome : CycleOutcome} (h : LeftBehind r outcome stop k') :
    Leaves stop.config.layout r outcome stop.machine k' := by
  cases h with
  | goesOn hgo aside =>
    have hremains : remains r outcome stop.machine = (stop.userPool, stop.memory) := if_pos hgo
    exact ⟨aside.cpu, by rw [hremains, aside.userPool], by rw [hremains]; exact aside.frame⟩
  | ended hend stack =>
    have hremains : remains r outcome stop.machine = returnStack r stop.machine :=
      if_neg (by simp [hend])
    exact ⟨stack.cpu, by rw [hremains, stack.userPool], by rw [hremains]; exact stack.frame⟩

/-- Machines that the program cannot tell apart are left alike: `Leaves` carries over from `s` to
    `t`. -/
theorem Leaves.congr {l : Layout} {outcome : CycleOutcome} (hL : l.Valid)
    (h : Leaves l r outcome s k) (hst : SameView l r s t) : Leaves l r outcome t k := by
  have hremains : (remains r outcome s).1 = (remains r outcome t).1
      ∧ Memory.SameOn (· ∉ l.osPool) (remains r outcome s).2 (remains r outcome t).2 := by
    unfold remains
    split
    · exact ⟨hst.host, hst.frame⟩
    · exact hst.returnStack hL
  exact ⟨h.cpu.trans hst.cpu, h.userPool.trans hremains.1, hremains.2.symm.trans h.frame⟩

/-! ### Cycles of a process that is alone -/

/-- The program of a turn runs for one time slice: the end of the turn is that of
    `Machine.runSlice`. -/
theorem Turn.runSlice {status : Except Fault Status} (h : Turn r k start stop status k') :
    let ended := (Machine.runSlice (Service.handler r) start.config.timeSlice start.machine).value
    status = ended.outcome ∧ stop.machine = ended.machine ∧ stop.config = start.config := by
  obtain @⟨k₁, -, -, -, hrun, -⟩ := h
  rw [Sound.exec_runProcess] at hrun
  obtain ⟨hstatus, rfl⟩ := Prod.mk.inj hrun
  exact ⟨(Except.ok.inj hstatus).symm, rfl, rfl⟩

/-- **A cycle of a lone process.**  Its turn takes the steps `js` of its run.  They end with the
    time slice, and the process is resumed from there, or they end the run. -/
theorem Sound.lone_cycle (h : Sound k free [r] [] []) (hs : Resumes r k s) :
    ∃ report k' js u, exec Kernel.cycle k = (.ok (some report), k') ∧ k'.config = k.config
      ∧ Steps (Service.handler r) s js u ∧
      ((report.outcome = .preempted ∧ js ≠ [] ∧ Resumes r k' u ∧ ∃ free', Sound k' free' [r] [] []) ∨
        ∃ status t, Finishes (Service.handler r) u status t ∧ report.outcome = .ofStatus status
          ∧ Leaves k.config.layout r (.ofStatus status) t k') := by
  have hL := h.valid.layout
  have hwithin := h.ledger.within h.fits (x := r) (by simp)
  obtain ⟨start, stop, status, k', free', ready', waiting', hturn, hstart, -, hsame, hplaced, h', -,
    hleft⟩ := h.turn
  obtain ⟨hstatus, hmachine, hconfig⟩ := hturn.runSlice
  rw [hstart.config] at hconfig
  -- The program sees the same on the machine that it gets, so that it takes the same steps.
  have hview : SameView k.config.layout r start.machine s :=
    (hstart.resumes h.toFramed hwithin).sameView hs
  have halike : ∀ s t, SameView k.config.layout r s t →
      Alike (SameView k.config.layout r) (step (Service.handler r)) (step (Service.handler r)) s t :=
    fun _ _ h => h.alike_step hL
  have htick : ∀ s t cost, SameView k.config.layout r s t →
      SameView k.config.layout r (s.tick cost) (t.tick cost) := fun _ _ cost h => h.tick cost
  -- The slice ends with the run, or the clock ends it.
  rcases runSlice_steps (Service.handler r) start.config.timeSlice start.machine with
    ⟨js, v, hsteps, hfinish⟩ | ⟨js, hne, hsteps, hexpired⟩
  · obtain ⟨u, hsteps', huv⟩ := hsteps.alike halike htick hview
    obtain ⟨t, hfinish', hst⟩ := hfinish.alike halike htick huv
    rw [← hstatus] at hfinish'
    rw [← hmachine] at hst
    refine ⟨_, k', js, u, hturn.exec_cycle, hsame.config, hsteps', .inr ⟨status, t, hfinish', rfl, ?_⟩⟩
    have hleaves := hleft.leaves
    rw [hconfig] at hleaves
    exact hleaves.congr hL hst
  · obtain ⟨u, hsteps', hst⟩ := hsteps.alike halike htick hview
    rw [← hstatus] at hexpired
    rw [← hmachine] at hst
    subst hexpired
    have haside := hleft.putAside rfl
    have hresumes : Resumes r k' stop.machine := haside.resumes (hconfig ▸ hst.left)
    refine ⟨_, k', js, u, hturn.exec_cycle, hsame.config, hsteps', .inl ⟨rfl, hne, ?_, free', ?_⟩⟩
    · exact hresumes.congr (hsame.config ▸ hst)
    · cases hplaced with
      | preempted hplace =>
        obtain ⟨rfl, rfl⟩ := List.append_eq_nil_iff.mp hplace.eq.symm
        exact h'

/-- The cycles of a kernel up to the first one that is not ended by the clock: `n` are, and the next one
    has another outcome. -/
inductive EndsAfter : Kernel → Nat → CycleOutcome → Kernel → Prop where
  | last {k k' : Kernel} {report : CycleReport} (h : exec Kernel.cycle k = (.ok (some report), k'))
    (hne : report.outcome ≠ .preempted) : EndsAfter k 0 report.outcome k'
  | cut {k k₁ k' : Kernel} {report : CycleReport} {n : Nat} {outcome : CycleOutcome}
    (h : exec Kernel.cycle k = (.ok (some report), k₁)) (hcut : report.outcome = .preempted)
    (hrest : EndsAfter k₁ n outcome k') : EndsAfter k (n + 1) outcome k'

/-- The cycles of a lone process are pieces of one run: `n` cycles that end with `outcome` give
    `Steps` from `s` and one instruction that `Finishes`, with the same outcome. -/
theorem EndsAfter.run {n : Nat} {outcome : CycleOutcome} (h : EndsAfter k n outcome k')
    (hk : Sound k free [r] [] []) (hs : Resumes r k s) :
    ∃ is u status t, Steps (Service.handler r) s is u ∧ Finishes (Service.handler r) u status t
      ∧ outcome = .ofStatus status ∧ Leaves k.config.layout r outcome t k' := by
  -- Cycle by cycle: the steps of a cycle that was cut come before those of the rest.
  induction h generalizing free s with
  | @last k k' report h hne =>
    obtain ⟨report', k'', js, u, hcycle, -, hsteps, hend⟩ := hk.lone_cycle hs
    cases h.symm.trans hcycle
    rcases hend with ⟨hcut, -⟩ | ⟨status, t, hfinish, houtcome, hleaves⟩
    · exact absurd hcut hne
    · exact ⟨js, u, status, t, hsteps, hfinish, houtcome, houtcome ▸ hleaves⟩
  | @cut k k₁ k' report n outcome h hcut _ ih =>
    obtain ⟨report', k'', js, u, hcycle, hconfig, hsteps, hend⟩ := hk.lone_cycle hs
    cases h.symm.trans hcycle
    rcases hend with ⟨-, -, hresumes, free', hk₁⟩ | ⟨status, t, hfinish, houtcome, -⟩
    · obtain ⟨is, v, status, t, hrest, hfinish, houtcome, hleaves⟩ := ih hk₁ hresumes
      rw [hconfig] at hleaves
      exact ⟨js ++ is, v, status, t, hsteps.trans hrest, hfinish, houtcome, hleaves⟩
    · exact absurd (houtcome.symm.trans hcut) (ofStatus_ne_preempted hfinish)

/-- Conversely, a run of a lone process that comes to an end is done in some number `n` of cycles,
    wherever they cut it. -/
theorem Sound.endsAfter {is : List Instruction} {status : Except Fault Status}
    (hk : Sound k free [r] [] []) (hs : Resumes r k s) (hsteps : Steps (Service.handler r) s is u)
    (hfinish : Finishes (Service.handler r) u status t) :
    ∃ n k', EndsAfter k n (.ofStatus status) k' ∧ Leaves k.config.layout r (.ofStatus status) t k' := by
  -- Every cycle that is cut takes a step at least, so that what is left of the run gets shorter.
  induction hlen : is.length using Nat.strongRecOn generalizing k free s is with
  | ind _ ih =>
    obtain ⟨report, k', js, v, hcycle, hconfig, hsteps', hend⟩ := hk.lone_cycle hs
    obtain ⟨ks, rfl, hrest⟩ := hsteps.cut hfinish hsteps'
    rcases hend with ⟨hcut, hne, hresumes, free', hk'⟩ | ⟨status', t', hfinish', houtcome, hleaves⟩
    · have hshorter : ks.length < (js ++ ks).length := by
        have := List.length_pos_iff.mpr hne
        rw [List.length_append]
        omega
      obtain ⟨n, k'', hends, hleaves⟩ := ih _ (hlen ▸ hshorter) hk' hresumes hrest rfl
      rw [hconfig] at hleaves
      exact ⟨n + 1, k'', .cut hcycle hcut hends, hleaves⟩
    · -- The run has ended where the cycle has.
      rcases hrest.uncons with ⟨-, rfl⟩ | ⟨i, _, _, -, hstep, -⟩
      · obtain ⟨rfl, rfl⟩ := hfinish'.unique hfinish
        refine ⟨0, k', ?_, hleaves⟩
        rw [← houtcome]
        exact .last hcycle (houtcome ▸ ofStatus_ne_preempted hfinish)
      · exact (hfinish'.not_proceed hstep).elim

/-! ### Other time slices -/

/-- The kernel with the time slice `slice`. -/
def withTimeSlice (k : Kernel) (slice : UInt64) : Kernel :=
  { k with config := { k.config with timeSlice := slice } }

/-- What the action `x` does to a kernel does not depend on its time slice: with another one it ends
    alike, and leaves the same kernel up to the time slice. -/
def SliceFree {α : Type} (x : Action Kernel α) : Prop :=
  ∀ k slice, exec x (k.withTimeSlice slice) = ((exec x k).1, (exec x k).2.withTimeSlice slice)

section SliceFree

variable {α β : Type} {x : Action Kernel α}

/-- A sequence does not depend on the time slice: `SliceFree (x >>= f)`, from that of `x` and of
    each `f a`. -/
theorem SliceFree.bind {f : α → Action Kernel β} (hx : SliceFree x) (hf : ∀ a, SliceFree (f a)) :
    SliceFree (x >>= f) := by
  intro k slice
  rw [exec_bind, exec_bind, hx]
  rcases exec x k with ⟨e | a, k'⟩
  · rfl
  · exact hf a k' slice

/-- What is done after a look at the kernel, if the time slice is not looked at:
    `f (k.withTimeSlice slice) = f k`. -/
theorem SliceFree.get_bind {f : Kernel → Action Kernel β} (hf : ∀ k, SliceFree (f k))
    (hlook : ∀ k slice, f (k.withTimeSlice slice) = f k) : SliceFree (get >>= f) := by
  intro k slice
  rw [exec_bind_ok (exec_get _), exec_bind_ok (exec_get _), hlook]
  exact hf k k slice

theorem sliceFree_pure (a : α) : SliceFree (pure a) := fun _ _ => rfl

/-- A fault does not depend on the time slice. -/
theorem sliceFree_throw (e : Fault) : SliceFree (throw e : Action Kernel α) := fun _ _ => rfl

theorem sliceFree_note (n : Notice) : SliceFree (note n) := fun _ _ => rfl

/-- To look at how an action ends does not make it depend on the time slice. -/
theorem SliceFree.observe (hx : SliceFree x) : SliceFree (observe x) := by
  intro k slice
  rw [exec_observe, exec_observe, hx]

theorem sliceFree_modifyMemory (f : Memory → Memory) : SliceFree (modifyMemory f) := fun _ _ => rfl

/-- What is tried on the parts of a kernel, and changes parts of it: `f` and `rest` have to do the
    same on `k.withTimeSlice slice`. -/
theorem sliceFree_attempt {f : Kernel → Attempt α} {rest : α → Kernel → Action Kernel β}
    (hf : ∀ k slice, f (k.withTimeSlice slice) = f k)
    (hrest : ∀ a k slice, exec (rest a (k.withTimeSlice slice)) (k.withTimeSlice slice)
      = ((exec (rest a k) k).1, (exec (rest a k) k).2.withTimeSlice slice)) :
    SliceFree (do
      let k ← get
      let a ← Action.attempt (f k)
      rest a k) := by
  intro k slice
  rw [exec_bind_ok (exec_get _), exec_bind_ok (exec_get _), exec_bind, exec_bind, exec_attempt,
    exec_attempt, hf]
  cases (f k).outcome with
  | ok a => exact hrest a k slice
  | error e => rfl

/-- Operations on the pool of process records do not look at the time slice. -/
theorem sliceFree_onOsPool (f : Pool → Memory → Attempt (α × Pool × Memory)) :
    SliceFree (onOsPool f) := sliceFree_attempt (fun _ _ => rfl) fun _ _ _ => rfl

/-- Neither do operations on the user pool. -/
theorem sliceFree_onUserPool (f : Pool → Memory → Attempt (α × Pool × Memory)) :
    SliceFree (onUserPool f) := sliceFree_attempt (fun _ _ => rfl) fun _ _ _ => rfl

/-- To make a process ready does not depend on the time slice. -/
theorem sliceFree_makeReady (r : Record) : SliceFree (makeReady r) :=
  sliceFree_attempt (fun _ _ => rfl) fun _ _ _ => rfl

/-- To load a program does not depend on the time slice. -/
theorem sliceFree_loadProgram (program : String) : SliceFree (loadProgram program) :=
  sliceFree_attempt (fun _ _ => rfl) fun _ _ _ => rfl

/-- To undo what was done after a failure does not depend on the time slice if undoing it does
    not. -/
theorem sliceFree_orGiveBack {giveBack : Action Kernel Unit} (h : SliceFree giveBack)
    (y : Except Fault α) : SliceFree (orGiveBack giveBack y) := by
  cases y with
  | ok a => exact sliceFree_pure a
  | error e => exact h.bind fun _ => sliceFree_throw e

end SliceFree

/-- **Creation** does not depend on the time slice. -/
theorem sliceFree_create (program : String) (priority : Word) :
    SliceFree (Kernel.create program priority) := by
  -- What is undone when a part of the creation fails.
  have hback : ∀ start size, SliceFree (releaseOs start size) := fun _ _ => sliceFree_onOsPool _
  -- Part by part: the record, the program, the stack, and the queue.
  refine (sliceFree_onOsPool _).bind fun start => SliceFree.get_bind (fun k => ?_) ?_
  swap
  · exact fun _ _ => rfl
  refine (sliceFree_orGiveBack (hback _ _) _).bind fun r => ?_
  refine (sliceFree_modifyMemory _).bind fun _ => ?_
  refine (sliceFree_loadProgram program).observe.bind fun loaded => ?_
  have hfail : ∀ n : Notice, SliceFree (Action.note n >>= fun _ => releaseOs start.toWord recordSize) :=
    fun _ => (sliceFree_note _).bind fun _ => hback _ _
  refine (sliceFree_orGiveBack (by cases loaded; exacts [hfail _, hback _ _]) _).bind fun entry => ?_
  refine (sliceFree_onUserPool _).observe.bind fun allocated => ?_
  refine (sliceFree_orGiveBack (by cases allocated; exacts [hfail _, hback _ _]) _).bind fun stack => ?_
  refine (sliceFree_modifyMemory _).bind fun _ => (sliceFree_makeReady r).observe.bind fun made => ?_
  refine (sliceFree_orGiveBack ((sliceFree_onUserPool _).bind fun _ => hback _ _) _).bind fun _ => ?_
  refine SliceFree.bind (fun _ _ => rfl) fun _ => ?_
  exact (sliceFree_note _).bind fun _ => sliceFree_pure r

/-- A new kernel is the same for all time slices, apart from the time slice itself: with `slice` in
    the configuration it is `k.withTimeSlice slice`. -/
theorem boot_withTimeSlice {config : Config} {catalog : Catalog} {slice : UInt64}
    (hslice : ({ config with timeSlice := slice } : Config).validate = .ok ())
    (hboot : (boot config catalog).outcome = .ok k) :
    (boot { config with timeSlice := slice } catalog).outcome = .ok (k.withTimeSlice slice) := by
  rw [boot, Attempt.outcome_ofExcept_bind, bind_eq_ok_iff] at hboot
  obtain ⟨-, -, hboot⟩ := hboot
  rw [boot, Attempt.outcome_ofExcept_bind, hslice, ok_bind]
  dsimp only at hboot ⊢
  rw [Attempt.outcome_seq] at hboot ⊢
  -- The time slice is looked at by the check only; the pools are made from the layout.
  obtain ⟨⟨osPool, m⟩, hos, hboot⟩ := bind_eq_ok_iff.mp hboot
  rw [hos, ok_bind]
  dsimp only at hboot ⊢
  rw [Attempt.outcome_seq] at hboot ⊢
  obtain ⟨⟨userPool, m'⟩, huser, hboot⟩ := bind_eq_ok_iff.mp hboot
  rw [huser, ok_bind]
  obtain rfl := Except.ok.inj hboot
  rfl

/-- A kernel in order is so with another time slice, if `slice ≠ 0`. -/
theorem Sound.withTimeSlice {slice : UInt64} (h : Sound k free ready waiting held)
    (hslice : slice ≠ 0) : Sound (k.withTimeSlice slice) free ready waiting held :=
  ⟨⟨⟨h.valid.layout, hslice, h.valid.one_le_stack, h.valid.stack_le⟩, h.layout, h.osRegion,
    h.userRegion, h.readyRegion, h.waitRegion⟩, h.ledger, h.standing⟩

/-- A process that is created in a new kernel is alone: the ready queue is `[r]`, and none waits. -/
theorem lone_create {config : Config} {catalog : Catalog} {k₀ k₁ : Kernel} {program : String}
    {priority : Word} (hboot : (boot config catalog).outcome = .ok k₀)
    (hcreate : exec (Kernel.create program priority) k₀ = (.ok r, k₁)) :
    k₁.config = config ∧ ∃ free, Sound k₁ free [r] [] [] := by
  obtain ⟨hconfig, -, b, h₀⟩ := boot_nobody hboot
  obtain ⟨k₁', hexec, hconfig₁, -, -, -, hcreated⟩ := h₀.create program priority
  obtain ⟨hres, rfl⟩ := Prod.mk.inj (hexec.symm.trans hcreate)
  rcases hcreated with ⟨_, _, hfail, -⟩ | ⟨x, free, ahead, behind, hok, ⟨hnil, -, -⟩, -, h₁⟩
  · exact absurd (hres.symm.trans hfail) (by simp)
  obtain rfl := Except.ok.inj (hres.symm.trans hok)
  obtain ⟨rfl, rfl⟩ := List.append_eq_nil_iff.mp hnil.symm
  exact ⟨hconfig₁.trans hconfig, free, h₁⟩

/-- **The time slice does not matter.**  A process that is alone, and whose `n` cycles come to an
    end other than that of a time slice, does so with any other `slice`: it is created alike, ends
    with the same `outcome`, and leaves the same registers, the same user pool, and the same memory
    outside the pool of process records. -/
theorem timeSlice_independent {config : Config} {catalog : Catalog} {slice : UInt64}
    {k₀ k₁ k₂ : Kernel} {program : String} {priority : Word} {n : Nat} {outcome : CycleOutcome}
    (hslice : ({ config with timeSlice := slice } : Config).validate = .ok ())
    (hboot : (boot config catalog).outcome = .ok k₀)
    (hcreate : exec (Kernel.create program priority) k₀ = (.ok r, k₁))
    (hend : EndsAfter k₁ n outcome k₂) :
    ∃ k₀' k₁' n' k₂', (boot { config with timeSlice := slice } catalog).outcome = .ok k₀'
      ∧ exec (Kernel.create program priority) k₀' = (.ok r, k₁') ∧ EndsAfter k₁' n' outcome k₂'
      ∧ k₂'.registers = k₂.registers ∧ k₂'.userPool.head = k₂.userPool.head
      ∧ Memory.SameOn (· ∉ config.layout.osPool) k₂.memory k₂'.memory := by
  have hvalid := Config.validate_eq_ok_iff.mp hslice
  obtain ⟨hconfig, free, h₁⟩ := lone_create hboot hcreate
  -- Both kernels are the same up to the time slice, once the process is created.
  have hcreate' := sliceFree_create program priority k₀ slice
  rw [hcreate] at hcreate'
  have h₁' := h₁.withTimeSlice hvalid.timeSlice
  -- The first turns of both start with the same view, from where there is one run.
  have hwithin := h₁.ledger.within h₁.fits (x := r) (by simp)
  obtain ⟨-, start, -, -, -, hstart, -⟩ := h₁.getsProcessor
  have hresumes : Resumes r k₁ start.machine := hstart.resumes h₁.toFramed hwithin
  obtain ⟨is, u, status, t, hsteps, hfinish, rfl, hleaves⟩ := hend.run h₁ hresumes
  obtain ⟨n', k₂', hend', hleaves'⟩ := h₁'.endsAfter
    ⟨hresumes.runs, hresumes.cpu, hresumes.host, hresumes.lasting, hresumes.frame⟩ hsteps hfinish
  rw [hconfig] at hleaves
  refine ⟨k₀.withTimeSlice slice, _, n', k₂', boot_withTimeSlice hslice hboot, hcreate', hend', ?_, ?_,
    ?_⟩
  · rw [Kernel.registers, Kernel.registers, hleaves'.cpu, hleaves.cpu]
  · rw [hleaves'.userPool, hleaves.userPool]
  · have hframe' := hleaves'.frame
    have hlayout : (k₁.withTimeSlice slice).config.layout = config.layout := by
      show k₁.config.layout = _
      rw [hconfig]
    rw [hlayout] at hframe'
    exact hleaves.frame.symm.trans hframe'

/-- A process that adds and halts needs two cycles with `timeSlice := 1`, and ends in the same way
    in larger ones. -/
theorem timeSlice_independent_add :
    let config : Config := { layout := ⟨⟨0, 9⟩, ⟨10, 29⟩, ⟨30, 89⟩⟩, timeSlice := 1, stackSize := 2 }
    let catalog := Catalog.ofList [("add", ⟨[(0, 11160), (1, 7), (2, 0)], 0⟩)]
    ∃ k₀ k₁ k₂ k₀' k₁' n' k₂', (boot config catalog).outcome = .ok k₀
      ∧ (boot { config with timeSlice := 200 } catalog).outcome = .ok k₀'
      ∧ EndsAfter k₁ 1 .terminated k₂ ∧ EndsAfter k₁' n' .terminated k₂'
      ∧ k₂.registers.get .r1 = 7 ∧ k₂'.registers = k₂.registers := by
  intro config catalog
  let r : Record := ⟨⟨30, by decide⟩⟩
  obtain ⟨k₀, hboot, hcreated, hfirst, hsecond, hseven⟩ :
      ∃ k₀, (boot config catalog).outcome = .ok k₀ ∧
        let created := exec (Kernel.create "add" 1) k₀
        let first := exec Kernel.cycle created.2
        let second := exec Kernel.cycle first.2
        created.1 = .ok r ∧ first.1.map (·.map (·.outcome)) = .ok (some .preempted)
          ∧ second.1.map (·.map (·.outcome)) = .ok (some .terminated)
          ∧ second.2.registers.get .r1 = 7 := exists_boot (by decide +kernel)
  have hreport : ∀ (x : Except Fault (Option CycleReport)) (outcome : CycleOutcome),
      x.map (·.map (·.outcome)) = .ok (some outcome) →
        ∃ report, x = .ok (some report) ∧ report.outcome = outcome := by
    rintro (e | _ | report) outcome h
    · exact absurd h (by simp [Except.map])
    · exact absurd (Except.ok.inj h) (by simp)
    · exact ⟨report, rfl, Option.some.inj (Except.ok.inj h)⟩
  obtain ⟨report, hfirst, hcut⟩ := hreport _ _ hfirst
  obtain ⟨report', hsecond, hhalt⟩ := hreport _ _ hsecond
  have hlast : EndsAfter _ 0 report'.outcome _ :=
    .last (Prod.ext hsecond rfl) (by rw [hhalt]; simp)
  rw [hhalt] at hlast
  obtain ⟨k₀', k₁', n', k₂', hboot', -, hend', hregisters, -⟩ := timeSlice_independent
    (show ({ config with timeSlice := 200 } : Config).validate = .ok () by decide) hboot
    (Prod.ext hcreated rfl) (.cut (Prod.ext hfirst rfl) hcut hlast)
  exact ⟨k₀, _, _, k₀', k₁', n', k₂', hboot, hboot', .cut (Prod.ext hfirst rfl) hcut hlast, hend', hseven,
    hregisters⟩

end Kernel

end Timeshare
