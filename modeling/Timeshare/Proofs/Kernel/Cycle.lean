import Timeshare.Kernel.Cycle
import Timeshare.Proofs.Kernel.Isolation
import Timeshare.Proofs.Kernel.Process

namespace Timeshare

/-!
# Scheduling cycles of a kernel in order

A process that gets the processor is held from the moment it leaves the ready queue until it has
found its next place.  The program runs in between, on a machine that it may change as it likes
within the range of operands; the ledger does not notice.

* `Kernel.Sound.dispatch`, `Kernel.Sound.runProcess`, `Kernel.Sound.settle` — the parts of a cycle,
  none of which can fail.
* `Kernel.Placed` — where a process is found after a cycle, by the outcome of the cycle.
* `Kernel.LeftBehind` — what it leaves behind: its registers in its record, or its stack.
* `Kernel.Turn r k start stop status k'` — the stations of a cycle in which the process has the
  processor: from `start` to `stop` its program runs.
* `Kernel.Sound.turn`, `Kernel.Sound.cycle` — a cycle.
-/

/-- The outcome of a turn, by how the run of the program has ended. -/
def CycleOutcome.ofStatus : Except Fault Status → CycleOutcome
  | .ok .halted => .terminated
  | .ok .waitingForInput => .blocked .inputCompletion
  | .ok .waitingForOutput => .blocked .outputCompletion
  | .ok .timeSliceExpired | .ok .ok => .preempted
  | .error fault => .faulted fault

/-- Only a fault of the program is reported as one: `.faulted e` comes from `.error e`. -/
theorem CycleOutcome.ofStatus_eq_faulted {status : Except Fault Status} {e : Fault}
    (h : ofStatus status = .faulted e) : status = .error e := by
  cases status with
  | error e' => exact congrArg Except.error (CycleOutcome.faulted.inj h)
  | ok status => cases status <;> exact absurd h (by simp [ofStatus])

/-- Whether a process goes on after its turn. -/
def CycleOutcome.goesOn : CycleOutcome → Bool
  | .preempted | .blocked _ => true
  | .terminated | .faulted _ => false

namespace Kernel

open Timeshare.Action

variable {k : Kernel} {free : List FreeBlock} {ready waiting held : List Record} {r : Record}

/-- The lists of a kernel after the process `r` that was held has found its place: ready again where
    its priority belongs, the newest of those that wait, or a free block. -/
inductive Placed (m : Memory) (r : Record) (free : List FreeBlock) (ready waiting : List Record) :
    CycleOutcome → List FreeBlock → List Record → List Record → Prop where
  | preempted {ahead behind : List Record} (h : r.Place m ready ahead behind) :
    Placed m r free ready waiting .preempted free (ahead ++ r :: behind) waiting
  | blocked (reason : WaitReason) (told : r.reason? m = some reason) :
    Placed m r free ready waiting (.blocked reason) free ready (r :: waiting)
  | terminated : Placed m r free ready waiting .terminated (Ledger.freed r :: free) ready waiting
  | faulted (fault : Fault) :
    Placed m r free ready waiting (.faulted fault) (Ledger.freed r :: free) ready waiting

section Placed

variable {m : Memory} {outcome : CycleOutcome} {free' : List FreeBlock} {ready' waiting' : List Record}

/-- Whoever was ready while the process was held is ready afterwards: `p ∈ ready'`. -/
theorem Placed.mem_ready (h : Placed m r free ready waiting outcome free' ready' waiting') {p : Record}
    (hp : p ∈ ready) : p ∈ ready' := by
  cases h with
  | preempted h =>
    obtain ⟨rfl, -, -⟩ := h
    simp only [List.mem_append, List.mem_cons] at hp ⊢
    tauto
  | blocked reason => exact hp
  | terminated => exact hp
  | faulted fault => exact hp

/-- Whoever was waiting waits on: `p ∈ waiting'`. -/
theorem Placed.mem_waiting (h : Placed m r free ready waiting outcome free' ready' waiting')
    {p : Record} (hp : p ∈ waiting) : p ∈ waiting' := by
  cases h with
  | preempted h => exact hp
  | blocked reason => exact List.mem_cons_of_mem _ hp
  | terminated => exact hp
  | faulted fault => exact hp

/-- The process itself is in a queue afterwards just if `outcome.goesOn`; all others stay. -/
theorem Placed.perm (h : Placed m r free ready waiting outcome free' ready' waiting') :
    (ready' ++ waiting').Perm (if outcome.goesOn then r :: (ready ++ waiting) else ready ++ waiting) := by
  cases h with
  | preempted h =>
    obtain ⟨rfl, -, -⟩ := h
    exact List.perm_middle.append_right waiting
  | blocked reason => exact List.perm_middle
  | terminated => exact List.Perm.refl _
  | faulted fault => exact List.Perm.refl _

/-- A process that was in no queue is in one afterwards if and only if its `outcome.goesOn`. -/
theorem Placed.mem_iff (h : Placed m r free ready waiting outcome free' ready' waiting')
    (hr : r ∉ ready ++ waiting) : r ∈ ready' ++ waiting' ↔ outcome.goesOn = true := by
  rw [h.perm.mem_iff]
  split
  · rename_i hgo
    exact iff_of_true List.mem_cons_self hgo
  · rename_i hend
    exact iff_of_false hr hend

end Placed

/-- The process `r` was put aside: its registers are in its record, and outside the pool of process
    records nothing has changed. -/
structure PutAside (r : Record) (k k' : Kernel) : Prop extends SameUser k k' where
  saved : r.Saved k.registers k'.memory
  lasting : ∀ s, s.isLasting = true → r.get k'.memory s = r.get k.memory s

/-- What the process `r` leaves behind when it leaves the processor: its registers in its record if
    it goes on, and otherwise its stack, for the user pool. -/
inductive LeftBehind (r : Record) (outcome : CycleOutcome) (k k' : Kernel) : Prop where
  | goesOn (h : outcome.goesOn = true) (aside : PutAside r k k')
  | ended (h : outcome.goesOn = false) (stack : StackReturned r k k')

/-- A process that goes on, `outcome.goesOn = true`, was put aside. -/
theorem LeftBehind.putAside {outcome : CycleOutcome} {k' : Kernel} (h : LeftBehind r outcome k k')
    (hgo : outcome.goesOn = true) : PutAside r k k' := by
  cases h with
  | goesOn _ aside => exact aside
  | ended h _ => exact absurd (h.symm.trans hgo) Bool.false_ne_true

/-- A process that has ended, `outcome.goesOn = false`, has given its stack back. -/
theorem LeftBehind.stack {outcome : CycleOutcome} {k' : Kernel} (h : LeftBehind r outcome k k')
    (hend : outcome.goesOn = false) : StackReturned r k k' := by
  cases h with
  | goesOn h _ => exact absurd (hend.symm.trans h) Bool.false_ne_true
  | ended _ stack => exact stack

/-- A processor that is free stays so when a process finds its place. -/
theorem LeftBehind.running {outcome : CycleOutcome} {k' : Kernel} (h : LeftBehind r outcome k k')
    (hfree : k.running = none) : k'.running = none := by
  cases h with
  | goesOn _ aside => exact aside.running.trans hfree
  | ended _ stack => rw [stack.running, hfree, if_neg (by simp)]

/-- The process `r` has got the processor, with the registers in its record.  Besides the state in
    the record and links, nothing has changed in memory. -/
structure Dispatched (r : Record) (k start : Kernel) : Prop extends SameSetting k start where
  userPool : start.userPool = k.userPool
  cpu : start.machine.cpu = r.restoreContext k.memory k.machine.cpu
  slots : ∀ s, s.isScheduling = false → r.get start.memory s = r.get k.memory s
  state : r.get start.memory .state = ProcessState.running.code
  reason : r.get start.memory .reason = r.get k.memory .reason
  frame : Memory.SameOn (· ∉ k.config.layout.osPool) k.memory start.memory

/-- A turn of the process `r`.  The kernel `start` has given the processor to it, in the kernel
    `stop` its program has ended with `status`, and in `k'` the process has found its next place. -/
inductive Turn (r : Record) (k start stop : Kernel) (status : Except Fault Status) (k' : Kernel) :
    Prop where
  | intro {k₁ : Kernel} (pop : exec popReady k = (.ok (some r), k₁))
    (number : r.pid k₁.memory = r.pid k.memory)
    (dispatch : exec (Kernel.dispatch r) k₁ = (.ok (), start))
    (run : exec (Kernel.runProcess r) start = (.ok status, stop))
    (settle : exec (Kernel.settle r (r.pid k.memory) status) stop = (.ok (.ofStatus status), k'))

/-- A turn is told by the kernel before it: the stations of two turns from `k` are the same. -/
theorem Turn.unique {start stop start' stop' k' k'' : Kernel} {status status' : Except Fault Status}
    (h : Turn r k start stop status k') (h' : Turn r k start' stop' status' k'') :
    start' = start ∧ stop' = stop ∧ status' = status ∧ k'' = k' := by
  obtain @⟨k₁, hpop, -, hdispatch, hrun, hsettle⟩ := h
  obtain @⟨k₁', hpop', -, hdispatch', hrun', hsettle'⟩ := h'
  obtain rfl : k₁' = k₁ := (Prod.mk.inj (hpop'.symm.trans hpop)).2
  obtain rfl : start' = start := (Prod.mk.inj (hdispatch'.symm.trans hdispatch)).2
  obtain ⟨hstatus, rfl⟩ := Prod.mk.inj (hrun'.symm.trans hrun)
  obtain rfl : status' = status := Except.ok.inj hstatus
  exact ⟨rfl, rfl, rfl, (Prod.mk.inj (hsettle'.symm.trans hsettle)).2⟩

/-- What a process keeps all its life, the slots with `isLasting`, is the same after a turn from
    which it goes on. -/
theorem Dispatched.get_lasting {start stop k' : Kernel} {s : Slot} (h : Dispatched r k start)
    (hL : k.config.layout.Valid) (hr : r.Within k.config.layout.osPool)
    (hcontained : Guest.Contained k.config.layout start.memory stop.machine)
    (haside : PutAside r stop k') (hs : s.isLasting = true) :
    r.get k'.memory s = r.get k.memory s := by
  -- The program of the process cannot write to the record.
  have hrun : r.get start.memory s = r.get stop.memory s :=
    Record.get_congr ((hcontained.osPool hL).mono fun _ ha => hr.mem_of_span ha) s
  rw [haside.lasting s hs, ← hrun, h.slots s (Slot.isScheduling_of_isLasting hs).2]

/-- A cycle in which a process is ready is a turn: its report has the number `r.pid k.memory` of the
    process, how the turn ended, and the time. -/
theorem Turn.exec_cycle {start stop k' : Kernel} {status : Except Fault Status}
    (h : Turn r k start stop status k') :
    exec Kernel.cycle k = (.ok (some ⟨r.pid k.memory, .ofStatus status, k'.clock⟩), k') := by
  obtain @⟨k₁, hpop, hnumber, hdispatch, hrun, hsettle⟩ := h
  rw [← hnumber] at hsettle ⊢
  rw [Kernel.cycle, exec_bind_ok hpop]
  simp only []
  rw [exec_bind_ok (exec_get _), exec_bind_ok hdispatch, exec_bind_ok hrun, exec_bind_ok hsettle,
    exec_bind_ok (exec_get _)]
  rfl

namespace Sound

/-- The processor goes to a process that is held: its registers are restored, and its state is
    `.running`. -/
theorem dispatch (h : Sound k free ready waiting (r :: held)) :
    ∃ k', exec (Kernel.dispatch r) k = (.ok (), k') ∧ SameSetting k k'
      ∧ k'.userPool = k.userPool ∧ k'.running = some r
      ∧ k'.machine.cpu = r.restoreContext k.memory k.machine.cpu
      ∧ k'.memory = r.setState k.memory .running
      ∧ Sound k' free ready waiting (r :: held) := by
  have hstate : Memory.SameOn (· ∉ r.span) k.memory (r.setState k.memory .running) :=
    Record.sameOn_set
  refine ⟨_, rfl, ⟨rfl, rfl, rfl, rfl⟩, rfl, rfl, rfl, rfl,
    ⟨h.toFramed.of_frame rfl, ?_, ?_⟩⟩
  · exact h.ledger.frame (hstate.mono fun a ha => ha.2 r List.mem_cons_self)
  · exact h.standing_congr (h.untouched_others (hstate.mono fun _ ha => ha.2)).kept

/-- The turn of a process is the time slice that the machine runs for it, `Machine.runSlice` with
    the kernel as the trap handler. -/
theorem exec_runProcess (k : Kernel) (r : Record) :
    exec (Kernel.runProcess r) k =
      let ended := (Machine.runSlice (Service.handler r) k.config.timeSlice k.machine).value
      (.ok ended.outcome, { k with machine := ended.machine, running := none }) := by
  show (Machine.runSlice (Service.handler r) k.config.timeSlice k.machine >>= fun ended =>
    pure (Except.ok ended.outcome, { k with machine := ended.machine, running := none })).value = _
  rw [Logged.value_bind, Logged.value_pure]

/-- **The program of a process.**  It leaves every queue and the pool of records alone, whatever it
    does: the machine stays `Contained`. -/
theorem runProcess (h : Sound k free ready waiting held) (r : Record) :
    ∃ status k', exec (Kernel.runProcess r) k = (.ok status, k') ∧ SameSetting k k'
      ∧ Sound k' free ready waiting held
      ∧ Guest.Contained k.config.layout k.memory k'.machine := by
  have hL := h.valid.layout
  -- The machine of the kernel is one that a program may have, so that isolation applies.
  have hstart : Guest.Contained k.config.layout k.memory k.machine :=
    ⟨h.layout, h.userRegion, Memory.SameOn.refl _ _⟩
  have hend := hstart.runSlice (r := r) hL k.config.timeSlice
  refine ⟨_, _, exec_runProcess k r, ⟨rfl, rfl, rfl, rfl⟩,
    ⟨⟨h.valid, hend.layout, h.osRegion, hend.region, h.readyRegion, h.waitRegion⟩, ?_, ?_⟩, hend⟩
  · exact h.ledger.frame ((hend.osPool hL).mono fun a ha => ha.1)
  · exact h.standing_congr (h.untouched_outside (hend.osPool hL)).kept

/-- A process that leaves the processor keeps its registers in its record: memory is
    `r.saveContext k.memory k.machine.cpu`. -/
theorem saveContext (h : Sound k free ready waiting (r :: held)) :
    ∃ k', exec (Kernel.saveContext r) k = (.ok (), k') ∧ SameGuest k k'
      ∧ Sound k' free ready waiting (r :: held)
      ∧ k'.memory = r.saveContext k.memory k.machine.cpu :=
  ⟨k.withMemory (r.saveContext k.memory k.machine.cpu), exec_modify _ k,
    ⟨⟨rfl, rfl, rfl, rfl⟩, rfl, rfl, rfl⟩,
    h.withMemory (Record.sameOn_saveContext.mono fun _ ha => ha.2 r List.mem_cons_self), rfl⟩

/-- A process is put aside once its registers are saved, whatever place it gets. -/
theorem putAside (h : Sound k free ready waiting (r :: held)) {k' : Kernel} (hsame : SameUser k k')
    (hslots : ∀ s, s.isScheduling = false →
      r.get k'.memory s = r.get (r.saveContext k.memory k.machine.cpu) s) : PutAside r k k' := by
  have hwithin := h.ledger.within h.fits (x := r) (List.mem_append_right _ List.mem_cons_self)
  refine ⟨hsame, ?_, fun s hs => ?_⟩
  · exact (Record.saved_saveContext h.fits hwithin k.machine.cpu).congr fun s hs =>
      hslots s (Slot.isScheduling_of_isKernels hs)
  · obtain ⟨hkernels, hscheduling⟩ := Slot.isScheduling_of_isLasting hs
    rw [hslots s hscheduling, Record.get_saveContext hkernels]

/-- A process that waits is the newest one, `r :: waiting`, and its record says what it waits
    for. -/
theorem block (h : Sound k free ready waiting (r :: held)) (reason : WaitReason)
    (hne : reason ≠ .none) :
    ∃ k', exec (Kernel.block r reason) k = (.ok (.blocked reason), k') ∧ PutAside r k k'
      ∧ r.reason? k'.memory = some reason ∧ Sound k' free ready (r :: waiting) held
      ∧ Record.Kept (ready ++ waiting ++ held) k.memory k'.memory := by
  have hwithin := h.ledger.within h.fits (x := r) (List.mem_append_right _ List.mem_cons_self)
  obtain ⟨k₁, hsave, hsame₁, h₁, hmem₁⟩ := h.saveContext
  obtain ⟨k₂, hreason, hsame₂, h₂, hmem₂⟩ :=
    h₁.modifyMemory (f := (r.setReason · reason)) Record.sameOn_set
  have hmarked : r.reason? k₂.memory = some reason := by
    rw [hmem₂]
    exact Record.reason?_setReason h.fits hwithin reason
  obtain ⟨k₃, hwait, hsame₃, h₃, hlinks⟩ := h₂.makeWaiting hne hmarked
  -- First the record itself changes, and then links.
  have hrecord : Memory.SameOn (· ∉ r.span) k.memory k₂.memory := by
    rw [hmem₂, hmem₁]
    exact Record.sameOn_saveContext.trans Record.sameOn_set
  obtain ⟨hkept, hslots⟩ := h₂.kept_linkedIn hlinks fun x hx => List.mem_append_right _ hx
  refine ⟨k₃, ?_, h.putAside ⟨(hsame₁.trans hsame₂).trans hsame₃, ?_⟩ fun s hs => ?_,
    (hlinks.marks h.fits hwithin List.mem_cons_self).2.trans hmarked, h₃,
    (h.untouched_others (hrecord.mono fun _ ha => ha.2)).kept.trans hkept⟩
  · rw [Kernel.block, exec_bind_ok hsave, exec_bind_ok hreason, exec_bind_ok hwait]
    rfl
  · refine (hrecord.mono fun a ha hin => ha (hwithin.mem_of_span hin)).trans
      (hlinks.frame_setState.mono fun a ha x hx hin => ha ?_)
    rcases List.mem_cons.mp hx with rfl | hx
    · exact hwithin.mem_of_span hin
    · exact (h.ledger.waitChain.records_within x hx).mem_of_span hin
  · rw [hslots s hs, hmem₂, hmem₁]
    exact Record.get_set_of_ne (Slot.ne_of_isScheduling hs).2.2.symm

/-- A process whose program has ended is ended: its record becomes the free block `Ledger.freed r`,
    and its stack is given back. -/
theorem finish (h : Sound k free ready waiting (r :: held)) (notice : Notice)
    (outcome : CycleOutcome) :
    ∃ k', exec (do note notice; Kernel.terminate r; return outcome) k = (.ok outcome, k')
      ∧ SameSetting k k' ∧ StackReturned r k k' ∧ Sound k' (Ledger.freed r :: free) ready waiting held
      ∧ Record.Kept (ready ++ waiting ++ held) k.memory k'.memory := by
  obtain ⟨k', hterminate, hsame, hstack, h', hframe⟩ := h.terminate
  refine ⟨k', ?_, hsame, hstack, h', Record.Untouched.kept ?_⟩
  · rw [exec_bind_ok (exec_note _ _), exec_bind_ok hterminate]
    rfl
  · exact h.untouched_others (hframe.mono fun a ha =>
      ⟨fun huser => h.valid.layout.not_mem_osPool huser ha.1, ha.2⟩)

/-- A process whose time slice is used up is ready again, at the place of its priority: the queue is
    `ahead ++ r :: behind`. -/
theorem preempt (h : Sound k free ready waiting (r :: held))
    (hreason : r.reason? k.memory = some .none) :
    ∃ k' ahead behind, r.Place k'.memory ready ahead behind
      ∧ exec (do Kernel.saveContext r; Kernel.makeReady r; return CycleOutcome.preempted) k
        = (.ok .preempted, k')
      ∧ PutAside r k k' ∧ Sound k' free (ahead ++ r :: behind) waiting held
      ∧ Record.Kept (ready ++ waiting ++ held) k.memory k'.memory := by
  obtain ⟨ahead, behind, k₁, k₂, hplace, hsave, hmake, hsame, h', hkept, hslots⟩ :=
    h.resume (f := (r.saveContext · k.machine.cpu)) (fun m => Record.sameOn_saveContext)
      ((Record.reason?_congr (Record.get_saveContext rfl)).trans hreason)
  -- Saving the registers is a change of memory, written the other way.
  have hsave' : exec (Kernel.saveContext r) k = (.ok (), k₁) := by
    rw [Kernel.modifyMemory, exec_modify] at hsave
    rw [Kernel.saveContext, exec_modify]
    exact hsave
  refine ⟨k₂, ahead, behind, hplace, ?_, h.putAside hsame hslots, h', hkept⟩
  rw [exec_bind_ok hsave', exec_bind_ok hmake]
  rfl

/-- **A place for the process.**  However its turn has ended, it is ready, waits or is a free block
    afterwards (`Placed`).  If it goes on, it is put aside, and otherwise its stack is given back;
    all other processes are as they were. -/
theorem settle (h : Sound k free ready waiting (r :: held))
    (hreason : r.reason? k.memory = some .none) (pid : Word) (status : Except Fault Status) :
    ∃ k' free' ready' waiting', exec (Kernel.settle r pid status) k = (.ok (.ofStatus status), k')
      ∧ SameSetting k k'
      ∧ Placed k'.memory r free ready waiting (.ofStatus status) free' ready' waiting'
      ∧ Sound k' free' ready' waiting' held
      ∧ Record.Kept (ready ++ waiting ++ held) k.memory k'.memory
      ∧ LeftBehind r (.ofStatus status) k k' := by
  -- One case for each way in which the run of the program can end.
  cases status with
  | error fault =>
    obtain ⟨k', hexec, hsame, hstack, h', hkept⟩ :=
      h.finish (.faulted pid k.registers.pc fault) (.faulted fault)
    refine ⟨k', _, _, _, ?_, hsame, .faulted fault, h', hkept, .ended rfl hstack⟩
    rw [Kernel.settle, exec_bind_ok (exec_get _), hexec]
    rfl
  | ok status =>
    cases status with
    | halted =>
      obtain ⟨k', hexec, hsame, hstack, h', hkept⟩ := h.finish (.halted pid) .terminated
      exact ⟨k', _, _, _, hexec, hsame, .terminated, h', hkept, .ended rfl hstack⟩
    | waitingForInput =>
      obtain ⟨k', hexec, haside, htold, h', hkept⟩ := h.block .inputCompletion (by simp)
      exact ⟨k', _, _, _, hexec, haside.toSameSetting, .blocked _ htold, h', hkept,
        .goesOn rfl haside⟩
    | waitingForOutput =>
      obtain ⟨k', hexec, haside, htold, h', hkept⟩ := h.block .outputCompletion (by simp)
      exact ⟨k', _, _, _, hexec, haside.toSameSetting, .blocked _ htold, h', hkept,
        .goesOn rfl haside⟩
    | timeSliceExpired =>
      obtain ⟨k', ahead, behind, hplace, hexec, haside, h', hkept⟩ := h.preempt hreason
      exact ⟨k', _, _, _, hexec, haside.toSameSetting, .preempted hplace, h', hkept,
        .goesOn rfl haside⟩
    | ok =>
      obtain ⟨k', ahead, behind, hplace, hexec, haside, h', hkept⟩ := h.preempt hreason
      exact ⟨k', _, _, _, hexec, haside.toSameSetting, .preempted hplace, h', hkept,
        .goesOn rfl haside⟩

/-- **The first ready process gets the processor**: it leaves the ready queue and is `Dispatched`,
    and all others are kept. -/
theorem getsProcessor (h : Sound k free (r :: ready) waiting []) :
    ∃ k₁ start, exec Kernel.popReady k = (.ok (some r), k₁)
      ∧ exec (Kernel.dispatch r) k₁ = (.ok (), start) ∧ r.pid k₁.memory = r.pid k.memory
      ∧ Dispatched r k start ∧ Sound start free ready waiting [r]
      ∧ Record.Kept (ready ++ waiting) k.memory start.memory := by
  obtain ⟨k₁, hpop, hsame₁, h₁, hlinks⟩ := h.popReady_cons
  obtain ⟨start, hdispatch, hsame₂, huser, -, hcpu, hmem, h₂⟩ := h₁.dispatch
  have hwithin := h.ledger.within h.fits (x := r) (by simp)
  have hfirst : Record.Kept (r :: ready ++ waiting ++ []) k.memory k₁.memory :=
    h.kept_links hlinks fun x hx => List.mem_append_left _ hx
  -- After the links only the state of the record changes.
  have hstate : Memory.SameOn (· ∉ r.span) k₁.memory start.memory := by
    rw [hmem]
    exact Record.sameOn_set
  have hothers := (h₁.untouched_others (hstate.mono fun _ ha => ha.2)).kept
  rw [List.append_nil] at hfirst hothers
  have hslots : ∀ s, s.isScheduling = false → r.get start.memory s = r.get k.memory s := by
    intro s hs
    obtain ⟨hnext, hne, -⟩ := Slot.ne_of_isScheduling hs
    rw [hmem, Record.setState, Record.get_set_of_ne hne.symm]
    exact hfirst.get r List.mem_cons_self s hnext
  refine ⟨k₁, start, hpop, hdispatch, hfirst.get r List.mem_cons_self .pid (by simp),
    ⟨hsame₁.toSameSetting.trans hsame₂, huser.trans hsame₁.userPool, ?_, hslots, ?_, ?_, ?_⟩, h₂,
    (hfirst.mono fun x hx => List.mem_cons_of_mem _ hx).trans hothers⟩
  · rw [hcpu, hsame₁.cpu]
    exact Record.restoreContext_congr (fun s hs =>
      hfirst.get r List.mem_cons_self s (Slot.ne_of_isScheduling hs).1) _
  · rw [hmem]
    exact Record.get_set_self h.fits hwithin
  · rw [hmem, Record.setState, Record.get_set_of_ne (by simp)]
    exact hfirst.get r List.mem_cons_self .reason (by simp)
  · exact (h.frame_links hlinks fun x hx => List.mem_append_left _ hx).trans
      (hstate.mono fun a ha hin => ha (hwithin.mem_of_span hin))

/-- **The turn of the first ready process.**  It gets the processor (`start`), its program runs
    (`stop`), and it finds its next place; all other processes are as they were.  None of these
    parts can fail. -/
theorem turn (h : Sound k free (r :: ready) waiting []) :
    ∃ start stop status k' free' ready' waiting',
      Turn r k start stop status k' ∧ Dispatched r k start
      ∧ Guest.Contained k.config.layout start.memory stop.machine ∧ SameSetting k k'
      ∧ Placed k'.memory r free ready waiting (.ofStatus status) free' ready' waiting'
      ∧ Sound k' free' ready' waiting' []
      ∧ Record.Kept (ready ++ waiting) k.memory k'.memory
      ∧ LeftBehind r (.ofStatus status) stop k' := by
  obtain ⟨k₁, start, hpop, hdispatch, hnumber, hstart, h₂, hkept₂⟩ := h.getsProcessor
  obtain ⟨status, stop, hrun, hsame₃, h₃, hcontained⟩ := h₂.runProcess r
  have hconfig := hstart.config
  -- The program leaves all records alone, also that of its own process.
  have hkept₃ : Record.Kept (ready ++ waiting ++ [r]) start.memory stop.memory :=
    (h₂.untouched_outside (hcontained.osPool h₂.valid.layout)).kept
  have hreason : r.reason? stop.memory = some .none :=
    (Record.reason?_congr ((hkept₃.get r (by simp) .reason (by simp)).trans hstart.reason)).trans
      (h.standing.ready r List.mem_cons_self).reason
  obtain ⟨k', free', ready', waiting', hsettle, hsame₄, hplaced, h', hkept₄, hleft⟩ :=
    h₃.settle hreason (r.pid k.memory) status
  rw [List.append_nil] at hkept₄
  rw [hconfig] at hcontained
  exact ⟨start, stop, status, k', free', ready', waiting',
    ⟨hpop, hnumber, hdispatch, hrun, hsettle⟩, hstart, hcontained,
    (hstart.toSameSetting.trans hsame₃).trans hsame₄, hplaced, h',
    (hkept₂.trans (hkept₃.mono fun x hx => List.mem_append_left _ hx)).trans hkept₄, hleft⟩

/-- **A scheduling cycle.**  It cannot fail, whatever the program does.  With no process ready the
    result is `none` and nothing happens; otherwise the first one gets its turn and finds its next
    place. -/
theorem cycle (h : Sound k free ready waiting []) :
    (ready = [] ∧ exec Kernel.cycle k = (.ok none, k)) ∨
      ∃ r rest report k' free' ready' waiting', ready = r :: rest
        ∧ exec Kernel.cycle k = (.ok (some report), k') ∧ SameSetting k k'
        ∧ report.pid = r.pid k.memory
        ∧ Placed k'.memory r free rest waiting report.outcome free' ready' waiting'
        ∧ Sound k' free' ready' waiting' []
        ∧ Record.Kept (rest ++ waiting) k.memory k'.memory
        ∧ (report.outcome.goesOn = true → ∀ s, s.isLasting = true →
          r.get k'.memory s = r.get k.memory s) := by
  cases ready with
  | nil =>
    refine .inl ⟨rfl, ?_⟩
    rw [Kernel.cycle, exec_bind_ok h.popReady_nil, exec_bind_ok (exec_note _ _)]
    rfl
  | cons r rest =>
    obtain ⟨start, stop, status, k', free', ready', waiting', hturn, hstart, hcontained, hsame, hplaced,
      h', hkept, hleft⟩ := h.turn
    refine .inr ⟨r, rest, _, k', free', ready', waiting', rfl, hturn.exec_cycle, hsame, rfl, hplaced, h',
      hkept, fun hgo s hs => ?_⟩
    exact hstart.get_lasting h.valid.layout (h.ledger.within h.fits (by simp)) hcontained
      (hleft.putAside hgo) hs

end Sound

end Kernel

end Timeshare
