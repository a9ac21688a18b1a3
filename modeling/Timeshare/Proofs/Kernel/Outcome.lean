import Timeshare.Proofs.Kernel.Waiting
import Timeshare.Proofs.Machine.Faults
import Timeshare.Proofs.Machine.Slice

namespace Timeshare

/-!
# What a scheduling cycle comes to

A cycle with a process ready always succeeds, however the program of the process ends.  Here its outcome,
and what is found in the queues and pools afterwards, are told together.

* `WaitReason.isAskedBy` — the system call that lets a process wait for something.
* `Kernel.Disbanded p k stop k'` — the process `p` is a free block, and its stack went to the user pool.
* `Kernel.Settled p rest waiting k stop k' outcome` — what a cycle has done that ends with an outcome.
* `Kernel.Turn.ends_by_itself` — the program of the process comes to an end within its time slice.
* `Kernel.Reachable.cycle_settles` — all of this, for every kernel that comes about.
-/

open Timeshare.Action

/-- The system call with which a process asks for what it waits for: 8 for a character, 9 for an output. -/
def WaitReason.isAskedBy (reason : WaitReason) (call : Word) : Prop :=
  (call = 8 ∧ reason = .inputCompletion) ∨ (call = 9 ∧ reason = .outputCompletion)

/-- A process that begins to wait has made the system call for it. -/
theorem Moment.isAskedBy_of_waits {m : Moment} {reason : WaitReason} {w : Word}
    (h : m.waits? = some (reason, w)) :
    ∃ call env, m.machine.call? = some (call, env) ∧ reason.isAskedBy call := by
  obtain ⟨⟨call, env⟩, hcall, hwaits⟩ := Option.bind_eq_some_iff.mp h
  refine ⟨call, env, hcall, ?_⟩
  dsimp only at hwaits
  split at hwaits
  · rename_i hinput
    exact .inl ⟨hinput, (Prod.mk.inj (Option.some.inj hwaits)).1.symm⟩
  · split at hwaits
    · rename_i houtput
      exact .inr ⟨houtput, (Prod.mk.inj (Option.some.inj hwaits)).1.symm⟩
    · exact absurd hwaits (by simp)

namespace Kernel

variable {k k' start stop : Kernel} {free free' : List FreeBlock} {rest waiting : List Record}
variable {ready' waiting' : List Record} {p : Record} {status : Except Fault Status}
variable {config : Config} {catalog : Catalog}

/-! ### The end of a process -/

/-- The process `p` has ended.  Its record is the first free block of its pool, which has 22 words
    more, and its stack was offered to the user pool as the program has left it in `stop`. -/
structure Disbanded (p : Record) (k stop k' : Kernel) : Prop extends StackReturned p stop k' where
  freed : ∃ blocks, (k.osPool.blocks k.memory).outcome = .ok blocks
    ∧ (k'.osPool.blocks k'.memory).outcome = .ok (⟨p.address, recordSize⟩ :: blocks)
  gained : ∃ w w', (k.osPool.freeWords k.memory).outcome = .ok w
    ∧ (k'.osPool.freeWords k'.memory).outcome = .ok w' ∧ w'.toInt = w.toInt + 22

/-- A process whose record has become a free block is disbanded. -/
theorem Sound.disbanded (h : Sound k free (p :: rest) waiting [])
    (h' : Sound k' (Ledger.freed p :: free) rest waiting []) (hconfig : k'.config = k.config)
    (hstack : StackReturned p stop k') : Disbanded p k stop k' := by
  refine ⟨hstack, ⟨free, h.osBlocks, h'.osBlocks⟩, ?_⟩
  -- The words of the pool are those of its free blocks and 22 for each process.
  obtain ⟨w, hw, hcount⟩ := h.freeWords
  obtain ⟨w', hw', hcount'⟩ := h'.freeWords
  rw [hconfig] at hcount'
  simp only [List.length_cons, List.length_nil] at hcount hcount'
  exact ⟨w, w', hw, hw', by omega⟩

/-! ### All outcomes -/

/-- What a cycle has done in which the process `p` had its turn, with the processes `rest` ready behind it
    and others waiting.  It is ready again behind all that do not have a lower priority, or it is the
    newest of those that wait, for what it has asked for with its last instruction, or it has ended. -/
def Settled (p : Record) (rest waiting : List Record) (k stop k' : Kernel) : CycleOutcome → Prop
  | .preempted => ∃ ahead behind, p.Place k.memory rest ahead behind
      ∧ k'.readyRecords = .ok (ahead ++ p :: behind) ∧ k'.waitingRecords = .ok waiting
  | .blocked reason => k'.readyRecords = .ok rest ∧ k'.waitingRecords = .ok (p :: waiting)
      ∧ p.reason? k'.memory = some reason
      ∧ ∃ ms m call env, k.moments = ms ++ [m] ∧ m.process = p
        ∧ m.machine.call? = some (call, env) ∧ reason.isAskedBy call
  | .terminated => k'.readyRecords = .ok rest ∧ k'.waitingRecords = .ok waiting ∧ Disbanded p k stop k'
  | .faulted e => k'.readyRecords = .ok rest ∧ k'.waitingRecords = .ok waiting ∧ Disbanded p k stop k'
      ∧ e.isPrograms = true

/-- The program of a process that has its turn has no faults but those of programs:
    `e.isPrograms = true`. -/
theorem Turn.fault {e : Fault} (h : Turn p k start stop (.error e) k') : e.isPrograms = true := by
  obtain @⟨k₁, -, -, -, hrun, -⟩ := h
  rw [Sound.exec_runProcess] at hrun
  exact Machine.runSlice_fault (fun call => Service.raises_handler p call)
    (Except.ok.inj (Prod.mk.inj hrun).1)

/-- **The program comes to an end within its time slice**, however many turns its run may take: with
    `fuel` from `Machine.sliceFuel` on, the run has the same end. -/
theorem Turn.ends_by_itself (h : Turn p k start stop status k') :
    ∃ meter, ∀ fuel, Machine.sliceFuel start.config.timeSlice ≤ fuel →
      (Machine.run (Service.handler p) fuel (.slice (.fresh start.config.timeSlice))
        start.machine).value = .inl ⟨status, meter, stop.machine⟩ := by
  obtain @⟨k₁, -, -, -, hrun, -⟩ := h
  rw [Sound.exec_runProcess] at hrun
  obtain ⟨hstatus, rfl⟩ := Prod.mk.inj hrun
  refine ⟨(Machine.runSlice (Service.handler p) start.config.timeSlice start.machine).value.meter,
    fun fuel hfuel => ?_⟩
  rw [Machine.run_eq_inl _ _ _ hfuel, ← Except.ok.inj hstatus]

/-- **A turn settles its process**: `Settled` for the outcome that the turn has. -/
theorem Turn.settled (h : Turn p k start stop status k') (hk : Sound k free (p :: rest) waiting [])
    (hstart : Dispatched p k start)
    (hcontained : Guest.Contained k.config.layout start.memory stop.machine) (hsame : SameSetting k k')
    (hplaced : Placed k'.memory p free rest waiting (.ofStatus status) free' ready' waiting')
    (hk' : Sound k' free' ready' waiting' []) (hkept : Record.Kept (rest ++ waiting) k.memory k'.memory)
    (hleft : LeftBehind p (.ofStatus status) stop k') :
    Settled p rest waiting k stop k' (.ofStatus status) := by
  have hwithin := hk.ledger.within hk.fits (x := p) (by simp)
  generalize houtcome : CycleOutcome.ofStatus status = outcome at hplaced hleft ⊢
  -- One case for each place that the process can find.
  cases hplaced with
  | preempted hplace =>
    have hpriority := hstart.get_lasting hk.valid.layout hwithin hcontained (hleft.putAside rfl)
      (s := .priority) rfl
    have hrest : Record.Kept rest k.memory k'.memory := hkept.mono fun _ hx => List.mem_append_left _ hx
    exact ⟨_, _, hplace.congr hrest.symm hpriority.symm, hk'.readyRecords, hk'.waitingRecords⟩
  | blocked reason told =>
    obtain ⟨ms, m, hms, hwaits⟩ := h.waits hstart hk.toFramed houtcome
    obtain ⟨call, env, hcall, hasked⟩ := Moment.isAskedBy_of_waits hwaits
    obtain ⟨hprocess, -⟩ := h.contained hstart hk.toFramed m (by rw [hms]; simp)
    exact ⟨hk'.readyRecords, hk'.waitingRecords, told, ms, m, call, env, hms, hprocess, hcall, hasked⟩
  | terminated =>
    exact ⟨hk'.readyRecords, hk'.waitingRecords, hk.disbanded hk' hsame.config (hleft.stack rfl)⟩
  | faulted e =>
    obtain rfl : status = .error e := CycleOutcome.ofStatus_eq_faulted houtcome
    exact ⟨hk'.readyRecords, hk'.waitingRecords, hk.disbanded hk' hsame.config (hleft.stack rfl), h.fault⟩

/-- **One scheduling cycle.**  In every kernel that comes about, a cycle in which a process is ready
    succeeds and reports the number of the first one.  Its program comes to an end by itself, and the
    process is settled.  Of all other records nothing has changed but links, and neither has the number
    of the next process, nor whether the kernel is shut down. -/
theorem Reachable.cycle_settles (h : Reachable config catalog k)
    (hready : k.readyRecords = .ok (p :: rest)) :
    ∃ waiting start stop status k', k.waitingRecords = .ok waiting ∧ Turn p k start stop status k'
      ∧ exec Kernel.cycle k = (.ok (some ⟨p.pid k.memory, .ofStatus status, k'.clock⟩), k')
      ∧ (∃ meter, ∀ fuel, Machine.sliceFuel config.timeSlice ≤ fuel →
        (Machine.run (Service.handler p) fuel (.slice (.fresh config.timeSlice))
          start.machine).value = .inl ⟨status, meter, stop.machine⟩)
      ∧ Settled p rest waiting k stop k' (.ofStatus status)
      ∧ Record.Kept (rest ++ waiting) k.memory k'.memory
      ∧ k'.nextPid = k.nextPid ∧ k'.isShutDown = k.isShutDown := by
  obtain ⟨rfl, rfl, free, ready, waiting, hk⟩ := h.atRest
  obtain rfl := Except.ok.inj (hk.readyRecords.symm.trans hready)
  obtain ⟨start, stop, status, k', free', ready', waiting', hturn, hstart, hcontained, hsame, hplaced,
    hk', hkept, hleft⟩ := hk.turn
  have hend := hturn.ends_by_itself
  rw [hstart.config] at hend
  exact ⟨waiting, start, stop, status, k', hk.waitingRecords, hturn, hturn.exec_cycle, hend,
    hturn.settled hk hstart hcontained hsame hplaced hk' hkept hleft, hkept, hsame.nextPid,
    hsame.isShutDown⟩

/-- Of two processes that are ready, the first one asks for a character and waits for it. -/
theorem Reachable.cycle_settles_input :
    let config : Config := { layout := ⟨⟨0, 9⟩, ⟨10, 29⟩, ⟨30, 89⟩⟩, stackSize := 2 }
    let catalog := Catalog.ofList [("ask", ⟨[(0, 126000), (1, 8), (2, 0)], 0⟩)]
    let p : Record := ⟨⟨30, by decide⟩⟩
    let q : Record := ⟨⟨52, by decide⟩⟩
    ∃ k k', Reachable config catalog k ∧ k.readyRecords = .ok [p, q] ∧ k.waitingRecords = .ok []
      ∧ exec Kernel.cycle k = (.ok (some ⟨1, .blocked .inputCompletion, k'.clock⟩), k')
      ∧ k'.readyRecords = .ok [q] ∧ k'.waitingRecords = .ok [p] := by
  intro config catalog p q
  obtain ⟨k₀, hboot, hready, hwaiting, hpid, houtcome⟩ :
      ∃ k₀, (Kernel.boot config catalog).outcome = .ok k₀ ∧
        let k := k₀.after [.create "ask" 1, .create "ask" 1]
        k.readyRecords.toOption = some [p, q] ∧ k.waitingRecords.toOption = some []
          ∧ p.pid k.memory = 1
          ∧ (exec Kernel.cycle k).1.toOption.join.map (·.outcome) = some (.blocked .inputCompletion) :=
    exists_boot (by decide +kernel)
  have hk : Reachable config catalog (k₀.after [.create "ask" 1, .create "ask" 1]) :=
    (Reachable.boot hboot).after _
  obtain ⟨-, -, _, ready, waiting, h⟩ := hk.atRest
  rw [h.readyRecords] at hready
  rw [h.waitingRecords] at hwaiting
  obtain rfl : ready = [p, q] := Option.some.inj hready
  obtain rfl : waiting = [] := Option.some.inj hwaiting
  obtain ⟨_, start, stop, status, k', hwaiting, -, hcycle, -, hsettled, -⟩ :=
    hk.cycle_settles h.readyRecords
  obtain rfl := Except.ok.inj (hwaiting.symm.trans h.waitingRecords)
  rw [hcycle] at houtcome
  have hblocked : CycleOutcome.ofStatus status = .blocked .inputCompletion := Option.some.inj houtcome
  rw [hpid, hblocked] at hcycle
  rw [hblocked] at hsettled
  obtain ⟨hready', hwaiting', -⟩ := hsettled
  exact ⟨_, k', hk, h.readyRecords, hwaiting, hcycle, hready', hwaiting'⟩

end Kernel

end Timeshare
