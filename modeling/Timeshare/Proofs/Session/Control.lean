import Timeshare.Kernel.Snapshot
import Timeshare.Proofs.Kernel.Reachable
import Timeshare.Session.Control

namespace Timeshare

/-!
# The control loop on a kernel that comes about

* `Session.turn_ends` — a turn of the loop cannot fail.  Where the loop goes on, one more cycle has
  been counted.
* `Session.turns_invariant` — what turns preserve holds when the loop ends.
* `Session.turns_ends` — the loop ends by itself, before it has used up its turns.
* `Session.run_ends` — a run of the control loop succeeds, and leaves a kernel that is shut down.
* `Kernel.Dependable k`, `Kernel.Reachable.dependable` — what can be relied on in a kernel that comes
  about.
-/

/-! ### What is counted -/

namespace Summary

@[simp] theorem allCycles_addEvent (s : Summary) (o : InterruptOutcome) :
    (s.addEvent o).allCycles = s.allCycles := by
  cases o <;> rfl

@[simp] theorem allCycles_addFailure (s : Summary) : s.addFailure.allCycles = s.allCycles := rfl

@[simp] theorem allCycles_addCycle (s : Summary) (r : CycleReport) :
    (s.addCycle r).allCycles = s.allCycles + 1 := by
  unfold addCycle
  split <;> exact Nat.add_right_comm _ _ _

@[simp] theorem allCycles_addIdle (s : Summary) : s.addIdle.allCycles = s.allCycles + 1 := rfl

end Summary

namespace Session

open Timeshare.Action

variable {config : Config} {catalog : Catalog} {maxCycles : Nat} {s : Session}

/-! ### Turns -/

/-- The loop has a reason to end: the kernel is shut down, the limit `maxCycles` is reached, or
    there is no next event. -/
def IsOver (maxCycles : Nat) (s : Session) : Prop :=
  s.kernel.isShutDown = true ∨ s.isSpent maxCycles = true ∨ s.nextEvent? = none

/-- The delivery of an event cannot fail and leaves a kernel that comes about; after a shutdown this
    is shut down. -/
theorem deliver_ends (h : Kernel.Reachable config catalog s.kernel) (event : Interrupt) :
    Ends (deliver event) s
      (fun _ t => Kernel.Reachable config catalog t.kernel ∧ t.summary.allCycles = s.summary.allCycles
        ∧ (event = .shutdown → t.kernel.isShutDown = true))
      (fun _ _ => False) := by
  -- Whether the kernel can handle the event or not, what it leaves comes about as well.
  have hnext := h.interrupt event
  have hshut : event = .shutdown → (exec (Kernel.interrupt event) s.kernel).2.isShutDown = true := by
    rintro rfl
    obtain ⟨-, -, _, _, _, hk⟩ := h.atRest
    obtain ⟨_, _, hexec, -, -, hdown, -⟩ := hk.shutDown
    rw [Kernel.interrupt, hexec]
    exact hdown
  unfold deliver onKernel record
  rcases hexec : exec (Kernel.interrupt event) s.kernel with ⟨e | outcome, k⟩ <;>
    rw [hexec] at hnext hshut
  · simp only [ends_bind, ends_observe, ends_zoom, ends_of_error hexec, ends_note, ends_modify]
    exact ⟨hnext, Summary.allCycles_addFailure _, hshut⟩
  · simp only [ends_bind, ends_observe, ends_zoom, ends_of_ok hexec, ends_modify]
    exact ⟨hnext, Summary.allCycles_addEvent _ _, hshut⟩

/-- A scheduling cycle cannot fail, and is counted in `allCycles`. -/
theorem cycle_ends (h : Kernel.Reachable config catalog s.kernel) :
    Ends cycle s
      (fun _ t => Kernel.Reachable config catalog t.kernel
        ∧ t.summary.allCycles = s.summary.allCycles + 1)
      (fun _ _ => False) := by
  have hnext := h.cycle
  obtain ⟨-, -, _, _, _, hk⟩ := h.atRest
  unfold cycle onKernel record
  rcases hk.cycle with ⟨-, hexec⟩ | ⟨_, _, report, k, _, _, _, -, hexec, -⟩ <;> rw [hexec] at hnext
  · simp only [ends_bind, ends_zoom, ends_of_ok hexec, ends_modify]
    exact ⟨hnext, Summary.allCycles_addIdle _⟩
  · simp only [ends_bind, ends_zoom, ends_of_ok hexec, ends_get, ends_note, ends_modify]
    exact ⟨hnext, Summary.allCycles_addCycle _ _⟩

/-- Taking an event changes nothing else: it is the first of `s.events`, or `.none` when there are
    none left. -/
theorem nextEvent?_eq_some {event : Interrupt} {t : Session} (h : s.nextEvent? = some (event, t)) :
    t.kernel = s.kernel ∧ t.summary = s.summary ∧
      (s.events = event :: t.events ∨ (s.events = [] ∧ t.events = [] ∧ event = .none)) := by
  unfold nextEvent? at h
  split at h
  · rename_i hevents
    cases h
    exact ⟨rfl, rfl, .inl hevents⟩
  · rename_i hevents
    split at h
    · exact absurd h (by simp)
    · cases h
      exact ⟨rfl, rfl, .inr ⟨hevents, hevents, rfl⟩⟩

/-- There is no next event when none is left and no process is ready, and only then the loop has
    nothing to do. -/
theorem nextEvent?_eq_none (h : s.nextEvent? = none) :
    s.events = [] ∧ s.kernel.ready.isEmpty = true := by
  unfold nextEvent? at h
  split at h
  · exact absurd h (by simp)
  · rename_i hevents
    split at h
    · rename_i hempty
      exact ⟨hevents, hempty⟩
    · exact absurd h (by simp)

/-- **A turn of the loop** cannot fail.  It ends the loop with a reason (`IsOver`), or counts one
    more cycle. -/
theorem turn_ends (maxCycles : Nat) (h : Kernel.Reachable config catalog s.kernel) :
    Ends (turn maxCycles) s
      (fun goesOn t => Kernel.Reachable config catalog t.kernel ∧
        if goesOn then t.summary.allCycles = s.summary.allCycles + 1 else t.IsOver maxCycles)
      (fun _ _ => False) := by
  unfold turn
  rw [ends_bind, ends_get]
  by_cases hstop : (s.kernel.isShutDown || s.isSpent maxCycles) = true
  · simp only [hstop, if_true, ends_pure]
    rcases (Bool.or_eq_true _ _).mp hstop with hdown | hspent
    · exact ⟨h, .inl hdown⟩
    · exact ⟨h, .inr (.inl hspent)⟩
  -- Neither shut down nor at the limit: an event is taken and delivered, and a cycle follows it.
  simp only [hstop, Bool.false_eq_true, if_false]
  cases hevent : s.nextEvent? with
  | none => exact ⟨h, .inr (.inr hevent)⟩
  | some x =>
    obtain ⟨event, t⟩ := x
    obtain ⟨hkernel, hsummary, -⟩ := nextEvent?_eq_some hevent
    have ht : Kernel.Reachable config catalog t.kernel := hkernel ▸ h
    simp only [ends_bind, ends_set, ends_get]
    refine (deliver_ends ht event).mono ?_ fun _ _ hfail => hfail
    rintro - u ⟨hu, hcount, -⟩
    rw [hsummary] at hcount
    by_cases hdown : u.kernel.isShutDown = true
    · simp only [hdown, if_true, ends_pure]
      exact ⟨hu, .inl hdown⟩
    · simp only [hdown, Bool.false_eq_true, if_false, ends_bind, ends_pure]
      refine (cycle_ends hu).mono ?_ fun _ _ hfail => hfail
      rintro - v ⟨hv, hcount'⟩
      refine ⟨hv, ?_⟩
      show v.summary.allCycles = _
      rw [hcount', hcount]

/-! ### The loop -/

/-- A turn, as the loop takes it: its end, or the session that the loop goes on with. -/
def loopTurn (maxCycles : Nat) (s : Session) :
    Logged ((Except Fault Unit × Session) ⊕ Session) := do
  match (← (ExceptT.run (turn maxCycles)).run s) with
  | (.ok true, s) => return .inr s
  | (.ok false, s) => return .inl (.ok (), s)
  | (.error fault, s) => return .inl (.error fault, s)

/-- The loop is `Logged.loop` over `loopTurn`, with one turn more than `maxCycles` for the turn that
    finds the limit reached. -/
theorem exec_turns :
    exec (turns maxCycles) s =
      (Logged.loop (loopTurn maxCycles) (maxCycles + 1) s).value.elim id fun s => (.ok (), s) := by
  show (Logged.loop (loopTurn maxCycles) (maxCycles + 1) s >>= fun ended =>
    pure (ended.elim id fun s => (Except.ok (), s))).value = _
  rw [Logged.value_bind, Logged.value_pure]

/-- A turn, as the loop takes it, is a turn of the session: `true` goes on, `false` and a fault end
    the loop. -/
theorem value_loopTurn :
    (loopTurn maxCycles s).value =
      match exec (turn maxCycles) s with
      | (.ok true, t) => .inr t
      | (.ok false, t) => .inl (.ok (), t)
      | (.error fault, t) => .inl (.error fault, t) := by
  rw [loopTurn, Logged.value_bind, exec]
  rcases ((ExceptT.run (turn maxCycles)).run s).value with ⟨fault | goesOn, t⟩
  · rfl
  · cases goesOn <;> rfl

/-- What holds after `n` turns of the loop, `I n`, holds for every `n` when the loop takes its last
    turn, or when it has taken all of its turns. -/
theorem turns_invariant {I : Nat → Session → Prop}
    (hturn : ∀ n t, I n t → ∃ goesOn u, exec (turn maxCycles) t = (.ok goesOn, u)
      ∧ (goesOn = true → I (n + 1) u)) (h : I 0 s) :
    ∃ u, exec (turns maxCycles) s = (.ok (), u) ∧
      ((∃ n t, I n t ∧ exec (turn maxCycles) t = (.ok false, u)) ∨ I (maxCycles + 1) u) := by
  -- A turn of the loop that goes on is a turn of the session that returns `true`.
  have hstep : ∀ n t u, I n t → (loopTurn maxCycles t).value = .inr u → I (n + 1) u := by
    intro n t u ht hloop
    obtain ⟨goesOn, v, hexec, hv⟩ := hturn n t ht
    rw [value_loopTurn, hexec] at hloop
    cases goesOn with
    | false => exact absurd hloop (by simp)
    | true =>
      obtain rfl := Sum.inr.inj hloop
      exact hv rfl
  obtain ⟨hend, hgo⟩ := Logged.loop_invariant I hstep (maxCycles + 1) h
  rcases hloop : (Logged.loop (loopTurn maxCycles) (maxCycles + 1) s).value with ended | u
  · obtain ⟨n, t, ht, hlast⟩ := hend ended hloop
    obtain ⟨goesOn, u, hexec, -⟩ := hturn n t ht
    rw [value_loopTurn, hexec] at hlast
    cases goesOn with
    | true => exact absurd hlast (by simp)
    | false =>
      refine ⟨u, ?_, .inl ⟨n, t, ht, hexec⟩⟩
      rw [exec_turns, hloop, ← Sum.inl.inj hlast]
      rfl
  · refine ⟨u, ?_, .inr ?_⟩
    · rw [exec_turns, hloop]
      rfl
    · rw [← Nat.zero_add (maxCycles + 1)]
      exact hgo u hloop

/-- **The loop** ends with a reason: `t.IsOver maxCycles`.  If it took all of its turns, the limit
    would be reached. -/
theorem turns_ends (maxCycles : Nat) (h : Kernel.Reachable config catalog s.kernel) :
    Ends (turns maxCycles) s
      (fun _ t => Kernel.Reachable config catalog t.kernel ∧ t.IsOver maxCycles)
      (fun _ _ => False) := by
  -- The invariant counts the turns against the cycles.
  obtain ⟨u, hexec, hend⟩ := turns_invariant
    (I := fun n t => Kernel.Reachable config catalog t.kernel ∧ n ≤ t.summary.allCycles)
    (by
      rintro n t ⟨ht, hcount⟩
      obtain ⟨goesOn, v, hexec, hv, hnext⟩ := ends_ok_iff.mp (turn_ends maxCycles ht)
      refine ⟨goesOn, v, hexec, ?_⟩
      rintro rfl
      have hmore : v.summary.allCycles = t.summary.allCycles + 1 := hnext
      exact ⟨hv, by omega⟩) ⟨h, Nat.zero_le _⟩
  refine ends_ok_iff.mpr ⟨(), u, hexec, ?_⟩
  rcases hend with ⟨n, t, ⟨ht, -⟩, hlast⟩ | ⟨hu, hcount⟩
  · obtain ⟨goesOn, v, hexec, hv, hover⟩ := ends_ok_iff.mp (turn_ends maxCycles ht)
    cases hexec.symm.trans hlast
    exact ⟨hv, hover⟩
  · exact ⟨hu, .inr (.inl (decide_eq_true (by omega)))⟩

/-- The end of a run cannot fail and shuts the kernel down, if that has not happened yet. -/
theorem finish_ends (maxCycles : Nat) (h : Kernel.Reachable config catalog s.kernel) :
    Ends (finish maxCycles) s
      (fun _ t => Kernel.Reachable config catalog t.kernel ∧ t.kernel.isShutDown = true)
      (fun _ _ => False) := by
  have hshut : Ends (deliver .shutdown) s
      (fun _ t => Kernel.Reachable config catalog t.kernel ∧ t.kernel.isShutDown = true)
      (fun _ _ => False) := by
    refine (deliver_ends h .shutdown).mono ?_ fun _ _ hfail => hfail
    rintro - t ⟨ht, -, hdown⟩
    exact ⟨ht, hdown rfl⟩
  unfold finish
  rw [ends_bind, ends_get]
  by_cases hdown : s.kernel.isShutDown = true
  · simp only [hdown, Bool.not_true, Bool.false_eq_true, if_false, ends_bind, ends_get, ends_note]
    exact ⟨h, trivial⟩
  -- Spent or not, which makes a difference to the notices, the kernel is shut down.
  · by_cases hspent : s.isSpent maxCycles = true
    · simp only [hdown, Bool.not_false, if_true, hspent, ends_bind, ends_get, ends_note]
      exact hshut
    · simp only [hdown, Bool.not_false, if_true, hspent, Bool.false_eq_true, if_false, ends_bind,
        ends_get, ends_note]
      exact hshut

/-- **The control loop** never fails on a kernel that comes about, and shuts it down, whatever the
    events and the limit are. -/
theorem run_ends (maxCycles : Nat) (h : Kernel.Reachable config catalog s.kernel) :
    Ends (run maxCycles) s
      (fun _ t => Kernel.Reachable config catalog t.kernel ∧ t.kernel.isShutDown = true)
      (fun _ _ => False) := by
  unfold run
  simp only [ends_bind, ends_get, ends_pure]
  refine (turns_ends maxCycles h).mono ?_ fun _ _ hfail => hfail
  rintro - t ⟨ht, -⟩
  exact finish_ends maxCycles ht

end Session

/-! ### What programs cannot break -/

namespace Kernel

open Timeshare.Action

/-- What the kernel `k` promises, whatever its programs do. -/
structure Dependable (k : Kernel) : Prop where
  /-- A scheduling cycle succeeds. -/
  cycle : ∃ report, (exec Kernel.cycle k).1 = .ok report
  /-- An interrupt succeeds, unless it asks for a program. -/
  interrupt : ∀ i, (∀ program priority, i ≠ .runProgram program priority) →
    ∃ outcome, (exec (Kernel.interrupt i) k).1 = .ok outcome
  ready : ∃ rs, k.readyRecords = .ok rs
  waiting : ∃ rs, k.waitingRecords = .ok rs
  osBlocks : ∃ bs, (k.osPool.blocks k.memory).outcome = .ok bs
  /-- A snapshot fails for a damaged user pool only. -/
  snapshot : (∃ s, k.snapshot.outcome = .ok s) ↔
    ∃ bs, (k.userPool.blocks k.memory).outcome = .ok bs
  /-- Only the allocation of the record, the program and the allocation of the stack can stop a
      creation; naming the record, making the process ready and every roll-back succeed. -/
  create : ∀ program priority, (exec (Kernel.create program priority) k).1 = creation k program
  /-- A creation fails for want of memory, as the program does, or for a damaged user pool. -/
  creation_error : ∀ program e, creation k program = .error e →
    e = .noFreeMemory ∨ (k.catalog.load program k.memory k.config.layout).outcome = .error e ∨
      (e = .invalidMemoryAddress ∧ (k.userPool.blocks k.memory).outcome = .error e)
  /-- A creation that fails gives everything back. -/
  rollBack : ∀ program priority e k', exec (Kernel.create program priority) k = (.error e, k') →
    k'.readyRecords = k.readyRecords ∧ k'.waitingRecords = k.waitingRecords
      ∧ (k'.osPool.freeWords k'.memory).outcome = (k.osPool.freeWords k.memory).outcome
  /-- The control loop succeeds, whatever the events are. -/
  run : ∀ events maxCycles,
    ∃ summary, (exec (Session.run maxCycles) { kernel := k, events }).1 = .ok summary

variable {config : Config} {catalog : Catalog} {k : Kernel} {free : List FreeBlock}
  {ready waiting held : List Record}

/-- A snapshot looks at the queues and at the pools: it succeeds if the blocks of the user pool can
    be listed, and only then. -/
theorem Sound.snapshot (h : Sound k free ready waiting held) :
    (∃ s, k.snapshot.outcome = .ok s) ↔ ∃ bs, (k.userPool.blocks k.memory).outcome = .ok bs := by
  simp only [Kernel.snapshot, Attempt.outcome_seq, Attempt.outcome_ofExcept, h.readyRecords,
    h.waitingRecords, h.osBlocks, ok_bind, Attempt.outcome_pure]
  cases (k.userPool.blocks k.memory).outcome with
  | ok bs => exact ⟨fun _ => ⟨bs, rfl⟩, fun _ => ⟨_, rfl⟩⟩
  | error e => simp

/-- **A kernel that comes about never fails** because of a program: `Dependable k` for every `k`
    with `Reachable config catalog k`. -/
theorem Reachable.dependable (h : Reachable config catalog k) : Dependable k := by
  obtain ⟨-, -, free, ready, waiting, hk⟩ := h.atRest
  refine
    { cycle := ?_, interrupt := ?_, ready := ⟨ready, hk.readyRecords⟩,
      waiting := ⟨waiting, hk.waitingRecords⟩, osBlocks := ⟨free, hk.osBlocks⟩,
      snapshot := hk.snapshot, create := ?_,
      creation_error := fun program e he => hk.creation_error he, rollBack := ?_, run := ?_ }
  · rcases hk.cycle with ⟨-, hexec⟩ | ⟨_, _, report, _, _, _, _, -, hexec, -⟩
    · exact ⟨none, congrArg Prod.fst hexec⟩
    · exact ⟨some report, congrArg Prod.fst hexec⟩
  · intro i hi
    obtain ⟨outcome, _, _, _, _, hexec, -⟩ := hk.interrupt hi
    exact ⟨outcome, congrArg Prod.fst hexec⟩
  · intro program priority
    obtain ⟨_, hexec, -⟩ := hk.create program priority
    exact congrArg Prod.fst hexec
  · intro program priority e k' hfail
    exact hk.rollBack hfail
  · intro events maxCycles
    obtain ⟨summary, _, hexec, -⟩ := ends_ok_iff.mp
      (Session.run_ends maxCycles (s := { kernel := k, events }) h)
    exact ⟨summary, congrArg Prod.fst hexec⟩

/-- A kernel with two processes of which the first had a turn and waits for a character, while the
    second is ready. -/
theorem Reachable.dependable_turn :
    let config : Config := { layout := ⟨⟨0, 9⟩, ⟨10, 29⟩, ⟨30, 89⟩⟩, stackSize := 2 }
    let catalog := Catalog.ofList
      [("ask", ⟨[(0, 126000), (1, 8), (2, 0)], 0⟩), ("halt", ⟨[(3, 0)], 3⟩)]
    ∃ k, (Kernel.boot config catalog).outcome = .ok k ∧
      let k' := k.after [.create "ask" 2, .create "halt" 1, .cycle]
      k'.readyRecords = .ok [⟨⟨52, by decide⟩⟩] ∧ k'.waitingRecords = .ok [⟨⟨30, by decide⟩⟩]
        ∧ Dependable k' := by
  intro config catalog
  obtain ⟨k, hboot, hready, hwaiting⟩ : ∃ k, (Kernel.boot config catalog).outcome = .ok k ∧
      let k' := k.after [.create "ask" 2, .create "halt" 1, .cycle]
      k'.readyRecords = .ok [⟨⟨52, by decide⟩⟩] ∧ k'.waitingRecords = .ok [⟨⟨30, by decide⟩⟩] :=
    exists_boot (by decide +kernel)
  exact ⟨k, hboot, hready, hwaiting, Reachable.dependable
    ((((Reachable.boot hboot).create "ask" 2).create "halt" 1).cycle)⟩

end Kernel

end Timeshare
