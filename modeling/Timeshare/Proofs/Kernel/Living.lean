import Timeshare.Proofs.Kernel.Reachable

namespace Timeshare

/-!
# The processes that live

* `Kernel.living` — the numbers of the processes that live.
* `Kernel.Turnover k came gone k'` — from the kernel `k` to `k'`, some processes come and some go.  The
  others live on, and each that comes has the number that is next.
* `Kernel.Census k came gone` — who has ever come is counted: the numbers are the first ones, and each
  of these processes has gone, once, or lives.
* `Kernel.Sound.turnover_cycle`, `Kernel.Sound.turnover_interrupt` — the results of cycles and interrupts
  tell who has come and gone.
-/

/-- The processes that have come with an interrupt, as its result tells. -/
def InterruptOutcome.came : Except Fault InterruptOutcome → List Word
  | .ok (.created pid) => [pid]
  | _ => []

/-- The processes that have gone with an interrupt, as its result tells. -/
def InterruptOutcome.gone : Except Fault InterruptOutcome → List Word
  | .ok (.shutDown pids) => pids
  | _ => []

/-- The process that has gone in a cycle, if one has. -/
def CycleReport.gone : Option CycleReport → List Word
  | some report => if report.outcome.goesOn then [] else [report.pid]
  | none => []

/-- An interrupt that asks for a program. -/
def Interrupt.isRequest : Interrupt → Bool
  | .runProgram .. => true
  | _ => false

namespace Kernel

open Timeshare.Action

variable {k k' : Kernel} {free free' : List FreeBlock} {ready waiting held : List Record}
variable {ready' waiting' : List Record} {r : Record} {came gone came' gone' : List Word}

/-- The numbers of the processes that live, in the order of the queues. -/
def living (k : Kernel) : List Word :=
  match k.readyRecords, k.waitingRecords with
  | .ok ready, .ok waiting => (ready ++ waiting).map (·.pid k.memory)
  | _, _ => []

/-- From `k` to `k'`, the processes `came` come and the processes `gone` go.  One that comes has the
    number that is next. -/
structure Turnover (k : Kernel) (came gone : List Word) (k' : Kernel) : Prop where
  living : (k'.living ++ gone).Perm (came ++ k.living)
  numbers : (came = [] ∧ k'.nextPid = k.nextPid) ∨
    (came = [k.nextPid] ∧ k'.nextPid = k.nextPid + 1)

/-- All processes that have come have the first numbers, in order; each of them has gone, once, or
    lives on. -/
structure Census (k : Kernel) (came gone : List Word) : Prop where
  numbers : ∃ n, came = (List.range n).map (fun i => Int64.ofNat (i + 1))
    ∧ k.nextPid = Int64.ofNat (n + 1)
  balance : (k.living ++ gone).Perm came

/-- All are counted still when the processes `came'` come and the processes `gone'` go. -/
theorem Census.turnover (h : Census k came gone) (ht : Turnover k came' gone' k') :
    Census k' (came ++ came') (gone ++ gone') := by
  obtain ⟨n, hn, hnext⟩ := h.numbers
  constructor
  · rcases ht.numbers with ⟨rfl, hsame⟩ | ⟨rfl, hmore⟩
    · exact ⟨n, by rw [List.append_nil, hn], by rw [hsame, hnext]⟩
    · refine ⟨n + 1, ?_, ?_⟩
      · rw [hn, hnext, List.range_succ, List.map_append]
        rfl
      · rw [hmore, hnext]
        exact (Int64.ofNat_add (n + 1) 1).symm
  · -- Who has gone was counted among the living, and who has come is counted now.
    calc k'.living ++ (gone ++ gone')
      _ |>.Perm (k'.living ++ gone' ++ gone) := by
        rw [List.append_assoc]
        exact List.perm_append_comm.append_left _
      _ |>.Perm (came' ++ k.living ++ gone) := ht.living.append_right _
      _ |>.Perm (came' ++ came) := by
        rw [List.append_assoc]
        exact h.balance.append_left _
      _ |>.Perm (came ++ came') := List.perm_append_comm

namespace Sound

/-- In a kernel in order, those live whose records are in `ready ++ waiting`. -/
theorem living_eq (h : Sound k free ready waiting held) :
    k.living = (ready ++ waiting).map (·.pid k.memory) := by
  rw [living, h.readyRecords, h.waitingRecords]

/-- Processes that are only put in another order live on: `Turnover k [] [] k'`. -/
theorem turnover_nobody (h : Sound k free ready waiting held)
    (h' : Sound k' free' ready' waiting' []) (hperm : (ready' ++ waiting').Perm (ready ++ waiting))
    (hpids : ∀ p ∈ ready ++ waiting, p.pid k'.memory = p.pid k.memory)
    (hnext : k'.nextPid = k.nextPid) : Turnover k [] [] k' := by
  refine ⟨?_, .inl ⟨rfl, hnext⟩⟩
  rw [h.living_eq, h'.living_eq, List.append_nil, List.nil_append, ← List.map_congr_left hpids]
  exact hperm.map _

/-- **Creation.**  The process that is next comes if the creation succeeds, with the number
    `k.nextPid`, and otherwise nobody. -/
theorem turnover_create (h : Sound k free ready waiting []) (program : String) (priority : Word) :
    ∃ k', exec (Kernel.create program priority) k = (creation k program, k')
      ∧ k'.isShutDown = k.isShutDown ∧
      ((∃ e, creation k program = .error e ∧ Turnover k [] [] k') ∨
        ∃ x, creation k program = .ok x ∧ x.pid k'.memory = k.nextPid
          ∧ Turnover k [k.nextPid] [] k') := by
  obtain ⟨k', hexec, -, -, hdown, hkept, hend⟩ := h.create program priority
  have hpids : ∀ p ∈ ready ++ waiting, p.pid k'.memory = p.pid k.memory := fun p hp =>
    hkept.get p hp .pid (by simp)
  refine ⟨k', hexec, hdown, ?_⟩
  -- Undone, nobody has come; otherwise the new record stands among the ready ones.
  rcases hend with ⟨e, free', he, hundone, h'⟩ | ⟨x, free', ahead, behind, hx, ⟨rfl, -, -⟩, hnew, h'⟩
  · exact .inl ⟨e, he, h.turnover_nobody h' (List.Perm.refl _) hpids hundone.nextPid⟩
  · refine .inr ⟨x, hx, hnew.pid, ?_, .inr ⟨rfl, hnew.nextPid⟩⟩
    have hperm : (ahead ++ x :: behind ++ waiting).Perm (x :: (ahead ++ behind ++ waiting)) :=
      List.perm_middle.append_right waiting
    rw [h.living_eq, h'.living_eq, List.append_nil, ← List.map_congr_left hpids, List.singleton_append,
      ← hnew.pid]
    exact hperm.map _

/-- **Cycles.**  The process that has its turn lives on, or goes (`CycleReport.gone report`); nobody
    comes. -/
theorem turnover_cycle (h : Sound k free ready waiting []) :
    ∃ report k', exec Kernel.cycle k = (.ok report, k') ∧ k'.isShutDown = k.isShutDown
      ∧ Turnover k [] (CycleReport.gone report) k' := by
  rcases h.cycle with
    ⟨rfl, hexec⟩ | ⟨q, rest, report, k', free', ready', waiting', rfl, hexec, hsame, hpid, hplaced, h', hkept,
      hlasting⟩
  · exact ⟨none, k, hexec, rfl, h.turnover_nobody h (List.Perm.refl _) (fun _ _ => rfl) rfl⟩
  refine ⟨some report, k', hexec, hsame.isShutDown, ?_⟩
  have hothers : ∀ p ∈ rest ++ waiting, p.pid k'.memory = p.pid k.memory := fun p hp =>
    hkept.get p hp .pid (by simp)
  have hperm := hplaced.perm
  rw [CycleReport.gone]
  by_cases hgo : report.outcome.goesOn = true
  · rw [if_pos hgo] at hperm ⊢
    refine h.turnover_nobody h' hperm (fun p hp => ?_) hsame.nextPid
    rcases List.mem_cons.mp hp with rfl | hp
    · exact hlasting hgo .pid rfl
    · exact hothers p hp
  · rw [if_neg hgo] at hperm ⊢
    refine ⟨?_, .inl ⟨rfl, hsame.nextPid⟩⟩
    rw [h.living_eq, h'.living_eq, hpid, List.nil_append]
    -- All but the process that has gone are in the queues still.
    refine ((hperm.map _).append_right _).trans ?_
    rw [List.map_congr_left hothers]
    exact List.perm_append_comm

/-- A process that is released lives on. -/
theorem turnover_released {before after ahead behind : List Record}
    (h : Sound k free ready (before ++ r :: after) []) (hplace : r.Place k'.memory ready ahead behind)
    (h' : Sound k' free (ahead ++ r :: behind) (before ++ after) [])
    (hkept : Record.Kept (ready ++ (before ++ after)) k.memory k'.memory)
    (hpid : r.get k'.memory .pid = r.get k.memory .pid) (hnext : k'.nextPid = k.nextPid) :
    Turnover k [] [] k' := by
  refine h.turnover_nobody h' (hplace.perm before after) (fun p hp => ?_) hnext
  by_cases hr : p = r
  · rw [hr]
    exact hpid
  · refine hkept.get p ?_ .pid (by simp)
    simpa only [List.mem_append, List.mem_cons, hr, false_or] using hp

/-- **Interrupts.**  A process comes if a program is asked for and can be run, and all go with a
    shutdown.  A request is answered by a new process or by an error. -/
theorem turnover_interrupt (h : Sound k free ready waiting []) (i : Interrupt) :
    ∃ result k', exec (Kernel.interrupt i) k = (result, k')
      ∧ Turnover k (InterruptOutcome.came result) (InterruptOutcome.gone result) k'
      ∧ (i = .shutdown → k'.isShutDown = true ∧ k'.living = [])
      ∧ (i ≠ .shutdown → k'.isShutDown = k.isShutDown)
      ∧ (InterruptOutcome.came result).length + (if result.isOk then 0 else 1)
        = if i.isRequest then 1 else 0 := by
  -- An event without effect, and one that only moves a process, leaves the same processes.
  have hnobody : Turnover k [] [] k :=
    h.turnover_nobody h (List.Perm.refl _) (fun _ _ => rfl) rfl
  cases i with
  | none => exact ⟨_, k, rfl, hnobody, fun hi => absurd hi (by simp), fun _ => rfl, rfl⟩
  | runProgram program priority =>
    obtain ⟨k', hexec, hdown, hend⟩ := h.turnover_create program priority
    rcases hend with ⟨e, he, hturnover⟩ | ⟨x, hx, hpid, hturnover⟩
    · rw [he] at hexec
      refine ⟨.error e, k', ?_, hturnover, fun hi => absurd hi (by simp), fun _ => hdown, rfl⟩
      rw [Kernel.interrupt, exec_bind_error hexec]
    · rw [hx] at hexec
      refine ⟨.ok (.created k.nextPid), k', ?_, hturnover, fun hi => absurd hi (by simp),
        fun _ => hdown, rfl⟩
      rw [Kernel.interrupt, exec_bind_ok hexec, ← hpid]
      rfl
  | shutdown =>
    obtain ⟨free', k', hexec, -, -, hdown, h', hnext, -⟩ := h.shutDown
    have hnone : k'.living = [] := h'.living_eq
    refine ⟨_, k', hexec, ⟨?_, .inl ⟨rfl, hnext⟩⟩, fun _ => ⟨hdown, hnone⟩,
      fun hi => absurd rfl hi, rfl⟩
    rw [hnone, h.living_eq]
    -- They go in the order of their priorities, which is a permutation of those that lived.
    exact (Record.byPriority_perm _ _).map _
  | inputCompletion pid input =>
    rcases h.deliverInput pid input with
      hexec | ⟨_, r, _, _, _, k', rfl, -, hplace, hexec, hsame, h', hkept, hslots⟩
    · exact ⟨_, k, hexec, hnobody, fun hi => absurd hi (by simp), fun _ => rfl, rfl⟩
    · exact ⟨_, k', hexec, h.turnover_released hplace h' hkept (hslots .pid rfl)
        hsame.nextPid,
        fun hi => absurd hi (by simp), fun _ => hsame.isShutDown, rfl⟩
  | outputCompletion pid =>
    rcases h.deliverOutput pid with
      hexec | ⟨_, r, _, _, _, k', rfl, -, hplace, hexec, hsame, h', hkept, hslots⟩
    · exact ⟨_, k, hexec, hnobody, fun hi => absurd hi (by simp), fun _ => rfl, rfl⟩
    · exact ⟨_, k', hexec, h.turnover_released hplace h' hkept (hslots .pid rfl)
        hsame.nextPid,
        fun hi => absurd hi (by simp), fun _ => hsame.isShutDown, rfl⟩

end Sound

end Kernel

end Timeshare
