import Timeshare.Proofs.Kernel.Living
import Timeshare.Proofs.Session.Control

namespace Timeshare

/-!
# The books of a run

A run of the control loop accounts for every process and every event.

* `Session.turnsOf es` — the history of a kernel to which the events `es` are delivered, one before each
  cycle.
* `Session.Balanced k summary m` — every process that was created has ended once or lives on, and the
  created ones and the failures add up to `m`.
* `Session.Underway` — how far a session has come; a turn of the loop goes on like this, or has a reason
  to end (`Session.Underway.turn`).
* `Session.run_closed` — a run closes a session; its summary lists the outputs that its history reports
  (`Kernel.shown`).
* `Session.Account`, `Session.run_accounts` — what a run says about itself in the end, and that it is so.
-/

/-- The output that the result of an interrupt reports, as `[⟨pid, value⟩]`, if there is one. -/
def InterruptOutcome.shown : Except Fault InterruptOutcome → List ProcessOutput
  | .ok (.output pid value) => [⟨pid, value⟩]
  | _ => []

namespace Kernel

/-- The outputs that the operation `op` reports, if it is done on the kernel `k`. -/
def Operation.shown (op : Operation) (k : Kernel) : List ProcessOutput :=
  match op with
  | .interrupt i => InterruptOutcome.shown (Action.exec (Kernel.interrupt i) k).1
  | .create .. | .cycle => []

/-- The outputs that a history reports. -/
def shown : Kernel → List Operation → List ProcessOutput
  | _, [] => []
  | k, op :: ops => op.shown k ++ shown (op.apply k) ops

/-- The outputs of a history are those of its parts: `k.shown (ops ++ ops')` is `k.shown ops` and
    then what `ops'` reports on `k.after ops`. -/
theorem shown_append (k : Kernel) (ops ops' : List Operation) :
    k.shown (ops ++ ops') = k.shown ops ++ (k.after ops).shown ops' := by
  induction ops generalizing k with
  | nil => rfl
  | cons op ops ih => rw [List.cons_append, shown, shown, ih, List.append_assoc, after, after,
      List.foldl_cons]

end Kernel

namespace Summary

/-- The processes that have ended: those in `s.terminated`, by halting or a shutdown, and then those
    in `s.faulted`. -/
def ended (s : Summary) : List Word := s.terminated ++ s.faulted.map Prod.fst

/-- Adds an event with its result. -/
def addResult (s : Summary) : Except Fault InterruptOutcome → Summary
  | .ok outcome => s.addEvent outcome
  | .error _ => s.addFailure

/-- Adds a cycle with its report. -/
def addReport (s : Summary) : Option CycleReport → Summary
  | some report => s.addCycle report
  | none => s.addIdle

section Result

variable (s : Summary) (result : Except Fault InterruptOutcome)

/-- An event adds the process that has come, if any, to `created`. -/
theorem created_addResult :
    (s.addResult result).created = s.created ++ InterruptOutcome.came result := by
  rcases result with e | outcome
  · exact (List.append_nil _).symm
  · cases outcome with
    | created pid => rfl
    | _ => exact (List.append_nil _).symm

/-- An event adds the processes that have gone to `ended`, up to the order. -/
theorem ended_addResult :
    (s.addResult result).ended.Perm (InterruptOutcome.gone result ++ s.ended) := by
  rcases result with e | outcome
  · exact List.Perm.refl _
  · cases outcome with
    | shutDown pids =>
      show ((s.terminated ++ pids) ++ s.faulted.map Prod.fst).Perm
        (pids ++ (s.terminated ++ s.faulted.map Prod.fst))
      rw [← List.append_assoc]
      exact List.perm_append_comm.append_right _
    | _ => exact List.Perm.refl _

/-- An event adds what it reports to `outputs`. -/
theorem outputs_addResult : (s.addResult result).outputs = s.outputs ++ InterruptOutcome.shown result := by
  rcases result with e | outcome
  · exact (List.append_nil _).symm
  · cases outcome with
    | output pid value => rfl
    | _ => exact (List.append_nil _).symm

/-- An event that fails is counted in `failedEvents`, and no other. -/
theorem failedEvents_addResult :
    (s.addResult result).failedEvents = s.failedEvents + if result.isOk then 0 else 1 := by
  rcases result with e | outcome
  · rfl
  · cases outcome <;> rfl

/-- An event is no cycle. -/
theorem allCycles_addResult : (s.addResult result).allCycles = s.allCycles := by
  rcases result with e | outcome
  · exact allCycles_addFailure s
  · exact allCycles_addEvent s outcome

end Result

section Report

variable (s : Summary) (report : Option CycleReport)

/-- A cycle creates no process. -/
theorem created_addReport : (s.addReport report).created = s.created := by
  rcases report with - | ⟨pid, outcome, clock⟩
  · rfl
  · cases outcome <;> rfl

/-- A cycle adds the process that has gone in it, if any, to `ended`, up to the order. -/
theorem ended_addReport : (s.addReport report).ended.Perm (CycleReport.gone report ++ s.ended) := by
  rcases report with - | ⟨pid, outcome, clock⟩
  · exact List.Perm.refl _
  · cases outcome with
    | preempted | blocked reason => exact List.Perm.refl _
    | terminated =>
      show ((s.terminated ++ [pid]) ++ s.faulted.map Prod.fst).Perm (pid :: s.ended)
      rw [List.append_assoc]
      exact List.perm_middle
    | faulted fault =>
      show (s.terminated ++ (s.faulted ++ [(pid, fault)]).map Prod.fst).Perm (pid :: s.ended)
      rw [List.map_append, ← List.append_assoc]
      exact List.perm_append_singleton pid s.ended

/-- A cycle reports no outputs. -/
theorem outputs_addReport : (s.addReport report).outputs = s.outputs := by
  rcases report with - | ⟨pid, outcome, clock⟩
  · rfl
  · cases outcome <;> rfl

/-- A cycle is no event. -/
theorem failedEvents_addReport : (s.addReport report).failedEvents = s.failedEvents := by
  rcases report with - | ⟨pid, outcome, clock⟩
  · rfl
  · cases outcome <;> rfl

/-- A cycle is counted, whether a process had a turn in it or not. -/
theorem allCycles_addReport : (s.addReport report).allCycles = s.allCycles + 1 := by
  rcases report with - | report
  · exact allCycles_addIdle s
  · exact allCycles_addCycle s report

end Report

end Summary

namespace Session

open Timeshare.Action Kernel

variable {config : Config} {catalog : Catalog} {maxCycles : Nat} {s t : Session} {k k' k₀ : Kernel}
variable {summary summary' : Summary} {came gone : List Word} {m : Nat}

/-! ### The parts of a turn -/

/-- The delivery of an event puts what the interrupt leaves, `k`, in place of the kernel, and adds
    its result to the summary. -/
theorem exec_deliver {event : Interrupt} {result : Except Fault InterruptOutcome}
    (h : exec (Kernel.interrupt event) s.kernel = (result, k)) :
    exec (deliver event) s
      = (.ok (), { s with kernel := k, summary := s.summary.addResult result }) := by
  rw [deliver, exec_bind_ok (exec_observe _ _), onKernel, exec_zoom, h]
  cases result <;> rfl

/-- A cycle of a session puts what the cycle of the kernel leaves, `k`, in its place, and adds its
    report to the summary. -/
theorem exec_cycle {report : Option CycleReport}
    (h : exec Kernel.cycle s.kernel = (.ok report, k)) :
    exec cycle s = (.ok (), { s with kernel := k, summary := s.summary.addReport report }) := by
  have hcycle : exec (onKernel Kernel.cycle) s = (.ok report, { s with kernel := k }) := by
    rw [onKernel, exec_zoom, h]
  rw [cycle, exec_bind_ok hcycle]
  cases report <;> rfl

/-! ### Processes -/

/-- The first `n` numbers of processes: `1, …, n`. -/
def numbers (n : Nat) : List Word := (List.range n).map fun i => Int64.ofNat (i + 1)

/-- The processes that were created have the first numbers, in order; each of them has ended, once,
    or lives on.  As many programs were asked for (`m`) as processes were created or events have
    failed. -/
structure Balanced (k : Kernel) (summary : Summary) (m : Nat) : Prop where
  created : ∃ n, summary.created = numbers n ∧ k.nextPid = Int64.ofNat (n + 1)
  ended : (k.living ++ summary.ended).Perm summary.created
  requests : summary.created.length + summary.failedEvents = m

/-- The books stay balanced when the processes `came` and `gone` come and go
    (`Turnover k came gone k'`), and the summary says so.  With `d` more programs asked for, `m`
    becomes `m + d`. -/
theorem Balanced.turnover {d : Nat} (h : Balanced k summary m) (ht : Turnover k came gone k')
    (hcreated : summary'.created = summary.created ++ came)
    (hended : summary'.ended.Perm (gone ++ summary.ended))
    (hrequests : came.length + summary'.failedEvents = summary.failedEvents + d) :
    Balanced k' summary' (m + d) := by
  have hcensus := (Census.mk h.created h.ended).turnover ht
  refine ⟨?_, ?_, ?_⟩
  · rw [hcreated]
    exact hcensus.numbers
  · rw [hcreated]
    exact ((hended.trans List.perm_append_comm).append_left _).trans hcensus.balance
  · have := h.requests
    rw [hcreated, List.length_append]
    omega

/-- The delivery of an event is a part of the history of the kernel, and keeps the books balanced: a
    request for a program adds one to `m`, and a shutdown leaves no process that lives. -/
theorem Balanced.deliver (h : Balanced s.kernel s.summary m)
    (hk : Reachable config catalog s.kernel) (event : Interrupt) :
    ∃ t, exec (Session.deliver event) s = (.ok (), t)
      ∧ t.kernel = (Operation.interrupt event).apply s.kernel ∧ t.events = s.events
      ∧ t.summary.outputs = s.summary.outputs ++ (Operation.interrupt event).shown s.kernel
      ∧ t.summary.allCycles = s.summary.allCycles
      ∧ Balanced t.kernel t.summary (m + if event.isRequest then 1 else 0)
      ∧ (event = .shutdown → t.kernel.isShutDown = true ∧ t.kernel.living = [])
      ∧ (event ≠ .shutdown → t.kernel.isShutDown = s.kernel.isShutDown) := by
  obtain ⟨-, -, _, _, _, hsound⟩ := hk.atRest
  obtain ⟨result, k', hexec, hturnover, hshut, hup, hcount⟩ := hsound.turnover_interrupt event
  refine ⟨_, exec_deliver hexec, ?_, rfl, ?_, ?_, ?_, hshut, hup⟩
  · rw [Operation.apply, hexec]
  · rw [Operation.shown, hexec]
    exact Summary.outputs_addResult _ _
  · exact Summary.allCycles_addResult _ _
  · refine h.turnover hturnover (Summary.created_addResult _ _) (Summary.ended_addResult _ _) ?_
    -- A request adds a process or a failed event.
    rw [← hcount, Summary.failedEvents_addResult, Nat.add_left_comm]

/-- A cycle is a part of the history as well and keeps the books balanced, with the same `m`;
    `allCycles` goes up by one. -/
theorem Balanced.cycle (h : Balanced s.kernel s.summary m)
    (hk : Reachable config catalog s.kernel) :
    ∃ t, exec Session.cycle s = (.ok (), t) ∧ t.kernel = Operation.cycle.apply s.kernel
      ∧ t.events = s.events ∧ t.summary.outputs = s.summary.outputs
      ∧ t.summary.allCycles = s.summary.allCycles + 1
      ∧ Balanced t.kernel t.summary m ∧ t.kernel.isShutDown = s.kernel.isShutDown := by
  obtain ⟨-, -, _, _, _, hsound⟩ := hk.atRest
  obtain ⟨report, k', hexec, hdown, hturnover⟩ := hsound.turnover_cycle
  refine ⟨_, Session.exec_cycle hexec, ?_, rfl, Summary.outputs_addReport _ _, ?_, ?_, hdown⟩
  · rw [Operation.apply, hexec]
  · exact Summary.allCycles_addReport _ _
  · refine h.turnover (d := 0) hturnover ?_ (Summary.ended_addReport _ _) ?_
    · rw [List.append_nil, Summary.created_addReport]
    · rw [Summary.failedEvents_addReport]
      exact Nat.zero_add _

/-! ### The loop -/

/-- The history of a kernel to which the events `es` are delivered, one before each cycle. -/
def turnsOf (es : List Interrupt) : List Operation := es.flatMap fun e => [.interrupt e, .cycle]

/-- One more event is one more interrupt and one more cycle behind the history:
    `turnsOf (es ++ [e])`. -/
theorem after_turnsOf_concat (k : Kernel) (es : List Interrupt) (e : Interrupt) :
    k.after (turnsOf (es ++ [e]))
      = Operation.cycle.apply ((Operation.interrupt e).apply (k.after (turnsOf es))) := by
  rw [turnsOf, List.flatMap_append, after_append]
  rfl

/-- What one more event `e` shows comes behind what was shown before; the cycle behind it shows
    nothing. -/
theorem shown_turnsOf_concat (k : Kernel) (es : List Interrupt) (e : Interrupt) :
    k.shown (turnsOf (es ++ [e]))
      = k.shown (turnsOf es) ++ (Operation.interrupt e).shown (k.after (turnsOf es)) := by
  rw [turnsOf, List.flatMap_append, shown_append]
  exact congrArg _ (List.append_nil _)

/-- A session `s` that goes on: from `k₀` on, with the sequence `events`, it has delivered the
    events `es`.  These are those that it has taken, and then nothing (`.none`) as often as it found
    none left. -/
structure Underway (k₀ : Kernel) (events es : List Interrupt) (s : Session) : Prop where
  kernel : s.kernel = k₀.after (turnsOf es)
  taken : ∃ taken j, events = taken ++ s.events ∧ es = taken ++ List.replicate j .none
    ∧ (j ≠ 0 → s.events = [])
  outputs : s.summary.outputs = k₀.shown (turnsOf es)
  noShutdown : .shutdown ∉ es
  isUp : s.kernel.isShutDown = false
  cycles : s.summary.allCycles = es.length
  balanced : Balanced s.kernel s.summary (es.countP Interrupt.isRequest)

/-- A session whose kernel was shut down after the cycles of the events `es`. -/
structure Closed (k₀ : Kernel) (es : List Interrupt) (s : Session) : Prop where
  kernel : s.kernel = k₀.after (turnsOf es ++ [.interrupt .shutdown])
  outputs : s.summary.outputs = k₀.shown (turnsOf es ++ [.interrupt .shutdown])
  isShutDown : s.kernel.isShutDown = true
  nobody : s.kernel.living = []
  noShutdown : .shutdown ∉ es
  cycles : s.summary.allCycles = es.length
  balanced : Balanced s.kernel s.summary (es.countP Interrupt.isRequest)

variable {events es : List Interrupt}

/-- While there are events left, all that were delivered are events of the sequence:
    `events = es ++ s.events`. -/
theorem Underway.events_eq (h : Underway k₀ events es s) (hne : s.events ≠ []) :
    events = es ++ s.events := by
  obtain ⟨taken, j, hevents, hes, hj⟩ := h.taken
  obtain rfl : j = 0 := by
    by_contra hj'
    exact hne (hj hj')
  rw [hevents, hes, List.replicate_zero, List.append_nil]

/-- A session on a new kernel is underway, and has delivered nothing: `Underway k₀ events []`. -/
theorem underway_boot {free : List FreeBlock} (h : (Kernel.boot config catalog).outcome = .ok k₀)
    (hsound : Sound k₀ free [] [] []) (events : List Interrupt) :
    Underway k₀ events [] { kernel := k₀, events } := by
  obtain ⟨hup, hnext, -⟩ := boot_fresh h
  refine ⟨rfl, ⟨[], 0, rfl, rfl, fun hne => absurd rfl hne⟩, rfl, by simp, hup, rfl, ⟨0, rfl, hnext⟩, ?_, rfl⟩
  rw [hsound.living_eq]
  exact List.Perm.refl _

/-- A shutdown closes the session, whatever events are left: its delivery ends with
    `Closed k₀ es t`. -/
theorem Underway.shutDown (h : Underway k₀ events es s) (hk : Reachable config catalog k₀)
    {s' : Session} (hkernel : s'.kernel = s.kernel) (hsummary : s'.summary = s.summary) :
    ∃ t, exec (deliver .shutdown) s' = (.ok (), t) ∧ t.events = s'.events ∧ Closed k₀ es t := by
  have hs : Reachable config catalog s'.kernel := by
    rw [hkernel, h.kernel]
    exact hk.after _
  have hbalanced := h.balanced
  rw [← hkernel, ← hsummary] at hbalanced
  obtain ⟨t, hexec, htkernel, hevents, houtputs, hcycles, htbalanced, hshut, -⟩ :=
    hbalanced.deliver hs .shutdown
  -- The books of `s'` are those of `s`, and a shutdown adds its own entries.
  obtain ⟨hdown, hnobody⟩ := hshut rfl
  refine ⟨t, hexec, hevents, ?_, ?_, hdown, hnobody, h.noShutdown, ?_, htbalanced⟩
  · rw [htkernel, hkernel, h.kernel, after_append]
    rfl
  · rw [houtputs, hsummary, h.outputs, hkernel, h.kernel, shown_append]
    exact congrArg _ (List.append_nil _).symm
  · rw [hcycles, hsummary, h.cycles]

/-- Any other event, and a cycle after it, are one more turn of the session: `Underway` for
    `es ++ [event]`. -/
theorem Underway.goOn (h : Underway k₀ events es s) (hk : Reachable config catalog k₀)
    {event : Interrupt} {s' : Session} (hnext : s.nextEvent? = some (event, s'))
    (hevent : event ≠ .shutdown) :
    ∃ t u, exec (deliver event) s' = (.ok (), t) ∧ t.kernel.isShutDown = false
      ∧ exec cycle t = (.ok (), u) ∧ Underway k₀ events (es ++ [event]) u := by
  have hs : Reachable config catalog s.kernel := by
    rw [h.kernel]
    exact hk.after _
  obtain ⟨hkernel, hsummary, hnextEvents⟩ := nextEvent?_eq_some hnext
  have hbalanced := h.balanced
  rw [← hkernel, ← hsummary] at hbalanced
  obtain ⟨t, hdeliver, htkernel, htevents, htoutputs, htcycles, htbalanced, -, hup⟩ :=
    hbalanced.deliver (hkernel ▸ hs) event
  have ht : Reachable config catalog t.kernel := by
    rw [htkernel, hkernel]
    exact hs.apply _
  obtain ⟨u, hcycle, hukernel, huevents, huoutputs, hucycles, hubalanced, hdown⟩ := htbalanced.cycle ht
  have htup : t.kernel.isShutDown = false := by rw [hup hevent, hkernel, h.isUp]
  refine ⟨t, u, hdeliver, htup, hcycle, ?_, ?_, ?_, ?_, hdown.trans htup, ?_, ?_⟩
  · rw [hukernel, htkernel, hkernel, h.kernel, after_turnsOf_concat]
  · rw [huevents, htevents]
    -- Either the event was the next one of the sequence, or there was none left and it is `.none`.
    rcases hnextEvents with hrest | ⟨hnone, hnone', rfl⟩
    · refine ⟨es ++ [event], 0, ?_, (List.append_nil _).symm, fun hne => absurd rfl hne⟩
      have hevents := h.events_eq (by rw [hrest]; simp)
      rw [hevents, hrest, List.append_assoc]
      rfl
    · obtain ⟨taken, j, hevents, hes, -⟩ := h.taken
      refine ⟨taken, j + 1, ?_, ?_, fun _ => hnone'⟩
      · rw [hevents, hnone, hnone']
      · rw [hes, List.replicate_succ', List.append_assoc]
  · rw [huoutputs, htoutputs, hsummary, h.outputs, hkernel, h.kernel, shown_turnsOf_concat]
  · simp only [List.mem_append, List.mem_singleton, not_or]
    exact ⟨h.noShutdown, hevent.symm⟩
  · rw [hucycles, htcycles, hsummary, h.cycles, List.length_append]
    rfl
  · rw [List.countP_append]
    simpa using hubalanced

/-- **A turn of the loop.**  The limit `maxCycles` is reached, or all is done, and nothing happens;
    the next event is a shutdown, which closes the session; or the session goes on with one more
    event, `es ++ [event]`. -/
theorem Underway.turn (h : Underway k₀ events es s) (hk : Reachable config catalog k₀)
    (maxCycles : Nat) :
    (exec (Session.turn maxCycles) s = (.ok false, s)
        ∧ (maxCycles ≤ es.length ∨ s.events = [] ∧ s.kernel.ready.isEmpty = true)) ∨
      (es.length < maxCycles ∧ ∃ t, exec (Session.turn maxCycles) s = (.ok false, t) ∧ Closed k₀ es t
        ∧ events = es ++ .shutdown :: t.events) ∨
      (es.length < maxCycles ∧ ∃ event t, exec (Session.turn maxCycles) s = (.ok true, t)
        ∧ Underway k₀ events (es ++ [event]) t) := by
  -- The loop counts cycles, and there was one for each event.
  have hspent : s.isSpent maxCycles = decide (maxCycles ≤ es.length) := by rw [isSpent, h.cycles]
  unfold Session.turn
  rw [exec_bind_ok (exec_get s)]
  simp only [h.isUp, hspent, Bool.false_or, decide_eq_true_eq]
  by_cases hlimit : maxCycles ≤ es.length
  · rw [if_pos hlimit]
    exact .inl ⟨rfl, .inl hlimit⟩
  rw [if_neg hlimit]
  cases hnext : s.nextEvent? with
  | none =>
    exact .inl ⟨rfl, .inr (nextEvent?_eq_none hnext)⟩
  | some x =>
    obtain ⟨event, s'⟩ := x
    refine .inr ?_
    by_cases hshut : event = .shutdown
    · subst hshut
      obtain ⟨hkernel, hsummary, hnextEvents⟩ := nextEvent?_eq_some hnext
      obtain ⟨t, hdeliver, htevents, hclosed⟩ := h.shutDown hk hkernel hsummary
      refine .inl ⟨Nat.lt_of_not_le hlimit, t, ?_, hclosed, ?_⟩
      · simp only []
        rw [exec_bind_ok (exec_set s s'), exec_bind_ok hdeliver, exec_bind_ok (exec_get t),
          if_pos hclosed.isShutDown]
        rfl
      · rcases hnextEvents with hrest | ⟨-, -, hnone⟩
        · rw [h.events_eq (by rw [hrest]; simp), hrest, htevents]
        · exact absurd hnone (by simp)
    · obtain ⟨t, u, hdeliver, hup, hcycle, hu⟩ := h.goOn hk hnext hshut
      refine .inr ⟨Nat.lt_of_not_le hlimit, event, u, ?_, hu⟩
      simp only []
      rw [exec_bind_ok (exec_set s s'), exec_bind_ok hdeliver, exec_bind_ok (exec_get t), if_neg,
        exec_bind_ok hcycle]
      · rfl
      · rw [hup]
        simp

/-- A session when the loop has ended after the events `es`: the limit is reached or all is done,
    and it is still underway; or it was closed by a shutdown in the sequence. -/
def Ended (k₀ : Kernel) (events : List Interrupt) (maxCycles : Nat) (es : List Interrupt)
    (s : Session) : Prop :=
  es.length ≤ maxCycles ∧
    ((Underway k₀ events es s
        ∧ (maxCycles ≤ es.length ∨ s.events = [] ∧ s.kernel.ready.isEmpty = true)) ∨
      Closed k₀ es s ∧ es.length < maxCycles ∧ events = es ++ .shutdown :: s.events)

/-- **The loop** goes through turns of a session until that has ended: `Session.turns` ends with
    `Ended`, for some `es`. -/
theorem Underway.turns (h : Underway k₀ events [] s) (hk : Reachable config catalog k₀)
    (maxCycles : Nat) :
    ∃ es t, exec (Session.turns maxCycles) s = (.ok (), t) ∧ Ended k₀ events maxCycles es t := by
  -- Each turn that goes on delivers one event, so that the limit ends the loop at the latest.
  obtain ⟨u, hexec, hend⟩ := turns_invariant
    (I := fun n t => ∃ es, es.length = n ∧ n ≤ maxCycles ∧ Underway k₀ events es t)
    (by
      rintro n t ⟨es, hlen, -, ht⟩
      rcases ht.turn hk maxCycles with
        ⟨hexec, -⟩ | ⟨-, v, hexec, -⟩ | ⟨hlimit, event, v, hexec, hv⟩
      · exact ⟨false, t, hexec, fun h => absurd h (by simp)⟩
      · exact ⟨false, v, hexec, fun h => absurd h (by simp)⟩
      · exact ⟨true, v, hexec, fun _ =>
          ⟨es ++ [event], by rw [List.length_append, hlen]; rfl, by omega, hv⟩⟩)
    ⟨[], rfl, Nat.zero_le _, h⟩
  rcases hend with ⟨n, t, ⟨es, rfl, hle, ht⟩, hlast⟩ | ⟨es, -, hle, -⟩
  · refine ⟨es, u, hexec, hle, ?_⟩
    rcases ht.turn hk maxCycles with
      ⟨hturn, hreason⟩ | ⟨hlimit, v, hturn, hclosed, hevents⟩ | ⟨-, event, v, hturn, -⟩
    · cases hturn.symm.trans hlast
      exact .inl ⟨ht, hreason⟩
    · cases hturn.symm.trans hlast
      exact .inr ⟨hclosed, hlimit, hevents⟩
    · exact absurd (hturn.symm.trans hlast) (by simp)
  · exact absurd hle (by omega)

/-! ### A run -/

/-- What a run of the control loop says about itself.  It has delivered the events `es`, one before each
    cycle, and taken the events `taken` of the sequence, of which `rest` is left. -/
structure Account (k₀ : Kernel) (maxCycles : Nat) (es taken rest : List Interrupt)
    (summary : Summary) (k : Kernel) : Prop where
  /-- The kernel has gone through the turns of the loop and a shutdown, and nothing else. -/
  kernel : k = k₀.after (turnsOf es ++ [.interrupt .shutdown])
  cycles : summary.cycles + summary.idleCycles = es.length
  limit : es.length ≤ maxCycles
  noShutdown : .shutdown ∉ es
  /-- The loop ends with a shutdown of the sequence; or the events are delivered in order, and nothing
      once they are used up, until the limit is reached or nothing is left to do. -/
  course : taken = es ++ [.shutdown] ∨
    (∃ j, es = taken ++ List.replicate j .none ∧ (j ≠ 0 → rest = [])) ∧
      (es.length = maxCycles ∨ rest = [] ∧ (k₀.after (turnsOf es)).readyRecords = .ok [])
  /-- The processes that were created have the numbers from 1 on. -/
  created : ∃ n, summary.created = numbers n ∧ k.nextPid = Int64.ofNat (n + 1)
  /-- Every process that was created has ended, once. -/
  ended : (summary.terminated ++ summary.faulted.map Prod.fst).Perm summary.created
  requests : summary.created.length + summary.failedEvents = taken.countP Interrupt.isRequest
  isShutDown : k.isShutDown = true
  ready : k.readyRecords = .ok []
  waiting : k.waitingRecords = .ok []
  /-- Every word of the pool of process records is free. -/
  osPool : ∃ blocks w, (k.osPool.blocks k.memory).outcome = .ok blocks
    ∧ Tiles (blocks.map FreeBlock.span) k.config.layout.osPool.span
    ∧ (k.osPool.freeWords k.memory).outcome = .ok w ∧ w.toInt = k.config.layout.osPool.length.toNat

/-- The end of a run closes a session, if that has not happened in the loop: `Session.finish` ends
    with `Closed k₀ es t`. -/
theorem Ended.finish (h : Ended k₀ events maxCycles es s) (hk : Reachable config catalog k₀) :
    ∃ t, exec (Session.finish maxCycles) s = (.ok (), t) ∧ t.events = s.events ∧ Closed k₀ es t := by
  unfold Session.finish
  rw [exec_bind_ok (exec_get s)]
  -- The loop has ended without a shutdown, which is made up for here, or with one.
  rcases h.2 with ⟨hunder, -⟩ | ⟨hclosed, -⟩
  · obtain ⟨t, hdeliver, hevents, hclosed⟩ := hunder.shutDown hk rfl rfl
    refine ⟨t, ?_, hevents, hclosed⟩
    simp only [hunder.isUp, Bool.not_false, if_true]
    by_cases hspent : s.isSpent maxCycles = true
    · simp only [hspent, if_true]
      rw [exec_bind_ok (exec_note _ s), exec_bind_ok hdeliver, exec_bind_ok (exec_get t)]
      rfl
    · simp only [hspent, Bool.false_eq_true, if_false]
      rw [exec_bind_ok hdeliver, exec_bind_ok (exec_get t)]
      rfl
  · refine ⟨s, ?_, rfl, hclosed⟩
    simp only [hclosed.isShutDown, Bool.not_true, Bool.false_eq_true, if_false]
    rw [exec_bind_ok (exec_get s)]
    rfl

/-- Nobody is left in a kernel with `k.living = []`: the queues are empty, and all words of the pool
    of process records are free. -/
theorem nobody_left (hk : Reachable config catalog k) (hnobody : k.living = []) :
    k.readyRecords = .ok [] ∧ k.waitingRecords = .ok [] ∧
      ∃ blocks w, (k.osPool.blocks k.memory).outcome = .ok blocks
        ∧ Tiles (blocks.map FreeBlock.span) k.config.layout.osPool.span
        ∧ (k.osPool.freeWords k.memory).outcome = .ok w
        ∧ w.toInt = k.config.layout.osPool.length.toNat := by
  obtain ⟨-, -, free, ready, waiting, h⟩ := hk.atRest
  rw [h.living_eq, List.map_eq_nil_iff, List.append_eq_nil_iff] at hnobody
  obtain ⟨rfl, rfl⟩ := hnobody
  obtain ⟨w, hw, hcount⟩ := h.freeWords
  have htiles := h.ledger.tiles
  simp only [List.append_nil, List.map_nil] at htiles
  exact ⟨h.readyRecords, h.waitingRecords, free, w, h.osBlocks, htiles, hw, by simpa using hcount⟩

/-- Closing a session that has ended settles the account of its run: the events are
    `taken ++ s.events`. -/
theorem Ended.account (h : Ended k₀ events maxCycles es s) (hk : Reachable config catalog k₀)
    (hclosed : Closed k₀ es t) :
    ∃ taken, events = taken ++ s.events
      ∧ Account k₀ maxCycles es taken s.events t.summary t.kernel := by
  have ht : Reachable config catalog t.kernel := by
    rw [hclosed.kernel]
    exact hk.after _
  obtain ⟨hready, hwaiting, hpool⟩ := nobody_left ht hclosed.nobody
  obtain ⟨hcreated, hended, hrequests⟩ := hclosed.balanced
  rw [hclosed.nobody] at hended
  -- Whether the loop has closed the session itself decides how many events were taken.
  rcases h.2 with ⟨hunder, hreason⟩ | ⟨-, hlimit, htaken⟩
  · obtain ⟨taken, j, htaken, hes, hj⟩ := hunder.taken
    refine ⟨taken, htaken, hclosed.kernel, hclosed.cycles, h.1, hclosed.noShutdown,
      .inr ⟨⟨j, hes, hj⟩, ?_⟩, hcreated, hended, ?_, hclosed.isShutDown, hready, hwaiting, hpool⟩
    · rcases hreason with hlimit | ⟨hnone, hempty⟩
      · exact .inl (Nat.le_antisymm h.1 hlimit)
      · refine .inr ⟨hnone, ?_⟩
        have hs : Reachable config catalog s.kernel := by
          rw [hunder.kernel]
          exact hk.after _
        obtain ⟨-, -, free, ready, waiting, hsound⟩ := hs.atRest
        obtain rfl := hsound.ready_eq_nil hempty
        rw [← hunder.kernel]
        exact hsound.readyRecords
    · -- Where nothing was delivered, nothing was asked for.
      rw [hrequests, hes, List.countP_append, List.countP_replicate]
      rfl
  · refine ⟨es ++ [.shutdown], by rw [htaken, List.append_assoc]; rfl, hclosed.kernel, hclosed.cycles, h.1,
      hclosed.noShutdown, .inl rfl, hcreated, hended, ?_, hclosed.isShutDown, hready, hwaiting, hpool⟩
    rw [hrequests, List.countP_append]
    rfl

/-- A run of the control loop goes through turns of a session (`Ended`) and closes it (`Closed`);
    its result is the summary of the session. -/
theorem run_closed (hboot : (Kernel.boot config catalog).outcome = .ok k₀) (events : List Interrupt)
    (maxCycles : Nat) :
    ∃ es s t, exec (run maxCycles) { kernel := k₀, events } = (.ok t.summary, t)
      ∧ Ended k₀ events maxCycles es s ∧ t.events = s.events ∧ Closed k₀ es t := by
  obtain ⟨-, -, b, hsound⟩ := boot_nobody hboot
  have hk : Reachable config catalog k₀ := .boot hboot
  obtain ⟨es, s, hturns, hended⟩ := (underway_boot hboot hsound events).turns hk maxCycles
  obtain ⟨t, hfinish, hevents, hclosed⟩ := hended.finish hk
  refine ⟨es, s, t, ?_, hended, hevents, hclosed⟩
  rw [run, exec_bind_ok hturns, exec_bind_ok hfinish, exec_bind_ok (exec_get t)]
  rfl

/-- **The books of a run.**  On a new kernel, with any programs, events and limit, the control loop
    ends, and its summary accounts for every process and every event that was taken: `Account` of
    the events `es` that were delivered and those `taken`. -/
theorem run_accounts (hc : config.validate = .ok ()) (catalog : Catalog) (events : List Interrupt)
    (maxCycles : Nat) :
    ∃ k₀ summary t es taken, (Kernel.boot config catalog).outcome = .ok k₀
      ∧ exec (run maxCycles) { kernel := k₀, events } = (.ok summary, t)
      ∧ events = taken ++ t.events
      ∧ Account k₀ maxCycles es taken t.events summary t.kernel := by
  obtain ⟨k₀, b, hboot, -⟩ := boot_sound catalog hc
  obtain ⟨es, s, t, hrun, hended, hevents, hclosed⟩ := run_closed hboot events maxCycles
  obtain ⟨taken, htaken, haccount⟩ := hended.account (.boot hboot) hclosed
  rw [← hevents] at htaken haccount
  exact ⟨k₀, t.summary, t, es, taken, hboot, hrun, htaken, haccount⟩

/-- A program that waits for input, one that is not there and one that halts, of which a run creates two
    and ends them both. -/
theorem run_accounts_input :
    let config : Config := { layout := ⟨⟨0, 9⟩, ⟨10, 29⟩, ⟨30, 89⟩⟩, stackSize := 2 }
    let catalog := Catalog.ofList [("input", ⟨[(0, 126000), (1, 8)], 0⟩), ("halt", ⟨[(5, 0)], 5⟩)]
    let events := [.runProgram "input" 1, .runProgram "missing" 1, .runProgram "halt" 2]
    ∃ k₀ summary t es, (Kernel.boot config catalog).outcome = .ok k₀
      ∧ exec (run 10) { kernel := k₀, events } = (.ok summary, t)
      ∧ Account k₀ 10 es events t.events summary t.kernel
      ∧ summary.created = [1, 2] ∧ summary.terminated = [2, 1] ∧ summary.failedEvents = 1 := by
  intro config catalog events
  obtain ⟨k₀, hboot, hnone, hsummary⟩ : ∃ k₀, (Kernel.boot config catalog).outcome = .ok k₀ ∧
      let ran := exec (run 10) { kernel := k₀, events }
      ran.2.events = [] ∧ ran.1.map (fun s => (s.created, s.terminated, s.failedEvents))
        = .ok ([1, 2], [2, 1], 1) := exists_boot (by decide +kernel)
  obtain ⟨k₀', summary, t, es, taken, hboot', hexec, htaken, haccount⟩ :=
    run_accounts (show config.validate = .ok () by decide) catalog events 10
  obtain rfl := Except.ok.inj (hboot.symm.trans hboot')
  rw [hexec] at hnone hsummary
  obtain ⟨hcreated, hrest⟩ := Prod.mk.inj (Except.ok.inj hsummary)
  obtain ⟨hterminated, hfailed⟩ := Prod.mk.inj hrest
  obtain rfl : events = taken := by rw [htaken, hnone, List.append_nil]
  exact ⟨k₀, summary, t, es, hboot, hexec, haccount, hcreated, hterminated, hfailed⟩

end Session

end Timeshare
