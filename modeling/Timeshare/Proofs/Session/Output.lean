import Timeshare.Proofs.Kernel.Lifecycle
import Timeshare.Proofs.Kernel.Waiting
import Timeshare.Proofs.Session.Accounting

namespace Timeshare

/-!
# Where outputs come from

A process that waits is released by a completion of either kind.  If this is the end of an output, what is
in its register of results is reported as an output, whether it has waited for that or for a character.

* `Kernel.calls pid ms` — what the process with a number has called the kernel for, in order.
* `Kernel.told pid k ops` — what is reported as its outputs, each with what it was waiting for.
* `Kernel.Told` — each output that was reported belongs to one call, and a process that waits has made its
  last call for that.
* `Kernel.Told.apply`, `Kernel.Told.after` — one operation, and a history.
* `Session.run_outputs` — the outputs of a run; `Session.run_outputs_unwritten` — some of them no process
  has written.
-/

open Timeshare.Action

namespace Kernel

variable {k k₀ : Kernel} {free : List FreeBlock} {ready waiting : List Record} {r : Record}
variable {config : Config} {catalog : Catalog} {pid : Word} {cs ts : List (WaitReason × Word)}
variable {op : Operation} {ops : List Operation}

/-- What the process with the number `pid` waits for: the reason in the first record with it in the
    waiting queue, or `.none`. -/
def awaits (k : Kernel) (pid : Word) : WaitReason :=
  match k.waitingRecords with
  | .ok rs => ((rs.find? (·.pid k.memory = pid)).bind (·.reason? k.memory)).getD .none
  | .error _ => .none

/-- What the process with a number calls the kernel for in the instructions `ms`, each time with the
    content of its register of results: a list of `(reason, value)`. -/
def calls (pid : Word) (ms : List Moment) : List (WaitReason × Word) :=
  (ms.filter (·.pid = pid)).filterMap Moment.waits?

/-- What the operation `op` reports as outputs of the process with the number `pid`, each with what
    that was waiting for. -/
def Operation.told (op : Operation) (k : Kernel) (pid : Word) : List (WaitReason × Word) :=
  ((op.shown k).filter (·.pid = pid)).map fun o => (k.awaits pid, o.value)

/-- What a history reports as outputs of the process with a number. -/
def told (pid : Word) : Kernel → List Operation → List (WaitReason × Word)
  | _, [] => []
  | k, op :: ops => op.told k pid ++ told pid (op.apply k) ops

/-- The calls in two rows of instructions are the calls in one and then those in the other. -/
theorem calls_append (xs ys : List Moment) : calls pid (xs ++ ys) = calls pid xs ++ calls pid ys := by
  rw [calls, List.filter_append, List.filterMap_append]
  rfl

/-- A process calls for characters and for the end of outputs, and for nothing else: `x.1` is
    `.inputCompletion` or `.outputCompletion`. -/
theorem fst_of_mem_calls {ms : List Moment} {x : WaitReason × Word} (hx : x ∈ calls pid ms) :
    x.1 = .inputCompletion ∨ x.1 = .outputCompletion := by
  obtain ⟨m, -, hm⟩ := List.mem_filterMap.mp hx
  obtain ⟨⟨number, env⟩, -, hcall⟩ := Option.bind_eq_some_iff.mp hm
  simp only [] at hcall
  split at hcall
  · cases hcall
    exact .inl rfl
  · split at hcall
    · cases hcall
      exact .inr rfl
    · exact absurd hcall (by simp)

/-- The values that are told of are the outputs themselves: `(told pid k ops).map Prod.snd` is what
    `k.shown ops` has for `pid`. -/
theorem map_snd_told (pid : Word) (k : Kernel) (ops : List Operation) :
    (told pid k ops).map Prod.snd = ((k.shown ops).filter (·.pid = pid)).map (·.value) := by
  induction ops generalizing k with
  | nil => rfl
  | cons op ops ih =>
    rw [told, shown, List.map_append, List.filter_append, List.map_append, ih, Operation.told,
      List.map_map]
    rfl

/-! ### One operation -/

/-- No two processes that live have one number: records of the queues with the same `pid` are the
    same, if `k.living` has no duplicates. -/
theorem Sound.pid_inj (h : Sound k free ready waiting []) (hnodup : k.living.Nodup) {q : Record}
    (hq : q ∈ ready ++ waiting) (hr : r ∈ ready ++ waiting) (heq : q.pid k.memory = r.pid k.memory) :
    q = r := by
  rw [h.living_eq] at hnodup
  exact List.inj_on_of_nodup_map hnodup hq hr heq

/-- What `k.awaits` finds for the number of a record in the waiting queue is the reason in that
    record. -/
theorem Sound.awaits_eq (h : Sound k free ready waiting []) (hnodup : k.living.Nodup)
    (hr : r ∈ waiting) : k.awaits (r.pid k.memory) = (r.awaited k.memory).1 := by
  have hfind : waiting.find? (·.pid k.memory = r.pid k.memory) = some r := by
    cases hfound : waiting.find? (·.pid k.memory = r.pid k.memory) with
    | none => exact absurd (List.find?_eq_none.mp hfound r hr) (by simp)
    | some q =>
      have hpid : q.pid k.memory = r.pid k.memory := by simpa using List.find?_some hfound
      rw [h.pid_inj hnodup (List.mem_append_right _ (List.mem_of_find?_eq_some hfound))
        (List.mem_append_right _ hr) hpid]
  rw [awaits, h.waitingRecords]
  simp only [hfind]
  rfl

/-- **The outputs of an operation.**  There is none; or the end of an output releases a process that
    waits, and the content of its register of results is reported,
    `⟨r.pid k.memory, r.get k.memory (.gpr .r1)⟩`, whatever it was waiting for. -/
theorem Sound.shown_cases (h : Sound k free ready waiting []) (op : Operation) :
    op.shown k = [] ∨ ∃ r ∈ waiting, op = .interrupt (.outputCompletion (r.pid k.memory))
      ∧ op.shown k = [⟨r.pid k.memory, r.get k.memory (.gpr .r1)⟩]
      ∧ (op.apply k).isWaiting r = false := by
  cases op with
  | create program priority => exact .inl rfl
  | cycle => exact .inl rfl
  | interrupt i =>
    simp only [Operation.shown]
    cases i with
    | none => exact .inl rfl
    -- A creation reports the new process and no output, whether it fails or not.
    | runProgram program priority =>
      left
      rcases hcreate : exec (Kernel.create program priority) k with ⟨e | r, k'⟩
      · rw [Kernel.interrupt, exec_bind_error hcreate]
        rfl
      · rw [Kernel.interrupt, exec_bind_ok hcreate]
        rfl
    | shutdown =>
      obtain ⟨free', k', hexec, -⟩ := h.shutDown
      rw [Kernel.interrupt, hexec]
      exact .inl rfl
    | inputCompletion pid input =>
      left
      rcases h.deliverInput pid input with hexec | ⟨_, _, _, _, _, _, -, -, -, hexec, -⟩
      · rw [Kernel.interrupt, hexec]
        rfl
      · rw [Kernel.interrupt, hexec]
        rfl
    | outputCompletion pid =>
      rcases h.deliverOutput pid with
        hexec | ⟨before, r, after, ahead, behind, k', rfl, rfl, hplace, hexec, -, h', -⟩
      · rw [Kernel.interrupt, hexec]
        exact .inl rfl
      · refine .inr ⟨r, by simp, rfl, by rw [Kernel.interrupt, hexec]; rfl, ?_⟩
        rw [Operation.apply, Kernel.interrupt, hexec, Bool.eq_false_iff, ne_eq, h'.isWaiting_iff]
        exact h'.not_waiting_of_ready (by simp)

/-- Nobody calls for anything while another process has its turn: a record that waits has no calls
    among `op.moments k`. -/
theorem Sound.calls_nil (h : Sound k free ready waiting []) (hnodup : k.living.Nodup)
    (hr : r ∈ waiting) (op : Operation) : calls (r.pid k.memory) (op.moments k) = [] := by
  have hne : ∀ m ∈ op.moments k, m.pid ≠ r.pid k.memory := by
    cases op with
    | create program priority => exact fun m hm => absurd hm (by simp [Operation.moments])
    | interrupt i => exact fun m hm => absurd hm (by simp [Operation.moments])
    | cycle =>
      rcases ready with _ | ⟨q, rest⟩
      · intro m hm
        rw [Operation.moments, h.moments_nil] at hm
        exact absurd hm (by simp)
      obtain ⟨start, stop, status, k', _, _, _, hturn, hstart, -⟩ := h.turn
      intro m hm hpid
      rw [hturn.pid hstart h.toFramed (h.ledger.within h.fits (by simp)) m hm] at hpid
      -- No two processes have one number, and a ready process does not wait.
      obtain rfl := h.pid_inj hnodup (by simp) (List.mem_append_right _ hr) hpid
      exact h.not_waiting_of_ready List.mem_cons_self hr
  rw [calls, List.filter_eq_nil_iff.mpr fun m hm => by simpa using hne m hm]
  rfl

/-- Nothing is reported as an output of a process that goes on waiting. -/
theorem Sound.told_nil (h : Sound k free ready waiting []) (hnodup : k.living.Nodup) (hr : r ∈ waiting)
    (hstill : (op.apply k).isWaiting r = true) : op.told k (r.pid k.memory) = [] := by
  rcases h.shown_cases op with hnone | ⟨q, hq, -, hone, hreleased⟩
  · rw [Operation.told, hnone]
    rfl
  · rw [Operation.told, hone, List.filter_cons_of_neg, List.filter_nil, List.map_nil]
    rw [decide_eq_true_eq]
    intro heq
    obtain rfl := h.pid_inj hnodup (List.mem_append_right _ hq) (List.mem_append_right _ hr) heq
    exact absurd (hstill.symm.trans hreleased) (by simp)

/-- What is reported as outputs of the process `pid` (`told`) belongs to its calls, each to one; and
    if the process waits, then it has made its last call for that, and no output belongs to it
    yet. -/
structure Told (k : Kernel) (pid : Word) (calls told : List (WaitReason × Word)) : Prop where
  sublist : told.Sublist calls
  pending : ∀ r, k.isWaiting r = true → r.pid k.memory = pid →
    ∃ earlier, calls = earlier ++ [r.awaited k.memory] ∧ told.Sublist earlier

/-- What an operation reports as an output belongs to the last call of the process:
    `ts ++ op.told k pid` is a sublist of the calls so far. -/
theorem Told.append_told (h : Told k pid cs ts) (hsound : Sound k free ready waiting [])
    (hnodup : k.living.Nodup) (op : Operation) : (ts ++ op.told k pid).Sublist cs := by
  rcases hsound.shown_cases op with hnone | ⟨r, hr, rfl, hone, -⟩
  · rw [Operation.told, hnone, List.filter_nil, List.map_nil, List.append_nil]
    exact h.sublist
  rw [Operation.told, hone]
  by_cases hpid : r.pid k.memory = pid
  · subst hpid
    obtain ⟨earlier, rfl, hearlier⟩ := h.pending r (hsound.isWaiting_iff.mpr hr) rfl
    rw [List.filter_cons_of_pos (by simp), List.filter_nil, List.map_singleton,
      hsound.awaits_eq hnodup hr]
    exact hearlier.append_right _
  · rw [List.filter_cons_of_neg (by simpa using hpid), List.filter_nil, List.map_nil, List.append_nil]
    exact h.sublist

/-- **One operation** keeps `Told`: the calls get those of `op.moments k`, and what is told gets
    `op.told k pid`. -/
theorem Told.apply (h : Told k pid cs ts) (hk : Reachable config catalog k) (hnodup : k.living.Nodup)
    (op : Operation) :
    Told (op.apply k) pid (cs ++ calls pid (op.moments k)) (ts ++ op.told k pid) := by
  obtain ⟨-, -, free, ready, waiting, hsound⟩ := hk.atRest
  obtain ⟨k', free', ready', waiting', rfl, hchange, h'⟩ := hsound.change op
  -- Calls are made in turns and outputs are told of between them, so that an operation does one of both.
  refine ⟨(h.append_told hsound hnodup op).trans (List.sublist_append_left _ _), fun r hr hpid => ?_⟩
  rcases hchange.waits hsound (h'.isWaiting_iff.mp hr) with
    ⟨hwaits, hsame⟩ | ⟨rfl, hready, ms, m, hms, hm, hnumber⟩
  · -- Somebody else may have called, and others may have been told something.
    have hwaits' := hsound.isWaiting_iff.mpr hwaits
    have hpid : r.pid k.memory = pid := (hsound.get_lasting (.inr hwaits') (.inr hr) rfl).symm.trans hpid
    obtain ⟨earlier, hcs, hearlier⟩ := h.pending r hwaits' hpid
    subst hpid
    rw [hsound.calls_nil hnodup hwaits, hsound.told_nil hnodup hwaits hr, List.append_nil,
      List.append_nil, hsame]
    exact ⟨earlier, hcs, hearlier⟩
  · -- The process has just made its call.
    have hpid : r.pid k.memory = pid :=
      (hsound.get_lasting (.inl (hsound.isReady_iff.mpr hready)) (.inr hr) rfl).symm.trans hpid
    have hcalls : calls pid (Operation.cycle.moments k)
        = calls pid ms ++ [r.awaited (Operation.cycle.apply k).memory] := by
      rw [Operation.moments, hms, calls_append]
      congr 1
      rw [calls, List.filter_cons_of_pos (by simpa using hnumber.trans hpid), List.filter_nil,
        List.filterMap_cons_some hm, List.filterMap_nil]
    refine ⟨cs ++ calls pid ms, by rw [hcalls, List.append_assoc], ?_⟩
    have htold : Operation.cycle.told k pid = [] := rfl
    rw [htold, List.append_nil]
    exact h.sublist.trans (List.sublist_append_left _ _)

/-! ### Histories -/

/-- **A history** in which no two processes have one number keeps `Told`: the calls get those of
    `k.trace ops`, and what is told gets `told pid k ops`. -/
theorem Told.after (h : Told k pid cs ts) (hk : Reachable config catalog k)
    (hnodup : ∀ before after, ops = before ++ after → (k.after before).living.Nodup) :
    Told (k.after ops) pid (cs ++ calls pid (k.trace ops)) (ts ++ told pid k ops) := by
  induction ops generalizing k cs ts with
  | nil =>
    rw [trace, told, List.append_nil]
    exact (List.append_nil cs).symm ▸ h
  | cons op ops ih =>
    have hrest := ih (h.apply hk (hnodup [] _ rfl) op) (hk.apply op)
      fun before after hops => hnodup (op :: before) after (by rw [hops]; rfl)
    rw [trace, told, calls_append, ← List.append_assoc, ← List.append_assoc]
    exact hrest

/-- As long as there are numbers left, no two processes have one: `living` has no duplicates at any
    time of a history that creates less than `Int64.maxValue` processes. -/
theorem living_nodup (hboot : (boot config catalog).outcome = .ok k₀)
    (hlen : (k₀.created ops).length < Int64.maxValue.toInt) (before after : List Operation)
    (hops : ops = before ++ after) : (k₀.after before).living.Nodup := by
  have hcensus := (census_boot hboot).after (.boot hboot) before
  refine (hcensus.nodup ?_).1
  rw [hops, created_append, List.length_append] at hlen
  rw [List.nil_append]
  omega

/-- In a new kernel, nobody has called for anything and nobody waits. -/
theorem told_boot (hboot : (boot config catalog).outcome = .ok k₀) (pid : Word) : Told k₀ pid [] [] := by
  obtain ⟨-, -, b, hsound⟩ := boot_nobody hboot
  exact ⟨List.Sublist.refl _, fun r hr => absurd (hsound.isWaiting_iff.mp hr) (by simp)⟩

/-- What is told of a process was told by the end of an output: for `x` in `told pid k ops` there is
    an `.outputCompletion pid` in `ops`, before which the process was waiting for `x.1`. -/
theorem Reachable.exists_of_mem_told (hk : Reachable config catalog k) {x : WaitReason × Word}
    (hx : x ∈ told pid k ops) :
    ∃ before after, ops = before ++ .interrupt (.outputCompletion pid) :: after
      ∧ x.1 = (k.after before).awaits pid := by
  induction ops generalizing k with
  | nil => exact absurd hx (by simp [told])
  | cons op ops ih =>
    -- Told of in the first operation, or in a later one.
    rcases List.mem_append.mp hx with hx | hx
    · obtain ⟨o, ho, rfl⟩ := List.mem_map.mp hx
      obtain ⟨hshown, hpid⟩ := List.mem_filter.mp ho
      obtain ⟨-, -, _, _, _, hsound⟩ := hk.atRest
      rcases hsound.shown_cases op with hnone | ⟨r, -, rfl, hone, -⟩
      · rw [hnone] at hshown
        exact absurd hshown (by simp)
      · rw [hone, List.mem_singleton] at hshown
        subst hshown
        have hpid : r.pid k.memory = pid := by simpa using hpid
        exact ⟨[], ops, by rw [hpid]; rfl, rfl⟩
    · obtain ⟨before, after, rfl, hreason⟩ := ih (hk.apply op) hx
      exact ⟨op :: before, after, rfl, hreason⟩

end Kernel

/-! ### Runs -/

namespace Session

open Kernel

variable {config : Config} {catalog : Catalog} {k₀ : Kernel} {s t : Session} {maxCycles : Nat}
variable {events es : List Interrupt} {pid : Word}

/-- The events `es` that a run delivers are the first ones of the sequence, and nothing (`.none`)
    once there are none. -/
theorem Ended.delivered (h : Ended k₀ events maxCycles es s) :
    ∃ taken j, taken <+: events ∧ es = taken ++ List.replicate j .none ∧ (j ≠ 0 → taken = events) := by
  rcases h.2 with ⟨hunder, -⟩ | ⟨-, -, hevents⟩
  · obtain ⟨taken, j, hevents, hes, hj⟩ := hunder.taken
    refine ⟨taken, j, ⟨s.events, hevents.symm⟩, hes, fun hne => ?_⟩
    rw [hevents, hj hne, List.append_nil]
  · exact ⟨es, 0, ⟨_, hevents.symm⟩, (List.append_nil es).symm, fun hne => absurd rfl hne⟩

/-- A run with as many cycles as events has delivered just these: `es = events`. -/
theorem delivered_all {taken : List Interrupt} {j : Nat} (htaken : taken <+: events)
    (hes : es = taken ++ List.replicate j .none) (hj : j ≠ 0 → taken = events)
    (hlen : es.length = events.length) : es = events := by
  have hcount := congrArg List.length hes
  rw [List.length_append, List.length_replicate] at hcount
  by_cases hnone : j = 0
  · subst hnone
    rw [List.replicate_zero, List.append_nil] at hes
    subst hes
    exact htaken.eq_of_length hlen
  · rw [hj hnone] at hcount
    omega

/-- **The outputs of a run.**  On a new kernel, with any programs, events and limit, the control loop
    delivers the first events of the sequence.  As long as there are numbers left for processes, what it
    reports as outputs of a process are values that were in its register of results when it called for a
    character or for the end of an output, in the order of these calls, and each call is used once at most.
    If no end of an output releases the process while it waits for a character, then these are values with
    which it called for the end of an output. -/
theorem run_outputs (hc : config.validate = .ok ()) (catalog : Catalog) (events : List Interrupt)
    (maxCycles : Nat) :
    ∃ k₀ summary t es, (Kernel.boot config catalog).outcome = .ok k₀
      ∧ exec (run maxCycles) { kernel := k₀, events } = (.ok summary, t)
      ∧ (∃ taken j, taken <+: events ∧ es = taken ++ List.replicate j .none ∧ (j ≠ 0 → taken = events))
      ∧ summary.allCycles = es.length ∧
      let ops := turnsOf es ++ [.interrupt .shutdown]
      t.kernel = k₀.after ops ∧ ((k₀.created ops).length < Int64.maxValue.toInt → ∀ pid,
        let values := (summary.outputs.filter (·.pid = pid)).map (·.value)
        let calls := calls pid (k₀.trace ops)
        values.Sublist (calls.map Prod.snd)
          ∧ ((∀ before after, ops = before ++ .interrupt (.outputCompletion pid) :: after →
              (k₀.after before).awaits pid ≠ .inputCompletion) →
            values.Sublist ((calls.filter (·.1 = .outputCompletion)).map Prod.snd))) := by
  obtain ⟨k₀, b, hboot, -⟩ := boot_sound catalog hc
  obtain ⟨es, s, t, hrun, hended, -, hclosed⟩ := run_closed hboot events maxCycles
  refine ⟨k₀, t.summary, t, es, hboot, hrun, hended.delivered, hclosed.cycles, hclosed.kernel,
    fun hlen pid => ?_⟩
  have hk : Reachable config catalog k₀ := .boot hboot
  have htold := (told_boot hboot pid).after hk (living_nodup hboot hlen)
  rw [List.nil_append, List.nil_append] at htold
  simp only []
  rw [hclosed.outputs, ← map_snd_told]
  refine ⟨htold.sublist.map _, fun hmatch => ?_⟩
  -- What was told was told of processes that waited for the end of an output.
  have hfilter : (told pid k₀ (turnsOf es ++ [.interrupt .shutdown])).filter (·.1 = .outputCompletion)
      = told pid k₀ (turnsOf es ++ [.interrupt .shutdown]) := by
    refine List.filter_eq_self.mpr fun x hx => decide_eq_true ?_
    obtain ⟨before, after, hops, hreason⟩ := hk.exists_of_mem_told hx
    exact (fst_of_mem_calls (htold.sublist.subset hx)).resolve_left fun hinput =>
      hmatch before after hops (hreason.symm.trans hinput)
  rw [← hfilter]
  exact (htold.sublist.filter _).map _

/-- A process writes a character, and is told of the end of the output. -/
theorem run_outputs_written :
    let config : Config := { layout := ⟨⟨0, 9⟩, ⟨10, 29⟩, ⟨30, 89⟩⟩, stackSize := 2 }
    let catalog := Catalog.ofList [("write", ⟨[(0, 51160), (1, 72), (2, 126000), (3, 9), (4, 0)], 0⟩)]
    let events := [.runProgram "write" 1, .outputCompletion 1]
    let ops := turnsOf events ++ [.interrupt .shutdown]
    ∃ k₀ summary t, (Kernel.boot config catalog).outcome = .ok k₀
      ∧ exec (run 10) { kernel := k₀, events } = (.ok summary, t)
      ∧ t.kernel = k₀.after ops ∧ summary.outputs = [⟨1, 72⟩]
      ∧ [72].Sublist (((calls 1 (k₀.trace ops)).filter (·.1 = .outputCompletion)).map Prod.snd) := by
  intro config catalog events ops
  obtain ⟨k₀, hboot, hcreated, hawaits, hsummary⟩ :
      ∃ k₀, (Kernel.boot config catalog).outcome = .ok k₀ ∧
        (k₀.created ops).length = 1 ∧ (k₀.after (ops.take 2)).awaits 1 = .outputCompletion
          ∧ (exec (run 10) { kernel := k₀, events }).1.map (fun s => (s.outputs, s.allCycles))
            = .ok ([⟨1, 72⟩], 2) := exists_boot (by decide +kernel)
  obtain ⟨k₀', summary, t, es, hboot', hexec, ⟨taken, j, htaken, hes, hj⟩, hcycles, hkernel, houtputs⟩ :=
    run_outputs (show config.validate = .ok () by decide) catalog events 10
  obtain rfl := Except.ok.inj (hboot.symm.trans hboot')
  rw [hexec] at hsummary
  obtain ⟨hshown, hcount⟩ := Prod.mk.inj (Except.ok.inj hsummary)
  have hall : es = events := delivered_all htaken hes hj (hcycles.symm.trans hcount)
  rw [hall] at hkernel houtputs
  refine ⟨k₀, summary, t, hboot, hexec, hkernel, hshown, ?_⟩
  obtain ⟨-, hwritten⟩ := houtputs (by rw [hcreated]; decide) 1
  rw [hshown] at hwritten
  refine hwritten fun before after hops => ?_
  -- The end of the output comes after the first two operations.
  have hsplit : ∀ before after,
      [.interrupt (.runProgram "write" 1), .cycle, .interrupt (.outputCompletion 1), .cycle,
        .interrupt .shutdown] = before ++ Operation.interrupt (.outputCompletion 1) :: after →
      before = [.interrupt (.runProgram "write" 1), .cycle] := by
    intro before after hops
    rcases before with _ | ⟨a, _ | ⟨b, _ | ⟨c, _ | ⟨d, _ | ⟨e, before⟩⟩⟩⟩⟩ <;> simp_all
  have hbefore : before = ops.take 2 := hsplit before after hops
  rw [hbefore, hawaits]
  decide

/-- A process reads a character, and is told of the end of an output.  The run reports the content of its
    register as its output, though it has written nothing. -/
theorem run_outputs_unwritten :
    let config : Config := { layout := ⟨⟨0, 9⟩, ⟨10, 29⟩, ⟨30, 89⟩⟩, stackSize := 2 }
    let catalog := Catalog.ofList [("read", ⟨[(0, 51160), (1, 65), (2, 126000), (3, 8), (4, 0)], 0⟩)]
    let events := [.runProgram "read" 1, .outputCompletion 1]
    let ops := turnsOf events ++ [.interrupt .shutdown]
    ∃ k₀ summary t, (Kernel.boot config catalog).outcome = .ok k₀
      ∧ exec (run 10) { kernel := k₀, events } = (.ok summary, t) ∧ t.kernel = k₀.after ops ∧
      let written := ((calls 1 (k₀.trace ops)).filter (·.1 = .outputCompletion)).map Prod.snd
      ¬ ((summary.outputs.filter (·.pid = 1)).map (·.value)).Sublist written
        ∧ summary.outputs = [⟨1, 65⟩] ∧ summary.outputOf 1 = "A" ∧ written = [] := by
  intro config catalog events ops
  obtain ⟨k₀, hboot, hwritten, hsummary⟩ : ∃ k₀, (Kernel.boot config catalog).outcome = .ok k₀ ∧
      ((calls 1 (k₀.trace ops)).filter (·.1 = .outputCompletion)).map Prod.snd = []
        ∧ (exec (run 10) { kernel := k₀, events }).1.map
            (fun s => (s.outputs, s.outputOf 1, s.allCycles))
          = .ok ([⟨1, 65⟩], "A", 2) := exists_boot (by decide +kernel)
  obtain ⟨es, s, t, hexec, hended, -, hclosed⟩ := run_closed hboot events 10
  rw [hexec] at hsummary
  obtain ⟨hshown, hrest⟩ := Prod.mk.inj (Except.ok.inj hsummary)
  obtain ⟨htext, hcount⟩ := Prod.mk.inj hrest
  -- Two cycles for two events: both were delivered, and the history is the one of `ops`.
  obtain ⟨taken, j, htaken, hes, hj⟩ := hended.delivered
  obtain rfl := delivered_all htaken hes hj (hclosed.cycles.symm.trans hcount)
  refine ⟨k₀, t.summary, t, hboot, hexec, hclosed.kernel, ?_, hshown, htext, hwritten⟩
  simp only [hwritten, hshown]
  decide

end Session

end Timeshare
