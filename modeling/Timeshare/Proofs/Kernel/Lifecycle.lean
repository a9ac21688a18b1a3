import Timeshare.Proofs.Kernel.Change
import Timeshare.Proofs.Kernel.Living

namespace Timeshare

/-!
# From creation to end

A process can be found from the creation that has returned its number until its end is reported, and all
this time its record says in which queue it is.

* `Kernel.Operation.came`, `Kernel.Operation.gone` — whose creation, and whose end, the result of an
  operation reports; `Kernel.created`, `Kernel.reported` — the same for a history.
* `Kernel.Sound.turnover`, `Kernel.Census.after` — what is reported is what happens, in one operation
  and in a history.
* `Kernel.Reachable.running` — nobody has the processor between two operations.
* `Kernel.Census.ascending`, `Kernel.Census.nodup` — as long as there are numbers left, each is larger
  than those before, and those live who have come and not gone.
* `Kernel.queues_exact` — what the queues hold after a history, and how their records are marked.
-/

namespace Kernel

open Timeshare.Action

variable {k k' k₀ : Kernel} {free : List FreeBlock} {ready waiting held : List Record} {r : Record}
variable {config : Config} {catalog : Catalog}

/-! ### What operations report -/

/-- The number that a creation or an interrupt returns for a new process, as a list that has it or
    is empty. -/
def Operation.came (op : Operation) (k : Kernel) : List Word :=
  match op with
  | .create program priority =>
    match exec (Kernel.create program priority) k with
    | (.ok r, k') => [r.pid k'.memory]
    | (.error _, _) => []
  | .cycle => []
  | .interrupt i => InterruptOutcome.came (exec (Kernel.interrupt i) k).1

/-- The processes whose end is reported: by a cycle in which the process halts or has a fault, or by a
    shutdown. -/
def Operation.gone (op : Operation) (k : Kernel) : List Word :=
  match op with
  | .create .. => []
  | .cycle =>
    match (exec Kernel.cycle k).1 with
    | .ok report => CycleReport.gone report
    | .error _ => []
  | .interrupt i => InterruptOutcome.gone (exec (Kernel.interrupt i) k).1

/-- The numbers that the creations of a history have returned. -/
def created : Kernel → List Operation → List Word
  | _, [] => []
  | k, op :: ops => op.came k ++ created (op.apply k) ops

/-- What a history has created is what its parts have created, one after the other: `ops` from `k`,
    and `ops'` from `k.after ops`. -/
theorem created_append (k : Kernel) (ops ops' : List Operation) :
    k.created (ops ++ ops') = k.created ops ++ (k.after ops).created ops' := by
  induction ops generalizing k with
  | nil => rfl
  | cons op ops ih => rw [List.cons_append, created, created, ih, List.append_assoc, after, after,
      List.foldl_cons]

/-- The processes whose end is reported in a history. -/
def reported : Kernel → List Operation → List Word
  | _, [] => []
  | k, op :: ops => op.gone k ++ reported (op.apply k) ops

/-! ### The processes of a history -/

variable {came gone : List Word}

namespace Sound

/-- **One operation.**  Those come whose creation is reported, and those go whose end is:
    `Turnover k (op.came k) (op.gone k) (op.apply k)`. -/
theorem turnover (h : Sound k free ready waiting []) (op : Operation) :
    Turnover k (op.came k) (op.gone k) (op.apply k) := by
  unfold Operation.came Operation.gone Operation.apply
  cases op with
  | create program priority =>
    obtain ⟨k', hexec, -, hend⟩ := h.turnover_create program priority
    rcases hend with ⟨e, he, hturnover⟩ | ⟨x, hx, hpid, hturnover⟩
    · simp only [hexec, he]
      exact hturnover
    · simp only [hexec, hx, hpid]
      exact hturnover
  | cycle =>
    obtain ⟨report, k', hexec, -, hturnover⟩ := h.turnover_cycle
    simp only [hexec]
    exact hturnover
  | interrupt i =>
    obtain ⟨result, k', hexec, hturnover, -⟩ := h.turnover_interrupt i
    simp only [hexec]
    exact hturnover

end Sound

/-- **A history.**  All are counted who have come before it and in it: `came ++ k.created ops`, and
    those who have gone: `gone ++ k.reported ops`. -/
theorem Census.after (h : Census k came gone) (hk : Reachable config catalog k)
    (ops : List Operation) :
    Census (k.after ops) (came ++ k.created ops) (gone ++ k.reported ops) := by
  induction ops generalizing k came gone with
  | nil =>
    rw [created, reported, List.append_nil, List.append_nil]
    exact h
  | cons op ops ih =>
    obtain ⟨-, -, _, _, _, hsound⟩ := hk.atRest
    have hrest := ih (h.turnover (hsound.turnover op)) (hk.apply op)
    rw [List.append_assoc, List.append_assoc] at hrest
    exact hrest

/-- A new kernel has no process yet: `Census k [] []`. -/
theorem census_boot (h : (boot config catalog).outcome = .ok k) : Census k [] [] := by
  obtain ⟨-, -, b, hsound⟩ := boot_nobody h
  obtain ⟨-, hnext, -⟩ := boot_fresh h
  refine ⟨⟨0, rfl, hnext⟩, ?_⟩
  rw [hsound.living_eq]
  exact List.Perm.refl _

/-- Each number is larger than those before, until none is left; all are at least 1 and less than
    `k.nextPid`. -/
theorem Census.ascending (h : Census k came gone) (hlen : came.length < Int64.maxValue.toInt) :
    came.Pairwise (· < ·) ∧ ∀ pid ∈ came, 1 ≤ pid ∧ pid < k.nextPid := by
  -- The numbers are those from 1 to `n`, and `n` is below the greatest word.
  obtain ⟨n, rfl, hnext⟩ := h.numbers
  have hmax : Int64.maxValue.toInt = 9223372036854775807 := rfl
  rw [List.length_map, List.length_range, hmax] at hlen
  constructor
  · refine List.pairwise_map.mpr (List.pairwise_lt_range.imp_of_mem fun {i j} hi hj hij => ?_)
    have hi := List.mem_range.mp hi
    have hj := List.mem_range.mp hj
    exact (Int64.ofNat_lt_iff_lt (by omega) (by omega)).mpr (by omega)
  · intro pid hpid
    obtain ⟨i, hi, rfl⟩ := List.mem_map.mp hpid
    have hi := List.mem_range.mp hi
    rw [hnext]
    constructor
    · rw [Int64.le_iff_toInt_le, Int64.toInt_ofNat_of_lt (by omega)]
      show (1 : Int) ≤ _
      omega
    · exact (Int64.ofNat_lt_iff_lt (by omega) (by omega)).mpr (by omega)

/-- As long as there are numbers left, no two processes have one number, and those live who have
    come and not gone: `pid ∈ k.living` says `pid ∈ came` and `pid ∉ gone`. -/
theorem Census.nodup (h : Census k came gone) (hlen : came.length < Int64.maxValue.toInt) :
    k.living.Nodup ∧ ∀ pid, pid ∈ k.living ↔ pid ∈ came ∧ pid ∉ gone := by
  have hcame : came.Nodup := (h.ascending hlen).1.imp Int64.ne_of_lt
  obtain ⟨hliving, -, hapart⟩ := List.nodup_append.mp (h.balance.nodup_iff.mpr hcame)
  refine ⟨hliving, fun pid => ?_⟩
  rw [← h.balance.mem_iff, List.mem_append]
  constructor
  · exact fun hpid => ⟨.inl hpid, fun hgone => hapart pid hpid pid hgone rfl⟩
  · rintro ⟨hpid | hgone, hnot⟩
    · exact hpid
    · exact absurd hgone hnot

/-! ### The processor -/

/-- A turn ends with the processor free: `stop.running = none`. -/
theorem Turn.running {start stop : Kernel} {status : Except Fault Status}
    (h : Turn r k start stop status k') : stop.running = none := by
  obtain ⟨-, -, -, hrun, -⟩ := h
  rw [Sound.exec_runProcess] at hrun
  obtain ⟨-, rfl⟩ := Prod.mk.inj hrun
  rfl

/-- **One operation** leaves the processor free: `k'.running = none`. -/
theorem Change.running {free' : List FreeBlock} {ready' waiting' : List Record} {op : Operation}
    (h : Change k free ready waiting op k' free' ready' waiting') (hfree : k.running = none) :
    k'.running = none := by
  cases h with
  | nothing _ _ _ => exact hfree
  | undone _ hundone => exact hundone.running.trans hfree
  | created _ _ _ hnew _ => exact hnew.running.trans hfree
  | turn _ hturn _ _ _ _ hleft => exact hleft.running hturn.running
  | released _ _ _ _ hreleased _ => exact hreleased.running.trans hfree
  | shutDown _ _ hrunning => exact hrunning hfree

/-- An operation on a kernel in order leaves the processor free: `(op.apply k).running = none`. -/
theorem Sound.running_apply (h : Sound k free ready waiting []) (hfree : k.running = none)
    (op : Operation) : (op.apply k).running = none := by
  obtain ⟨k', _, _, _, rfl, hchange, -⟩ := h.change op
  exact hchange.running hfree

/-- Nobody has the processor between two operations: `k.running = none`. -/
theorem Reachable.running (h : Reachable config catalog k) : k.running = none := by
  induction h with
  | boot h => exact (boot_fresh h).2.2
  | create h program priority ih =>
    obtain ⟨-, -, _, _, _, hsound⟩ := h.atRest
    exact hsound.running_apply ih (.create program priority)
  | cycle h ih =>
    obtain ⟨-, -, _, _, _, hsound⟩ := h.atRest
    exact hsound.running_apply ih .cycle
  | interrupt h i ih =>
    obtain ⟨-, -, _, _, _, hsound⟩ := h.atRest
    exact hsound.running_apply ih (.interrupt i)

/-! ### The queues -/

/-- The search for a number finds a process that has it, if one lives; `found.isSome` says
    `pid ∈ k.living`. -/
theorem Sound.find_spec (h : Sound k free ready waiting held) (pid : Word) :
    ∃ found, k.find? pid = .ok found
      ∧ (∀ r ∈ found, r ∈ ready ++ waiting ∧ r.pid k.memory = pid)
      ∧ (found.isSome ↔ pid ∈ k.living) := by
  refine ⟨(ready ++ waiting).find? fun r => r.pid k.memory = pid, ?_, fun r hr => ?_, ?_⟩
  · rw [Kernel.find?, h.readyRecords, h.waitingRecords]
    rfl
  · exact ⟨List.mem_of_find?_eq_some hr, by simpa using List.find?_some hr⟩
  · rw [h.living_eq, List.find?_isSome, List.mem_map]
    simp only [decide_eq_true_eq]

/-- **The queues are exact.**  After any history of a new kernel, nobody has the processor, the ready
    queue starts with the highest priority, and the records in the queues are marked as ready and as
    waiting for a character or an output.  Each number that a creation has returned belongs to a process
    in the queues or to one whose end was reported, and a number can be found just as often as it was
    returned and not yet reported.

    The numbers are counted up from 1, so that they run out.  Until then, no two processes have one
    number, all numbers are less than the next one, and those can be found that a creation has returned
    and whose end was not reported. -/
theorem queues_exact {k₀ : Kernel} (hboot : (boot config catalog).outcome = .ok k₀)
    (ops : List Operation) :
    ∃ ready waiting, (k₀.after ops).readyRecords = .ok ready
      ∧ (k₀.after ops).waitingRecords = .ok waiting ∧
      let k := k₀.after ops
      let pids := (ready ++ waiting).map (·.pid k.memory)
      let created := k₀.created ops
      let reported := k₀.reported ops
      k.running = none
        ∧ ready.Pairwise (fun p q => q.priority k.memory ≤ p.priority k.memory)
        ∧ (∀ r ∈ ready, r.state? k.memory = some .ready ∧ r.reason? k.memory = some .none)
        ∧ (∀ r ∈ waiting, r.state? k.memory = some .waiting ∧
          (r.reason? k.memory = some .inputCompletion ∨ r.reason? k.memory = some .outputCompletion))
        ∧ (pids ++ reported).Perm created ∧ k.nextPid = Int64.ofNat (created.length + 1)
        ∧ (∀ pid, ∃ found, k.find? pid = .ok found
          ∧ (∀ r ∈ found, r ∈ ready ++ waiting ∧ r.pid k.memory = pid)
          ∧ (found.isSome ↔ reported.count pid < created.count pid))
        ∧ (created.length < Int64.maxValue.toInt →
          pids.Nodup ∧ (∀ pid ∈ pids, 1 ≤ pid ∧ pid < k.nextPid)
            ∧ ∀ pid, (∃ r, k.find? pid = .ok (some r)) ↔ pid ∈ created ∧ pid ∉ reported) := by
  have hreach : Reachable config catalog (k₀.after ops) := (Reachable.boot hboot).after ops
  have hcensus := (census_boot hboot).after (.boot hboot) ops
  rw [List.nil_append, List.nil_append] at hcensus
  obtain ⟨-, -, free, ready, waiting, h⟩ := hreach.atRest
  have hbalance := hcensus.balance
  have hcount : ∀ pid, (k₀.after ops).living.count pid + (k₀.reported ops).count pid
      = (k₀.created ops).count pid := fun pid => by rw [← List.count_append, hbalance.count_eq]
  have hfind := h.find_spec
  refine ⟨ready, waiting, h.readyRecords, h.waitingRecords, hreach.running, h.standing.sorted,
    fun r hr => ⟨(h.standing.ready r hr).state, (h.standing.ready r hr).reason⟩,
    fun r hr => ⟨(h.standing.waiting r hr).state, (h.standing.waiting r hr).awaits⟩, ?_, ?_,
    fun pid => ?_, fun hlen => ?_⟩
  · rw [← h.living_eq]
    exact hbalance
  · obtain ⟨n, hn, hnext⟩ := hcensus.numbers
    rw [hnext, hn, List.length_map, List.length_range]
  · obtain ⟨found, hfound, hmem, hiff⟩ := hfind pid
    refine ⟨found, hfound, hmem, hiff.trans ?_⟩
    rw [← List.count_pos_iff, ← hcount pid]
    omega
  · obtain ⟨hnodup, hlives⟩ := hcensus.nodup hlen
    rw [← h.living_eq]
    refine ⟨hnodup, fun pid hpid => (hcensus.ascending hlen).2 pid ((hlives pid).mp hpid).1,
      fun pid => Iff.trans ?_ (hlives pid)⟩
    obtain ⟨found, hfound, -, hiff⟩ := hfind pid
    rw [← hiff, hfound, Option.isSome_iff_exists]
    simp only [Except.ok.injEq]

/-- Two processes are created, and the first one halts.  It cannot be found any more; the other one
    can. -/
theorem queues_exact_halt :
    let config : Config := { layout := ⟨⟨0, 9⟩, ⟨10, 29⟩, ⟨30, 89⟩⟩, stackSize := 2 }
    let catalog := Catalog.ofList [("halt", ⟨[(0, 0)], 0⟩)]
    let ops : List Operation := [.create "halt" 1, .create "halt" 1, .cycle]
    ∃ k₀, (boot config catalog).outcome = .ok k₀
      ∧ k₀.created ops = [1, 2] ∧ k₀.reported ops = [1]
      ∧ (¬ ∃ r, (k₀.after ops).find? 1 = .ok (some r))
      ∧ ∃ r, (k₀.after ops).find? 2 = .ok (some r) := by
  intro config catalog ops
  obtain ⟨k₀, hboot, hcreated, hreported⟩ : ∃ k₀, (boot config catalog).outcome = .ok k₀ ∧
      k₀.created ops = [1, 2] ∧ k₀.reported ops = [1] := exists_boot (by decide +kernel)
  obtain ⟨_, _, -, -, -, -, -, -, -, -, -, hlast⟩ := queues_exact hboot ops
  rw [hcreated, hreported] at hlast
  obtain ⟨-, -, hfind⟩ := hlast (by decide)
  refine ⟨k₀, hboot, hcreated, hreported, ?_, ?_⟩
  · rw [hfind]
    decide
  · rw [hfind]
    decide

end Kernel

end Timeshare
