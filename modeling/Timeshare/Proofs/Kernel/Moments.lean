import Timeshare.Proofs.Kernel.Context
import Timeshare.Proofs.Machine.Next
import Timeshare.Proofs.Machine.Visits

namespace Timeshare

/-!
# The instructions of a history

A history of the kernel is more than its operations: in a turn, a program executes instructions.  Here
they are listed, each with the process that executes it and the machine as it is before.

* `Moment` — a process and the machine that is about to execute its next instruction.
* `Kernel.moments k` — the moments of the next cycle; `Kernel.trace k ops` — those of a history.
* `Kernel.Turn.moments` — in a turn, they follow each other on a path from the machine that the process
  is given to the machine that it leaves.
* `Kernel.AliveBefore r k ops` — a process lives before each operation of a history.
-/

/-- A process that is about to execute its next instruction. -/
structure Moment where
  process : Record
  machine : Machine Pool

namespace Moment

/-- What answers the system calls of the process. -/
def handler (m : Moment) : TrapHandler Pool := Service.handler m.process

/-- The machine after the instruction. -/
def after (m : Moment) : Machine Pool := Machine.successor m.handler m.machine

/-- **A system call.**  What comes after the instruction is what the service makes of memory, the
    pool and the general registers, from the environment `env` of the call. -/
theorem after_call {m : Moment} (hL : m.machine.cpu.layout.Valid) {number : Word} {env : TrapState Pool}
    (h : m.machine.call? = some (number, env)) :
    env.memory = m.machine.memory ∧ env.host = m.machine.host ∧
      let t := (Action.exec (Service.handler m.process number) env).2
      m.after.memory = t.memory ∧ m.after.host = t.host
        ∧ ∀ i, m.after.cpu.registers.get i = t.registers.get i := by
  obtain ⟨i, o, u, hnext, hi, rfl, rfl⟩ := Machine.call?_eq_some_iff.mp h
  obtain ⟨-, hstill⟩ := Machine.next?_still hL hnext
  have hstep := congrArg Prod.snd (Machine.step_call m.handler hnext hi)
  refine ⟨hstill.memory, hstill.host, ?_, ?_, fun i => ?_⟩
  · rw [after, Machine.successor_memory, hstep]
    rfl
  · rw [after, Machine.successor_host, hstep]
    rfl
  · rw [after, Machine.successor_get, hstep]
    rfl

end Moment

/-- What a program does on the way stays where it may write: every machine `u` on the path is
    `Contained`, and so is the last one. -/
theorem Guest.Contained.path {l : Layout} {m₀ : Memory} {r : Record} {s t : Machine Pool}
    {ms : List (Machine Pool)} (hs : Guest.Contained l m₀ s) (hL : l.Valid)
    (h : Machine.Path (Service.handler r) s ms t) :
    (∀ u ∈ ms, Guest.Contained l m₀ u) ∧ Guest.Contained l m₀ t :=
  h.invariant (fun _ hu => Machine.successor_of_step (fun _ cost h => h.tick cost) (hu.step hL)) hs

namespace Kernel

open Timeshare.Action

variable {k k' start stop : Kernel} {free : List FreeBlock} {ready waiting held : List Record}
variable {r : Record} {status : Except Fault Status}

/-- The instructions that the next cycle executes. -/
def moments (k : Kernel) : List Moment :=
  match exec popReady k with
  | (.ok (some r), k) =>
    let start := (exec (dispatch r) k).2
    (Machine.sliceVisits (Service.handler r) start.config.timeSlice start.machine).map (Moment.mk r)
  | _ => []

/-- The instructions that an operation executes. -/
def Operation.moments (k : Kernel) : Operation → List Moment
  | .cycle => k.moments
  | _ => []

/-- The instructions that a history executes. -/
def trace : Kernel → List Operation → List Moment
  | _, [] => []
  | k, op :: ops => op.moments k ++ trace (op.apply k) ops

/-- The instructions of a history are those of its parts, one after the other: `ops` from `k`, and
    `ops'` from `k.after ops`. -/
theorem trace_append (k : Kernel) (ops ops' : List Operation) :
    k.trace (ops ++ ops') = k.trace ops ++ (k.after ops).trace ops' := by
  induction ops generalizing k with
  | nil => rfl
  | cons op ops ih => rw [List.cons_append, trace, trace, ih, List.append_assoc, after, after,
      List.foldl_cons]

/-- **The instructions of a turn** lead from the machine that the process is given to the machine
    that it leaves: `Machine.Path` from `start.machine` to `stop.machine`. -/
theorem Turn.moments (h : Turn r k start stop status k') :
    ∃ ms, k.moments = ms.map (Moment.mk r)
      ∧ Machine.Path (Service.handler r) start.machine ms stop.machine := by
  obtain @⟨k₁, hpop, -, hdispatch, hrun, -⟩ := h
  rw [Sound.exec_runProcess] at hrun
  obtain ⟨-, rfl⟩ := Prod.mk.inj hrun
  refine ⟨_, ?_, Machine.runSlice_path _ _ _⟩
  unfold Kernel.moments
  simp only [hpop, hdispatch]

/-- A program leaves the configuration alone: `stop.config = start.config`. -/
theorem Turn.config (h : Turn r k start stop status k') : stop.config = start.config := by
  obtain ⟨-, -, -, hrun, -⟩ := h
  rw [Sound.exec_runProcess] at hrun
  obtain ⟨-, rfl⟩ := Prod.mk.inj hrun
  rfl

/-- A process that gets the processor has not written anything yet: `Guest.Contained` holds of its
    first machine. -/
theorem Dispatched.contained (hstart : Dispatched r k start) (h : Framed k) :
    Guest.Contained k.config.layout start.memory start.machine := by
  refine ⟨?_, (congrArg Pool.region hstart.userPool).trans h.userRegion, Memory.SameOn.refl _ _⟩
  rw [hstart.cpu]
  exact h.layout

/-- All instructions of a turn, `k.moments`, are those of its process, which leaves the pool of
    process records alone. -/
theorem Turn.contained (h : Turn r k start stop status k') (hstart : Dispatched r k start)
    (hframed : Framed k) :
    ∀ m ∈ k.moments, m.process = r ∧ Guest.Contained k.config.layout start.memory m.machine := by
  obtain ⟨ms, hms, hpath⟩ := h.moments
  obtain ⟨hall, -⟩ := (hstart.contained hframed).path hframed.valid.layout hpath
  intro m hm
  rw [hms] at hm
  obtain ⟨s, hs, rfl⟩ := List.mem_map.mp hm
  exact ⟨rfl, hall s hs⟩

/-- With nobody ready, no instruction is executed: `k.moments = []`. -/
theorem Sound.moments_nil (h : Sound k free [] waiting held) : k.moments = [] := by
  rw [moments, h.popReady_nil]

/-! ### Who lives -/

/-- The process `r` lives before each operation of a history. -/
def AliveBefore (r : Record) : Kernel → List Operation → Prop
  | _, [] => True
  | k, op :: ops => k.Alive r ∧ AliveBefore r (op.apply k) ops

/-- **Every process was created**, and has lived since: a process that lives in `k` comes from a
    creation in some `k₀` that comes about, with `Lives r k₁ k` for the kernel `k₁` after it. -/
theorem Reachable.exists_creation {config : Config} {catalog : Catalog}
    (hk : Reachable config catalog k) (hr : k.Alive r) :
    ∃ k₀ program priority k₁, Reachable config catalog k₀
      ∧ exec (Kernel.create program priority) k₀ = (.ok r, k₁) ∧ Lives r k₁ k := by
  -- Who lives after an operation was created by it or has lived before it.
  have hstep : ∀ {k : Kernel} (op : Operation), Reachable config catalog k →
      (k.Alive r → ∃ k₀ program priority k₁, Reachable config catalog k₀
        ∧ exec (Kernel.create program priority) k₀ = (.ok r, k₁) ∧ Lives r k₁ k) →
      (op.apply k).Alive r → ∃ k₀ program priority k₁, Reachable config catalog k₀
        ∧ exec (Kernel.create program priority) k₀ = (.ok r, k₁) ∧ Lives r k₁ (op.apply k) := by
    intro k op hk ih hr
    obtain ⟨-, -, _, _, _, h⟩ := hk.atRest
    obtain ⟨k', _, _, _, hk', hchange, h'⟩ := h.change op
    rcases hchange.mem (h'.alive_iff.mp (hk' ▸ hr)) with hold | ⟨program, priority, hcreate⟩
    · obtain ⟨k₀, program, priority, k₁, hk₀, hcreate, hlives⟩ := ih (h.alive_iff.mpr hold)
      exact ⟨k₀, program, priority, k₁, hk₀, hcreate, hlives.step op hr⟩
    · exact ⟨k, program, priority, k', hk, hcreate, hk' ▸ .refl⟩
  induction hk with
  | boot hboot =>
    obtain ⟨-, -, b, h⟩ := boot_nobody hboot
    exact absurd (h.alive_iff.mp hr) (by simp)
  | create hk program priority ih => exact hstep (.create program priority) hk ih hr
  | cycle hk ih => exact hstep .cycle hk ih hr
  | interrupt hk i ih => exact hstep (.interrupt i) hk ih hr

/-- A process that lives was new once, in a kernel that comes about. -/
theorem Reachable.exists_newProcess {config : Config} {catalog : Catalog}
    (hk : Reachable config catalog k) (hr : k.Alive r) :
    ∃ k₀ program priority k₁, Reachable config catalog k₀
      ∧ exec (Kernel.create program priority) k₀ = (.ok r, k₁) ∧ Lives r k₁ k
      ∧ Reachable config catalog k₁ ∧ k₁.Alive r ∧ k₁.config = k₀.config ∧ Sound.NewProcess k₀ r k₁ := by
  obtain ⟨k₀, program, priority, k₁, hk₀, hcreate, hlives⟩ := hk.exists_creation hr
  obtain ⟨-, -, free, ready, waiting, h₀⟩ := hk₀.atRest
  obtain ⟨k₁', hexec, hconfig, -, -, -, hend⟩ := h₀.create program priority
  obtain ⟨hres, rfl⟩ := Prod.mk.inj (hexec.symm.trans hcreate)
  rcases hend with ⟨_, _, hfail, -⟩ | ⟨x, _, _, _, hok, -, hnew, h₁⟩
  · exact absurd (hres.symm.trans hfail) (by simp)
  obtain rfl := Except.ok.inj (hres.symm.trans hok)
  have hk₁ := hk₀.create program priority
  rw [hcreate] at hk₁
  exact ⟨k₀, program, priority, k₁', hk₀, hcreate, hlives, hk₁, h₁.alive_iff.mpr (by simp), hconfig, hnew⟩

/-! ### Whose instructions they are -/

/-- The instructions in `ms` that the process `r` executes. -/
def own (r : Record) (ms : List Moment) : List Moment := ms.filter (·.process = r)

/-- The own instructions of two rows are those of one and then those of the other. -/
theorem own_append (xs ys : List Moment) : own r (xs ++ ys) = own r xs ++ own r ys :=
  List.filter_append xs ys

/-- All instructions of a turn are those of its process: `own r` leaves them all. -/
theorem own_map (ms : List (Machine Pool)) : own r (ms.map (Moment.mk r)) = ms.map (Moment.mk r) :=
  List.filter_eq_self.mpr fun m hm => by
    obtain ⟨s, -, rfl⟩ := List.mem_map.mp hm
    exact decide_eq_true rfl

/-- A process that has no turn executes no instruction: `own r (op.moments k) = []`. -/
theorem Sound.own_nil (h : Sound k free ready waiting []) {op : Operation}
    (hturn : op = .cycle → k.isNext r = false) : own r (op.moments k) = [] := by
  cases op with
  | create program priority => rfl
  | interrupt i => rfl
  | cycle =>
    rcases ready with _ | ⟨q, rest⟩
    · show own r k.moments = []
      rw [h.moments_nil]
      rfl
    obtain ⟨start, stop, status, k', _, _, _, hq, -⟩ := h.turn
    obtain ⟨ms, hms, -⟩ := hq.moments
    -- The turn is that of another process.
    have hne : q ≠ r := by
      rintro rfl
      exact absurd (h.isNext_iff.mpr rfl) (Bool.eq_false_iff.mp (hturn rfl))
    refine List.filter_eq_nil_iff.mpr fun m hm => ?_
    have hm' : m ∈ k.moments := hm
    rw [hms] at hm'
    obtain ⟨s, -, rfl⟩ := List.mem_map.mp hm'
    simpa using hne

end Kernel

end Timeshare
