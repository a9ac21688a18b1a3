import Timeshare.Proofs.Checked.Machine
import Timeshare.Proofs.Checked.Process
import Timeshare.Proofs.Kernel.Conservation

namespace Timeshare

/-!
# The calculations of the kernel

The system services, the life of a process and the scheduling cycles, with their calculations checked.

* `Checked.handler`, `Checked.create`, `Checked.terminate`, `Checked.cycle`.
* `Checked.Stays k x y t R` — from the kernel `t`, the computation `x` does not abort and does what `y` does,
  and the regions stay those of the kernel `k`, so that the next computation is safe.
* `Checked.handler_follows` — a service does not abort, whatever a program asks for.
* `Checked.create_follows` — nor does a creation, as long as there is a number for the process.
* `Checked.cycle_follows` — nor does a cycle, as long as the clock has room for its instructions.
-/

namespace Checked

/-! ### System services -/

/-- Runs a pool operation on the user pool. -/
def onPool {α : Type} (f : Pool → Memory → Checked Service.Env (α × Pool × Memory)) :
    Checked Service.Env (Except Fault α) :=
  observe do
    let s ← get
    let (a, host, memory) ← f s.host s.memory
    set { s with host, memory }
    return a

/-- Allocates as many words as register 2 says. -/
def serviceAllocate : Checked Service.Env TrapOutcome := do
  let size := (← get).registers.get .r2
  if size < 1 then
    ofAction (TrapState.reply Fault.invalidMemorySize.code)
  else
    match (← onPool fun p m => allocate p m size) with
    | .ok a =>
      ofAction (Service.setRegister .r1 a.toWord)
      ofAction (TrapState.reply Status.ok.code)
    | .error fault =>
      ofAction (Service.setRegister .r1 fault.code)
      ofAction (TrapState.reply fault.code)
  return .proceed

/-- Releases as many words as register 2 says at the address in register 1. -/
def serviceRelease : Checked Service.Env TrapOutcome := do
  let registers := (← get).registers
  let start := registers.get .r1
  let size := registers.get .r2
  match (← onPool fun p m => do let (p, m) ← release p m start size; return ((), p, m)) with
  | .ok () => ofAction (TrapState.reply Status.ok.code)
  | .error fault => ofAction (TrapState.reply fault.code)
  return .proceed

/-- Tells the program its number, its priority and its state. -/
def inquire (r : Record) : Checked Service.Env TrapOutcome := do
  let m := (← get).memory
  ofAction (Service.setRegister .r1 (← slot r m .pid))
  ofAction (Service.setRegister .r2 (← slot r m .priority))
  ofAction (Service.setRegister .r3 ((ProcessState.ofCode? (← slot r m .state)).getD .running).code)
  ofAction (TrapState.reply Status.ok.code)
  return .proceed

/-- The services, by the number that a program calls them with. -/
def handler (current : Record) (call : Word) : Checked Service.Env TrapOutcome :=
  match call.toInt with
  | 3 => inquire current
  | 4 => serviceAllocate
  | 5 => serviceRelease
  | _ => ofAction (Service.handler current call)

/-! ### Parts of the kernel -/

/-- Changes memory. -/
def modifyMemory (f : Memory → Checked Kernel Memory) : Checked Kernel Unit := do
  let k ← get
  let memory ← f k.memory
  set (k.withMemory memory)

/-- Runs an operation on the pool of process records. -/
def onOsPool {α : Type} (f : Pool → Memory → Checked Kernel (α × Pool × Memory)) : Checked Kernel α := do
  let k ← get
  let (a, osPool, memory) ← f k.osPool k.memory
  set { k.withMemory memory with osPool }
  return a

/-- Runs an operation on the user pool. -/
def onUserPool {α : Type} (f : Pool → Memory → Checked Kernel (α × Pool × Memory)) :
    Checked Kernel α := do
  let k ← get
  let (a, host, memory) ← f k.userPool k.memory
  set { k with machine := { k.machine with host, memory } }
  return a

/-- Gives a block back to the pool of process records. -/
def releaseOs (start size : Word) : Checked Kernel Unit :=
  onOsPool fun p m => do let (p, m) ← release p m start size; return ((), p, m)

/-- Gives a block back to the user pool. -/
def releaseUser (start size : Word) : Checked Kernel Unit :=
  onUserPool fun p m => do let (p, m) ← release p m start size; return ((), p, m)

/-- Makes a process ready. -/
def makeReady (r : Record) : Checked Kernel Unit := do
  let k ← get
  let (ready, memory) ← insertReady k.ready k.memory r
  set { k.withMemory memory with ready }

/-- Lets a process wait. -/
def makeWaiting (r : Record) : Checked Kernel Unit := do
  let k ← get
  let (waiting, memory) ← insertWaiting k.waiting k.memory r
  set { k.withMemory memory with waiting }

/-- Takes the first ready process off its queue. -/
def popReady : Checked Kernel (Option Record) := do
  let k ← get
  match (← popReadyQueue k.ready k.memory) with
  | none => return none
  | some (r, ready, memory) =>
    set { k.withMemory memory with ready }
    return some r

/-- Takes the newest waiting process off its queue. -/
def popWaiting : Checked Kernel (Option Record) := do
  let k ← get
  match (← popWaitingQueue k.waiting k.memory) with
  | none => return none
  | some (r, waiting, memory) =>
    set { k.withMemory memory with waiting }
    return some r

/-- Takes the waiting process with a number off its queue. -/
def removeWaiting (pid : Word) : Checked Kernel Record := do
  let k ← get
  let (r, waiting, memory) ← removeWaitingQueue k.waiting k.memory pid
  set { k.withMemory memory with waiting }
  return r

/-! ### The life of a process -/

/-- The result of a step in the creation of a process; if it failed, what the process had is given back
    first. -/
def orGiveBack {α : Type} (giveBack : Checked Kernel Unit) (x : Except Fault α) : Checked Kernel α :=
  match x with
  | .ok a => return a
  | .error fault => do
    giveBack
    throw fault

/-- Creates a process that runs a program, and makes it ready. -/
def create (program : String) (priority : Word) : Checked Kernel Record := do
  let start ← onOsPool fun p m => allocate p m recordSize
  let k ← get
  let giveRecordBack := releaseOs start.toWord recordSize
  let r ← orGiveBack giveRecordBack (← observe (recordAt start k.config.layout.osPool))
  modifyMemory (init r · k.nextPid priority)
  let entry ← orGiveBack giveRecordBack (← observe (ofAction (Kernel.loadProgram program)))
  let size := k.config.stackSize
  let stack ← orGiveBack giveRecordBack (← observe (onUserPool fun p m => allocate p m size))
  modifyMemory fun m => do
    let m ← setStack r m stack size
    let m ← setSlot r m .sp (← word (stack.toWord.toInt - 1))
    let m ← setSlot r m .pc entry.toWord
    setSlot r m .psr Privilege.user.code
  orGiveBack
    (do
      releaseUser stack.toWord size
      giveRecordBack)
    (← observe (makeReady r))
  let k ← get
  let nextPid ← word (k.nextPid.toInt + 1)
  set { k with nextPid }
  return r

/-- Ends a process. -/
def terminate (r : Record) : Checked Kernel Unit := do
  let m := (← get).memory
  let _ ← slot r m .pid
  let start ← slot r m .stackStart
  let _ ← observe (releaseUser start (← slot r m .stackSize))
  releaseOs r.address.toWord recordSize
  ofAction (modify fun k => { k with running := if k.running = some r then none else k.running })

/-! ### Scheduling cycles -/

/-- Gives the processor to a process. -/
def dispatch (r : Record) : Checked Kernel Unit := do
  let k ← get
  let cpu ← restoreContext r k.memory k.machine.cpu
  let memory ← setState r k.memory .running
  set { k with machine := { k.machine with cpu, memory }, running := some r }

/-- Runs the dispatched process for its time slice. -/
def runProcess (r : Record) : Checked Kernel (Except Fault Status) :=
  ExceptT.mk fun k => (runSlice (handler r) k.config.timeSlice k.machine).map fun ended =>
    (.ok ended.outcome, { k with machine := ended.machine, running := none })

/-- Saves the registers of a process that leaves the processor. -/
def saveContext (r : Record) : Checked Kernel Unit := do
  let k ← get
  let memory ← saveRegisters r k.memory k.machine.cpu
  set (k.withMemory memory)

/-- Lets the process that leaves the processor wait. -/
def block (r : Record) (reason : WaitReason) : Checked Kernel CycleOutcome := do
  saveContext r
  modifyMemory (setReason r · reason)
  makeWaiting r
  return .blocked reason

/-- Finds a place for the process that leaves the processor. -/
def settle (r : Record) : Except Fault Status → Checked Kernel CycleOutcome
  | .ok .halted => do
    terminate r
    return .terminated
  | .ok .waitingForInput => block r .inputCompletion
  | .ok .waitingForOutput => block r .outputCompletion
  | .ok .timeSliceExpired | .ok .ok => do
    saveContext r
    makeReady r
    return .preempted
  | .error fault => do
    terminate r
    return .faulted fault

/-- Runs one scheduling cycle. -/
def cycle : Checked Kernel (Option CycleReport) := do
  match (← popReady) with
  | none => return none
  | some r =>
    let pid ← slot r (← get).memory .pid
    dispatch r
    let outcome ← settle r (← runProcess r)
    return some ⟨pid, outcome, (← get).clock⟩

/-! ### System services do not abort -/

section Service

variable {s : Service.Env} {r : Record}

/-- A pool operation on the user pool follows the plain one, if it does so at the pool and the
    memory of `s`. -/
theorem onPool_follows {α : Type} {f : Pool → Memory → Checked Service.Env (α × Pool × Memory)}
    {g : Pool → Memory → Attempt (α × Pool × Memory)}
    (h : f s.host s.memory = ofExcept (g s.host s.memory).outcome) :
    Follows (onPool f) (Service.onPool g) s (fun _ _ => True) fun _ _ => True := by
  refine .observe (follows_get_bind ?_)
  rw [h]
  refine (follows_attempt (Q := fun _ _ => True) (fun _ _ => trivial) fun _ _ => trivial).bind
    fun x _ _ => ?_
  exact follows_set_bind (follows_pure trivial)

/-- To give a block back, and nothing else, does not abort where the region of the pool fits in
    memory. -/
theorem release_map_eq {σ : Type} {p : Pool} (hr : p.region.Fits) (m : Memory) (start size : Word) :
    (do let (p, m) ← release p m start size; return ((), p, m) : Checked σ (Unit × Pool × Memory))
      = ofExcept ((fun (p, m) => ((), p, m)) <$> p.release m start size).outcome := by
  rw [release_eq hr, Attempt.outcome_map, ofExcept_map]

/-- **System services.**  Whatever a program asks for and has written, no calculation aborts:
    `handler r call` follows `Service.handler r call` for every `call`. -/
theorem handler_follows (hr : s.host.region.Fits) (hin : r.InMemory) (call : Word) :
    Follows (handler r call) (Service.handler r call) s (fun _ _ => True) fun _ _ => True := by
  -- Whatever only touches registers makes no calculation, and follows itself.
  have hrest : ∀ {α : Type} (x : Action Service.Env α) (t : Service.Env),
      Follows (ofAction x) x t (fun _ _ => True) fun _ _ => True := fun x t =>
    follows_ofAction (Action.ends_state_iff.mpr trivial)
  unfold handler
  split
  · rename_i hcall
    simp only [Service.handler, hcall]
    refine follows_get_note (follows_get_bind ?_)
    simp only [slot_eq hin, pure_bind]
    exact (hrest _ _).bind fun _ _ _ => (hrest _ _).bind fun _ _ _ => (hrest _ _).bind fun _ _ _ =>
      (hrest _ _).bind fun _ _ _ => follows_pure trivial
  · rename_i hcall
    simp only [Service.handler, hcall]
    refine follows_get_note (follows_get_bind ?_)
    dsimp only
    split
    · exact follows_note_bind ((hrest _ _).bind fun _ _ _ => follows_pure trivial)
    · refine (onPool_follows (allocate_eq hr _ _)).bind fun x _ _ => ?_
      cases x with
      | ok a =>
        exact follows_note_bind ((hrest _ _).bind fun _ _ _ => (hrest _ _).bind fun _ _ _ =>
          follows_pure trivial)
      | error e => exact (hrest _ _).bind fun _ _ _ => (hrest _ _).bind fun _ _ _ => follows_pure trivial
  · rename_i hcall
    simp only [Service.handler, hcall]
    refine follows_get_note (follows_get_bind ?_)
    refine (onPool_follows (release_map_eq hr _ _ _)).bind fun x _ _ => ?_
    cases x with
    | ok u => exact follows_note_bind ((hrest _ _).bind fun _ _ _ => follows_pure trivial)
    | error e => exact (hrest _ _).bind fun _ _ _ => follows_pure trivial
  · exact hrest _ _

end Service

/-! ### Operations of the parts do not abort -/

/-- Two kernels have the same frame, and give the next process the same number. -/
def Steady (k t : Kernel) : Prop := t.frame = k.frame ∧ t.nextPid = k.nextPid

/-- A computation does not abort and keeps the kernel steady, also where it fails; what it returns has a
    property. -/
def Stays {α : Type} (k : Kernel) (x : Checked Kernel α) (y : Action Kernel α) (t : Kernel)
    (R : α → Prop) : Prop := Follows x y t (fun a u => Steady k u ∧ R a) fun _ u => Steady k u

section Parts

variable {k t : Kernel} {r : Record}

/-- A kernel is steady with itself. -/
theorem Steady.refl (k : Kernel) : Steady k k := ⟨rfl, rfl⟩

/-- A steady kernel has the same configuration: `t.config = k.config`. -/
theorem Steady.config (ht : Steady k t) : t.config = k.config := congrArg Prod.fst ht.1

/-- The regions of a steady kernel fit in memory if those of `k` do. -/
theorem Steady.framed (ht : Steady k t) (h : k.Framed) : t.Framed := h.of_frame ht.1

/-- A step that keeps `frame` and `nextPid` keeps the kernel steady. -/
theorem Steady.of_eq {u : Kernel} (ht : Steady k t) (hframe : u.frame = t.frame)
    (hpid : u.nextPid = t.nextPid) : Steady k u := ⟨hframe.trans ht.1, hpid.trans ht.2⟩

section Sequence

variable {α β : Type} {x : Checked Kernel α} {y : Action Kernel α} {f : α → Checked Kernel β}
variable {g : α → Action Kernel β} {R : α → Prop} {R' : β → Prop}

/-- One after the other: `f a` is needed only from a steady kernel `u`, with `R a`. -/
theorem Stays.bind (hx : Stays k x y t R) (hf : ∀ a u, Steady k u → R a → Stays k (f a) (g a) u R') :
    Stays k (x >>= f) (y >>= g) t R' :=
  Follows.bind hx fun a u ⟨hu, ha⟩ => hf a u hu ha

/-- One after the other, where it is only known of a run that succeeds that the numbers fit: the
    condition `B` is handed on to what comes after `x`. -/
theorem Stays.bind_if {B : Prop} {Q : β → Kernel → Prop}
    (hB : ∀ b u, Action.exec (y >>= g) t = (.ok b, u) → B) (hx : Stays k x y t R)
    (hf : ∀ a u, Steady k u → R a → (∀ b v, Action.exec (g a) u = (.ok b, v) → B) →
      Follows (f a) (g a) u Q fun _ v => Steady k v) :
    Follows (x >>= f) (y >>= g) t Q fun _ v => Steady k v :=
  Follows.bind_if hB hx fun a u ⟨hu, ha⟩ => hf a u hu ha

/-- Looking at how a computation ends keeps the kernel steady if the computation does. -/
theorem Stays.observe (hx : Stays k x y t R) :
    Stays k (Checked.observe x) (Action.observe y) t fun r => ∀ a, r = .ok a → R a := by
  refine Follows.observe (Follows.mono hx ?_ ?_)
  · exact fun a u hu => ⟨hu.1, fun b hb => Except.ok.inj hb ▸ hu.2⟩
  · exact fun e u hu => ⟨hu, fun b hb => absurd hb (by simp)⟩

/-- To return `a` does not abort, and keeps the kernel steady. -/
theorem pure_stays (ht : Steady k t) {a : α} (ha : R a) : Stays k (pure a) (pure a) t R :=
  follows_pure ⟨ht, ha⟩

/-- An attempt leaves the kernel alone.  What comes after it may rely on its result:
    `x.outcome = .ok a`. -/
theorem attempt_stays (ht : Steady k t) {x : Attempt α}
    (hf : ∀ a, x.outcome = .ok a → Stays k (f a) (g a) t R') :
    Stays k (ofExcept x.outcome >>= f) (Action.attempt x >>= g) t R' :=
  (follows_attempt (Q := fun a u => u = t ∧ x.outcome = .ok a) (fun _ ha => ⟨rfl, ha⟩) fun _ _ => ht).bind
    fun a _ ⟨hu, ha⟩ => hu ▸ hf a ha

/-- A check leaves the kernel alone.  What comes after it may rely on its result: `x = .ok a`. -/
theorem ofExcept_stays (ht : Steady k t) {x : Except Fault α}
    (hf : ∀ a, x = .ok a → Stays k (f a) (g a) t R') :
    Stays k (ofExcept x >>= f) (Action.ofExcept x >>= g) t R' :=
  attempt_stays (x := .ofExcept x) ht hf

end Sequence

/-- A change of memory that does not abort keeps the kernel steady, whatever it writes. -/
theorem modifyMemory_stays (ht : Steady k t) {f : Memory → Checked Kernel Memory} {g : Memory → Memory}
    (hf : ∀ m, f m = pure (g m)) :
    Stays k (modifyMemory f) (Kernel.modifyMemory g) t fun _ => True := by
  have heq : modifyMemory f = ofAction (Kernel.modifyMemory g) := by
    refine ext fun k => ?_
    show exec (f k.memory >>= fun m => set (k.withMemory m)) k = _
    rw [hf, pure_bind]
    rfl
  rw [heq]
  exact follows_ofAction ⟨ht, trivial⟩

variable (h : k.Framed) (ht : Steady k t)
include h ht

/-- An operation on the pool of process records does not abort where it does not on any region that
    fits; `hg` says that it keeps the region. -/
theorem onOsPool_stays {α : Type} {f : Pool → Memory → Checked Kernel (α × Pool × Memory)}
    {g : Pool → Memory → Attempt (α × Pool × Memory)}
    (hf : ∀ p m, p.region.Fits → f p m = ofExcept (g p m).outcome)
    (hg : ∀ p m a p' m', p.region.Fits → (g p m).outcome = .ok (a, p', m') → p'.region = p.region) :
    Stays k (onOsPool f) (Kernel.onOsPool g) t fun _ => True := by
  have hframed := ht.framed h
  have hfits : t.osPool.region.Fits := hframed.osRegion ▸ hframed.valid.layout.osPool
  refine follows_get_bind ?_
  rw [hf _ _ hfits]
  refine attempt_stays ht fun ⟨a, p, m⟩ hx => follows_set_bind (follows_pure ⟨ht.of_eq ?_ rfl, trivial⟩)
  have hregion : p.region = _ := hg _ _ _ _ _ hfits hx
  simp only [Kernel.frame, hregion]
  rfl

/-- The same of an operation on the user pool. -/
theorem onUserPool_stays {α : Type} {f : Pool → Memory → Checked Kernel (α × Pool × Memory)}
    {g : Pool → Memory → Attempt (α × Pool × Memory)}
    (hf : ∀ p m, p.region.Fits → f p m = ofExcept (g p m).outcome)
    (hg : ∀ p m a p' m', p.region.Fits → (g p m).outcome = .ok (a, p', m') → p'.region = p.region) :
    Stays k (onUserPool f) (Kernel.onUserPool g) t fun _ => True := by
  have hframed := ht.framed h
  have hfits : t.userPool.region.Fits := hframed.userRegion ▸ hframed.valid.layout.userPool
  refine follows_get_bind ?_
  rw [hf _ _ hfits]
  refine attempt_stays ht fun ⟨a, p, m⟩ hx => follows_set_bind (follows_pure ⟨ht.of_eq ?_ rfl, trivial⟩)
  have hregion : p.region = _ := hg _ _ _ _ _ hfits hx
  simp only [Kernel.frame, Kernel.userPool, hregion]

/-- To give a block back to the pool of process records does not abort, whatever `start` and `size`
    are. -/
theorem releaseOs_stays (start size : Word) :
    Stays k (releaseOs start size) (Kernel.releaseOs start size) t fun _ => True :=
  onOsPool_stays h ht (fun _ m hr => release_map_eq hr m start size) fun _ _ _ _ _ hr hok =>
    (Pool.release_confined hr (Pool.map_release_eq_ok_iff.mp hok)).1

/-- To give a block back to the user pool does not abort, whatever `start` and `size` are. -/
theorem releaseUser_stays (start size : Word) :
    Stays k (releaseUser start size) (Kernel.releaseUser start size) t fun _ => True :=
  onUserPool_stays h ht (fun _ m hr => release_map_eq hr m start size) fun _ _ _ _ _ hr hok =>
    (Pool.release_confined hr (Pool.map_release_eq_ok_iff.mp hok)).1

/-- To make a process ready does not abort, whatever the record is: a record outside the region is
    refused. -/
theorem makeReady_stays (r : Record) :
    Stays k (makeReady r) (Kernel.makeReady r) t fun _ => True := by
  have hframed := ht.framed h
  refine follows_get_bind ?_
  rw [insertReady_eq _ (hframed.readyRegion ▸ hframed.fits)]
  refine attempt_stays ht fun ⟨q, m⟩ hx => follows_set ⟨ht.of_eq ?_ rfl, trivial⟩
  simp only [Kernel.frame, region_of_insertReady hx]
  rfl

/-- To let a process wait does not abort, whatever the record is. -/
theorem makeWaiting_stays (r : Record) :
    Stays k (makeWaiting r) (Kernel.makeWaiting r) t fun _ => True := by
  have hframed := ht.framed h
  refine follows_get_bind ?_
  rw [insertWaiting_eq _ (hframed.waitRegion ▸ hframed.fits)]
  refine attempt_stays ht fun ⟨q, m⟩ hx => follows_set ⟨ht.of_eq ?_ rfl, trivial⟩
  simp only [Kernel.frame, region_of_insertWaiting hx]
  rfl

/-- To take the first process off the ready queue does not abort, and the record that it gives is in
    memory. -/
theorem popReady_stays : Stays k popReady Kernel.popReady t fun x => ∀ r ∈ x, r.InMemory := by
  have hframed := ht.framed h
  have hfits : t.ready.region.Fits := hframed.readyRegion ▸ hframed.fits
  refine follows_get_bind ?_
  rw [popReadyQueue_eq _ hfits]
  -- The pop is a check on memory; the kernel changes only in the last line.
  refine ofExcept_stays ht fun x hx => ?_
  cases x with
  | none => exact pure_stays ht (by simp)
  | some x =>
    obtain ⟨r, q, m⟩ := x
    obtain ⟨hregion, hin⟩ := of_popReady hfits hx
    refine follows_set_bind (follows_pure ⟨ht.of_eq ?_ rfl, fun x hx => Option.mem_some.mp hx ▸ hin⟩)
    simp only [Kernel.frame, hregion]
    rfl

/-- To take the newest process off the wait queue does not abort, and the record that it gives is in
    memory. -/
theorem popWaiting_stays : Stays k popWaiting Kernel.popWaiting t fun x => ∀ r ∈ x, r.InMemory := by
  have hframed := ht.framed h
  have hfits : t.waiting.region.Fits := hframed.waitRegion ▸ hframed.fits
  refine follows_get_bind ?_
  rw [popWaitingQueue_eq _ hfits]
  -- As for the ready queue.
  refine ofExcept_stays ht fun x hx => ?_
  cases x with
  | none => exact pure_stays ht (by simp)
  | some x =>
    obtain ⟨r, q, m⟩ := x
    obtain ⟨hregion, hin⟩ := of_popWaiting hfits hx
    refine follows_set_bind (follows_pure ⟨ht.of_eq ?_ rfl, fun x hx => Option.mem_some.mp hx ▸ hin⟩)
    simp only [Kernel.frame, hregion]
    rfl

/-- To take the process with a number off the wait queue does not abort, and the record that it
    gives is in memory. -/
theorem removeWaiting_stays (pid : Word) :
    Stays k (removeWaiting pid) (Kernel.removeWaiting pid) t Record.InMemory := by
  have hframed := ht.framed h
  have hfits : t.waiting.region.Fits := hframed.waitRegion ▸ hframed.fits
  refine follows_get_bind ?_
  rw [removeWaitingQueue_eq _ hfits]
  refine ofExcept_stays ht fun ⟨r, q, m⟩ hx => ?_
  obtain ⟨hregion, hin⟩ := of_removeWaiting hfits hx
  refine follows_set_bind (follows_pure ⟨ht.of_eq ?_ rfl, hin⟩)
  simp only [Kernel.frame, hregion]
  rfl

end Parts

/-! ### The life of a process -/

section Process

variable {k t : Kernel} {r : Record}

/-- Whether a step of the creation has failed or not, giving back does not abort: `hgive` is needed
    only where `x = .error e`. -/
theorem orGiveBack_stays {α : Type} {x : Except Fault α} {f : Checked Kernel Unit} {g : Action Kernel Unit}
    {R : α → Prop} (ht : Steady k t) (hok : ∀ a, x = .ok a → R a)
    (hgive : ∀ e, x = .error e → Stays k f g t fun _ => True) :
    Stays k (orGiveBack f x) (Kernel.orGiveBack g x) t R := by
  cases x with
  | ok a => exact pure_stays ht (hok a rfl)
  | error e => exact (hgive e rfl).bind fun _ u hu _ => follows_throw hu

/-- To load a program does not abort: addresses come from a checked conversion, and no number is
    calculated. -/
theorem loadProgram_stays (ht : Steady k t) (program : String) :
    Stays k (ofAction (Kernel.loadProgram program)) (Kernel.loadProgram program) t fun _ => True := by
  refine follows_ofAction ?_
  simp only [Kernel.loadProgram, Action.ends_bind, Action.ends_get, Action.ends_attempt, Action.ends_set,
    Action.ends_pure]
  exact ⟨fun x _ => ⟨ht.of_eq rfl rfl, trivial⟩, fun _ _ => ht⟩

variable (h : k.Framed)
include h

/-- To take a block from the pool of process records does not abort, whatever the size is. -/
theorem allocateOs_stays (ht : Steady k t) (size : Word) :
    Stays k (onOsPool fun p m => allocate p m size) (Kernel.onOsPool fun p m => p.allocate m size) t
      fun _ => True :=
  onOsPool_stays h ht (fun _ m hr => allocate_eq hr m size) fun _ _ _ _ _ hr hok =>
    (Pool.allocate_confined hr hok).2.1

/-- To take a block from the user pool does not abort, whatever the size is. -/
theorem allocateUser_stays (ht : Steady k t) (size : Word) :
    Stays k (onUserPool fun p m => allocate p m size) (Kernel.onUserPool fun p m => p.allocate m size) t
      fun _ => True :=
  onUserPool_stays h ht (fun _ m hr => allocate_eq hr m size) fun _ _ _ _ _ hr hok =>
    (Pool.allocate_confined hr hok).2.1

/-- **Creation.**  It does not abort if there is a number for the process, or no process comes about. -/
theorem create_follows (program : String) (priority : Word)
    (hpid : ∀ r u, Action.exec (Kernel.create program priority) k = (.ok r, u) →
      k.nextPid.toInt < Int64.maxValue.toInt) :
    Follows (create program priority) (Kernel.create program priority) k (fun r _ => r.InMemory)
      fun _ u => Steady k u := by
  -- A record is taken from the pool and made that of a new process.
  refine Stays.bind_if hpid (allocateOs_stays h (.refl k) recordSize) fun start t ht _ hpid => ?_
  refine follows_get_bind ?_
  rw [Action.exec_bind_ok (Action.exec_get t)] at hpid
  have hfits : t.config.layout.osPool.Fits := ht.config ▸ h.fits
  rw [recordAt_eq, observe_ofExcept, pure_bind]
  refine Stays.bind_if hpid (orGiveBack_stays ht (fun r hr => Record.InMemory.of_ofAddress hfits hr)
    fun _ _ => releaseOs_stays h ht _ _) fun r u hu hin hpid => ?_
  refine Stays.bind_if hpid (modifyMemory_stays hu fun m => init_eq hin m _ _) fun _ u hu _ hpid => ?_
  -- The program is loaded.
  refine Stays.bind_if hpid (loadProgram_stays hu program).observe fun loaded u hu _ hpid => ?_
  refine Stays.bind_if hpid (orGiveBack_stays (R := fun _ => True) hu (fun _ _ => trivial) fun e he => ?_)
    fun entry u hu _ hpid => ?_
  · subst he
    exact follows_note_bind (releaseOs_stays h hu _ _)
  -- The stack is taken from the pool.
  refine Stays.bind_if hpid (allocateUser_stays h hu _).observe fun allocated u hu _ hpid => ?_
  refine Stays.bind_if hpid (orGiveBack_stays (R := fun _ => True) hu (fun _ _ => trivial) fun e he => ?_)
    fun stack u hu _ hpid => ?_
  · subst he
    exact follows_note_bind (releaseOs_stays h hu _ _)
  refine Stays.bind_if hpid (modifyMemory_stays hu fun m => ?_) fun _ u hu _ hpid => ?_
  · simp only [setStack_eq hin, setSlot_eq hin, word_pred_address, pure_bind]
  refine Stays.bind_if hpid (makeReady_stays h hu r).observe fun queued u hu _ hpid => ?_
  refine Stays.bind_if hpid (orGiveBack_stays (R := fun _ => True) hu (fun _ _ => trivial) fun _ _ => ?_)
    fun _ u hu _ hpid => ?_
  · exact (releaseUser_stays h hu _ _).bind fun _ v hv _ => releaseOs_stays h hv _ _
  -- Nothing can fail any more, so that there is a number.
  have hnext : (word (u.nextPid.toInt + 1) : Checked Kernel Word) = pure (u.nextPid + 1) :=
    word_succ (hu.2 ▸ hpid r _ rfl)
  refine ⟨?_, hin⟩
  show exec (word (u.nextPid.toInt + 1) >>= fun nextPid => set { u with nextPid } >>= fun _ => pure r) u = _
  rw [hnext, pure_bind]
  rfl

/-- **The end of a process** does not abort, whatever its record says about its stack. -/
theorem terminate_stays (ht : Steady k t) (hin : r.InMemory) :
    Stays k (terminate r) (Kernel.terminate r) t fun _ => True := by
  refine follows_get_bind ?_
  simp only [slot_eq hin, pure_bind]
  -- The pool may refuse the stack; then there is a notice, and the record is given back all the same.
  refine (releaseUser_stays h ht _ _).observe.bind fun res u hu _ => ?_
  have hrest : Stays k
      (do releaseOs r.address.toWord recordSize
          ofAction (modify fun k => { k with running := if k.running = some r then none else k.running }))
      (do Kernel.releaseOs r.address.toWord recordSize
          modify fun k => { k with running := if k.running = some r then none else k.running }
          Action.note (.ended (r.pid t.memory))) u fun _ => True :=
    (releaseOs_stays h hu _ _).bind fun _ v hv _ => ⟨rfl, hv.of_eq rfl rfl, trivial⟩
  cases res with
  | ok _ => exact hrest
  | error e => exact follows_note_bind hrest

end Process

/-! ### Scheduling cycles -/

section Cycle

variable {k t : Kernel} {r : Record}

/-- The stack that a record names starts in memory and is not larger than memory. -/
def HasStack (r : Record) (m : Memory) : Prop :=
  (0 ≤ (r.get m .stackStart).toInt ∧ (r.get m .stackStart).toInt ≤ memorySize)
    ∧ 0 ≤ (r.get m .stackSize).toInt ∧ (r.get m .stackSize).toInt ≤ memorySize

/-- To give the processor to a process does not abort, where its record `HasStack`. -/
theorem dispatch_stays (ht : Steady k t) (hin : r.InMemory) (hstack : HasStack r t.memory) :
    Stays k (dispatch r) (Kernel.dispatch r) t fun _ => True := by
  obtain ⟨hstart, hsize⟩ := hstack
  refine ⟨?_, ht.of_eq rfl rfl, trivial⟩
  show exec (restoreContext r t.memory t.machine.cpu >>= fun cpu =>
    setState r t.memory .running >>= fun memory =>
      set { t with machine := { t.machine with cpu, memory }, running := some r }) t = _
  rw [restoreContext_eq hin _ rfl hstart rfl hsize, pure_bind, setState_eq hin, pure_bind]
  rfl

/-- To save the registers of a process does not abort, since its record is in memory. -/
theorem saveContext_stays (ht : Steady k t) (hin : r.InMemory) :
    Stays k (saveContext r) (Kernel.saveContext r) t fun _ => True := by
  refine ⟨?_, ht.of_eq rfl rfl, trivial⟩
  show exec (saveRegisters r t.memory t.machine.cpu >>= fun m => set (t.withMemory m)) t = _
  rw [saveRegisters_eq hin, pure_bind]
  rfl

variable (h : k.Framed)
include h

/-- **The program of a process.**  Nothing that it does aborts, as long as the clock has room. -/
theorem runProcess_stays (ht : Steady k t) (hin : r.InMemory)
    (htime : ∀ s ∈ Machine.sliceVisits (Service.handler r) t.config.timeSlice t.machine, HasTime s) :
    Stays k (runProcess r) (Kernel.runProcess r) t fun _ => True := by
  have hframed := ht.framed h
  have hL := hframed.valid.layout
  -- The machine starts with the memory of the kernel, so that its layout and its user pool are
  -- those of `k`.
  have hstart : Guest.Contained t.config.layout t.memory t.machine :=
    ⟨hframed.layout, hframed.userRegion, Memory.SameOn.refl _ _⟩
  obtain ⟨hall, hend⟩ := hstart.path hL
    (Machine.runSlice_path (Service.handler r) t.config.timeSlice t.machine)
  -- At each instruction the user pool still lies in memory, which is what the services rely on.
  have hrun : runSlice (handler r) t.config.timeSlice t.machine = some _ :=
    runSlice_follows (fun s hs => ⟨step_follows fun number env henv =>
        (handler_follows (henv ▸ (hall s hs).region ▸ hL.userPool) hin number).exec_eq, htime s hs⟩)
      fun _ => Service.keeps_clock_handler r
  refine ⟨?_, ?_⟩
  · show (runSlice (handler r) t.config.timeSlice t.machine).map _ = _
    rw [hrun, Kernel.Sound.exec_runProcess]
    rfl
  · rw [Action.Ends, Kernel.Sound.exec_runProcess]
    refine ⟨ht.of_eq ?_ rfl, trivial⟩
    have huser : t.machine.host.region = t.config.layout.userPool := hframed.userRegion
    simp only [Kernel.frame, Kernel.userPool, hend.layout, hend.region, hframed.layout, huser]

/-- To let the process on the processor wait does not abort. -/
theorem block_stays (ht : Steady k t) (hin : r.InMemory) (reason : WaitReason) :
    Stays k (block r reason) (Kernel.block r reason) t fun _ => True :=
  (saveContext_stays ht hin).bind fun _ _ hu _ =>
    (modifyMemory_stays hu fun m => setReason_eq hin m reason).bind fun _ _ hv _ =>
      (makeWaiting_stays h hv r).bind fun _ _ hw _ => pure_stays hw trivial

/-- To find a place for the process that leaves the processor does not abort, however its slice
    ended: `status` may be a fault, any wait, the end of the slice or the end of the program. -/
theorem settle_stays (ht : Steady k t) (hin : r.InMemory) (pid : Word) (status : Except Fault Status) :
    Stays k (settle r status) (Kernel.settle r pid status) t fun _ => True := by
  -- A process that used its slice up, and one that gave nothing as a reason, become ready alike.
  have hready : Stays k (do saveContext r; makeReady r; return .preempted)
      (do Kernel.saveContext r; Kernel.makeReady r; return CycleOutcome.preempted) t fun _ => True :=
    (saveContext_stays ht hin).bind fun _ _ hu _ => (makeReady_stays h hu r).bind fun _ _ hv _ =>
      pure_stays hv trivial
  cases status with
  | error e =>
    exact follows_get_note ((terminate_stays h ht hin).bind fun _ _ hu _ => pure_stays hu trivial)
  | ok status =>
    cases status with
    | halted =>
      exact follows_note_bind ((terminate_stays h ht hin).bind fun _ _ hu _ => pure_stays hu trivial)
    | waitingForInput => exact block_stays h ht hin _
    | waitingForOutput => exact block_stays h ht hin _
    | timeSliceExpired => exact hready
    | ok => exact hready

/-- **A scheduling cycle** does not abort, if the process that gets the processor has a stack in memory and
    the clock has room for its instructions. -/
theorem cycle_follows
    (hstack : ∀ r u, Action.exec Kernel.popReady k = (.ok (some r), u) → HasStack r u.memory)
    (htime : ∀ m ∈ k.moments, HasTime m.machine) :
    exec cycle k = some (Action.exec Kernel.cycle k) := by
  suffices Stays k cycle Kernel.cycle k fun _ => True from this.exec_eq
  refine Follows.bind (popReady_stays h (.refl k)).with_exec fun x t ⟨⟨ht, hin⟩, hpop⟩ => ?_
  cases x with
  | none => exact follows_note_bind (pure_stays ht trivial)
  | some r =>
    have hin := hin r rfl
    refine follows_get_bind ?_
    rw [slot_eq hin, pure_bind]
    -- The runs of the parts are kept: they say which stack is restored, and which instructions come.
    refine Follows.bind (dispatch_stays ht hin (hstack r t hpop)).with_exec
      fun _ start ⟨⟨hstart, _⟩, hdispatch⟩ => ?_
    refine (runProcess_stays h hstart hin fun s hs => ?_).bind fun status stop hstop _ => ?_
    · refine htime ⟨r, s⟩ ?_
      unfold Kernel.moments
      simp only [hpop, hdispatch]
      exact List.mem_map_of_mem hs
    · exact (settle_stays h hstop hin _ status).bind fun outcome _ hu _ =>
        follows_get_bind (pure_stays hu trivial)

end Cycle

end Checked

end Timeshare
