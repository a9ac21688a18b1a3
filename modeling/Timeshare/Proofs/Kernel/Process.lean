import Timeshare.Kernel.Process
import Timeshare.Proofs.Kernel.Sound
import Timeshare.Proofs.Program.Image

namespace Timeshare

/-!
# The life of a process in a kernel in order

* `Kernel.Sound.terminate` — ending a process that is held cannot fail, whatever its program did to
  the user pool; the record is a free block afterwards.
* `Kernel.StackReturned r k k'` — the stack of the process went back to the user pool, as far as the
  pool takes it.
* `Kernel.creation` — how the creation of a process ends, read off the three things that it needs:
  a record, a program and a stack.
* `Kernel.Begun k x queued k'`, `Kernel.Undone k program e queued k'` — how far a creation has come, and
  what is left of one that has failed.
* `Kernel.Sound.newRecord`, `Kernel.Sound.getsProgram`, `Kernel.Sound.getsStack`, `Kernel.Sound.enter` —
  the steps of a creation; `Kernel.Sound.undo` — its end if one of them fails.
* `Kernel.Sound.create` — creation ends in just this way, and leaves the kernel in order in any case.
-/

namespace Kernel

open Timeshare.Action

variable {k : Kernel} {free : List FreeBlock} {ready waiting held : List Record} {r : Record}

/-- The user pool and memory after the stack of a process is given back.  A stack that the pool refuses
    stays where it is. -/
def returnStack (r : Record) (s : Machine Pool) : Pool × Memory :=
  match (s.host.release s.memory (r.get s.memory .stackStart) (r.get s.memory .stackSize)).outcome with
  | .ok returned => returned
  | .error _ => (s.host, s.memory)

/-- The stack of the process `r` was given back, and the process does not have the processor any
    longer.  Outside the pool of process records nothing else has changed. -/
structure StackReturned (r : Record) (k k' : Kernel) : Prop where
  cpu : k'.machine.cpu = k.machine.cpu
  running : k'.running = if k.running = some r then none else k.running
  userPool : k'.userPool = (returnStack r k.machine).1
  frame : Memory.SameOn (· ∉ k.config.layout.osPool) (returnStack r k.machine).2 k'.memory

/-- A process ends as its record is taken back; what becomes of its stack, the result `res`, makes
    no difference. -/
theorem exec_terminate {k₁ k₂ : Kernel} {res : Except Fault Unit}
    (hstack : exec (releaseUser (r.get k.memory .stackStart) (r.get k.memory .stackSize)) k = (res, k₁))
    (hrecord : exec (releaseOs r.address.toWord recordSize) k₁ = (.ok (), k₂)) :
    exec (Kernel.terminate r) k
      = (.ok (), { k₂ with running := if k₂.running = some r then none else k₂.running }) := by
  have hrest : exec (do
      releaseOs r.address.toWord recordSize
      modify fun k => { k with running := if k.running = some r then none else k.running }
      note (.ended (r.pid k.memory))) k₁
      = (.ok (), { k₂ with running := if k₂.running = some r then none else k₂.running }) := by
    rw [exec_bind_ok hrecord]
    rfl
  rw [Kernel.terminate, exec_bind_ok (exec_get _), exec_bind_ok (exec_observe _ _), hstack]
  -- A refused stack makes one more notice, and no other difference.
  cases res with
  | ok u => exact hrest
  | error e => exact (exec_bind_ok (exec_note _ _)).trans hrest

namespace Sound

/-- **The end of a process.**  A record `r` that is held becomes a free block.  That the user pool
    may refuse the stack makes no difference. -/
theorem terminate (h : Sound k free ready waiting (r :: held)) :
    ∃ k', exec (Kernel.terminate r) k = (.ok (), k') ∧ SameSetting k k'
      ∧ StackReturned r k k'
      ∧ Sound k' (Ledger.freed r :: free) ready waiting held
      ∧ Memory.SameOn (fun a => a ∉ k.config.layout.userPool ∧ a ∉ r.span) k.memory k'.memory := by
  have hwithin := h.ledger.within h.fits (x := r) (List.mem_append_right _ List.mem_cons_self)
  obtain ⟨res, k₁, hrelease, hsame, hrunning, hcpu, h₁, hframe, hpool⟩ :=
    h.releaseUser (r.get k.memory .stackStart) (r.get k.memory .stackSize)
  obtain ⟨k₂, hback, hsame', h₂, hframe'⟩ := h₁.giveRecordBack
  -- The stack may be refused; `returnStack` tells the two cases apart, and the record goes back in
  -- both.
  obtain ⟨huser, hmemory⟩ : k₁.userPool = (returnStack r k.machine).1
      ∧ k₁.memory = (returnStack r k.machine).2 := Prod.mk.inj hpool
  have houtside : Memory.SameOn (· ∉ k.config.layout.osPool) (returnStack r k.machine).2 k₂.memory := by
    rw [← hmemory]
    exact hframe'.mono fun a ha hin => ha (hwithin.mem_of_span hin)
  exact ⟨_, exec_terminate hrelease hback,
    ⟨hsame'.config.trans hsame.config, hsame'.catalog.trans hsame.catalog,
      hsame'.nextPid.trans hsame.nextPid, hsame'.isShutDown.trans hsame.isShutDown⟩,
    ⟨hsame'.cpu.trans hcpu, by rw [hsame'.running, hrunning], hsame'.userPool.trans huser, houtside⟩,
    ⟨h₂.toFramed.of_frame rfl, h₂.ledger, h₂.standing⟩,
    (hframe.mono fun a ha => ha.1).trans (hframe'.mono fun a ha => ha.2)⟩

end Sound

/-! ### Creation -/

/-- How the creation of a process ends: it needs a record, then a program, then a stack, and fails
    like the first of them that it cannot get. -/
def creation (k : Kernel) (program : String) : Except Fault Record := do
  let record ← (k.osPool.allocate k.memory recordSize).outcome
  let _ ← (k.catalog.load program k.memory k.config.layout).outcome
  let _ ← (k.userPool.allocate k.memory k.config.stackSize).outcome
  return ⟨record.1⟩

/-- What has succeeded is not undone. -/
theorem exec_orGiveBack_ok {α : Type} (giveBack : Action Kernel Unit) (a : α) :
    exec (orGiveBack giveBack (.ok a)) k = (.ok a, k) := rfl

/-- What has failed with `e` is undone, and ends with `e`, if undoing it succeeds. -/
theorem exec_orGiveBack_error {α : Type} {giveBack : Action Kernel Unit} {e : Fault} {k' : Kernel}
    (h : exec giveBack k = (.ok (), k')) :
    exec (orGiveBack giveBack (.error e) : Action Kernel α) k = (.error e, k') := by
  rw [orGiveBack, exec_bind_ok h]
  rfl

/-- A process has got a record and its program, but there is no stack for it. -/
structure StackMissing (k : Kernel) (program : String) (e : Fault) : Prop where
  record : ∃ x, (k.osPool.allocate k.memory recordSize).outcome = .ok x
  program : ∃ x, (k.catalog.load program k.memory k.config.layout).outcome = .ok x
  stack : (k.userPool.allocate k.memory k.config.stackSize).outcome = .error e

/-- A creation in the kernel `k` is under way, and the process has its record `x`.  Nothing has
    changed outside the pool of process records and the program area. -/
structure Begun (k : Kernel) (x : Record) (queued : List Record) (k' : Kernel) : Prop
    extends SameGuest k k' where
  queued : Record.Untouched queued k.memory k'.memory
  frame : Memory.SameOn (fun a => a ∉ k.config.layout.osPool ∧ a ∉ k.config.layout.userProgram)
    k.memory k'.memory
  pid : x.pid k'.memory = k.nextPid
  reason : x.reason? k'.memory = some .none

/-- A creation that has failed with `e` is undone.  Nothing has changed but free process records
    and, if just the stack was missing, the program area; and the next process gets the record that
    this one had. -/
structure Undone (k : Kernel) (program : String) (e : Fault) (queued : List Record) (k' : Kernel) : Prop
    extends SameGuest k k' where
  queued : Record.Untouched queued k.memory k'.memory
  frame : Memory.SameOn (fun a => a ∉ k.config.layout.osPool ∧ a ∉ k.config.layout.userProgram)
    k.memory k'.memory
  area : Memory.SameOn (· ∈ k.config.layout.userProgram) k.memory k'.memory ∨ StackMissing k program e
  record : (k'.osPool.allocate k'.memory recordSize).outcome.map Prod.fst
    = (k.osPool.allocate k.memory recordSize).outcome.map Prod.fst

namespace Sound

/-- A program is loaded, or nothing changes; what is written lies in the program area. -/
theorem loadProgram (h : Sound k free ready waiting held) (program : String) :
    (∃ e, (k.catalog.load program k.memory k.config.layout).outcome = .error e
        ∧ exec (Kernel.loadProgram program) k = (.error e, k)) ∨
      ∃ entry k', (k.catalog.load program k.memory k.config.layout).outcome = .ok (entry, k'.memory)
        ∧ exec (Kernel.loadProgram program) k = (.ok entry, k') ∧ SameGuest k k'
        ∧ Sound k' free ready waiting held
        ∧ Memory.SameOn (· ∉ k.config.layout.userProgram) k.memory k'.memory := by
  cases hload : (k.catalog.load program k.memory k.config.layout).outcome with
  | error e =>
    refine .inl ⟨e, rfl, ?_⟩
    simp only [Kernel.loadProgram, exec_bind, exec_get, exec_attempt, hload]
  | ok x =>
    obtain ⟨entry, m⟩ := x
    have hframe := Catalog.load_confined h.valid.layout.userProgram hload
    refine .inr ⟨entry, k.withMemory m, rfl, ?_, ⟨⟨rfl, rfl, rfl, rfl⟩, rfl, rfl, rfl⟩,
      h.withMemory (hframe.mono fun a ha hin => ?_), hframe⟩
    · simp only [Kernel.loadProgram, exec_bind, exec_get, exec_attempt, hload, exec_set, exec_pure]
    · exact h.valid.layout.not_mem_operandRange ha.1 (h.valid.layout.program_mem_operandRange hin)

/-- A record is taken from the pool and made that of a new process (`Begun`), unless there is none.
    Outside the pool of process records nothing changes. -/
theorem newRecord (h : Sound k free ready waiting []) (priority : Word) :
    ((k.osPool.allocate k.memory recordSize).outcome = .error .noFreeMemory
        ∧ exec (onOsPool fun p m => p.allocate m recordSize) k = (.error .noFreeMemory, k)) ∨
      ∃ x p m k₁ k₂ free', (k.osPool.allocate k.memory recordSize).outcome = .ok (x.address, p, m)
        ∧ exec (onOsPool fun p m => p.allocate m recordSize) k = (.ok x.address, k₁)
        ∧ k₁.config = k.config ∧ Record.ofAddress x.address k.config.layout.osPool = .ok x
        ∧ exec (Kernel.modifyMemory (x.init · k₁.nextPid priority)) k₁ = (.ok (), k₂)
        ∧ Begun k x (ready ++ waiting) k₂ ∧ Sound k₂ free' ready waiting [x]
        ∧ Memory.SameOn (· ∉ k.config.layout.osPool) k.memory k₂.memory := by
  rcases h.takeRecord with hnone | ⟨x, p, k₁, free', hout, hexec, hsame₁, h₁, hframe₁⟩
  · exact .inl hnone
  have hx : x.Within k.config.layout.osPool := hsame₁.config ▸
    h₁.ledger.within h₁.fits (List.mem_append_right _ List.mem_cons_self)
  obtain ⟨k₂, hinit, hsame₂, h₂, hmem₂⟩ :=
    h₁.modifyMemory (f := (x.init · k₁.nextPid priority)) Record.sameOn_init
  -- Taking the record changes free blocks and its own words; making it a new process, its own words
  -- only.
  have hframe₂ : Memory.SameOn (· ∉ x.span) k₁.memory k₂.memory := by
    rw [hmem₂]
    exact Record.sameOn_init
  have hframe : Memory.SameOn (· ∉ k.config.layout.osPool) k.memory k₂.memory := by
    refine (hframe₁.mono fun a ha b hb hab => ha ?_).trans
      (hframe₂.mono fun a ha hab => ha (hx.mem_of_span hab))
    exact (h.ledger.freeChain.within b hb).mem_of_span hab
  have hqueued : Record.Untouched (ready ++ waiting ++ []) k.memory k₂.memory :=
    (h.untouched_free hframe₁).trans (h₁.untouched_others (hframe₂.mono fun _ ha => ha.2))
  rw [List.append_nil] at hqueued
  refine .inr ⟨x, p, k₁.memory, k₁, k₂, free', hout, hexec, hsame₁.config, hx.ofAddress h.fits, hinit,
    ⟨hsame₁.trans hsame₂, hqueued, hframe.mono fun _ ha => ha.1, ?_, ?_⟩, h₂, hframe⟩
  · rw [hmem₂, ← hsame₁.nextPid]
    exact Record.get_init_pid h.fits hx
  · rw [hmem₂]
    exact Record.reason?_init h.fits hx

/-- A new process that has a program and a stack becomes ready, with an empty stack: `sp` is
    `stack - 1`. -/
theorem enter (h : Sound k free ready waiting [r]) (hreason : r.reason? k.memory = some .none)
    (stack entry : Address) (size : Word) :
    ∃ ahead behind k₁ k', r.Place k'.memory ready ahead behind
      ∧ exec (Kernel.modifyMemory fun m =>
          let m := r.setStack m stack size
          let m := r.set m .sp (stack.toWord - 1)
          let m := r.set m .pc entry.toWord
          r.set m .psr Privilege.user.code) k = (.ok (), k₁)
      ∧ exec (Kernel.makeReady r) k₁ = (.ok (), k') ∧ SameUser k k'
      ∧ Sound k' free (ahead ++ r :: behind) waiting []
      ∧ Record.Kept (ready ++ waiting) k.memory k'.memory
      ∧ r.pid k'.memory = r.pid k.memory ∧ r.get k'.memory .stackStart = stack.toWord
      ∧ r.get k'.memory .stackSize = size ∧ r.get k'.memory .sp = stack.toWord - 1 := by
  have hwithin := h.ledger.within h.fits (x := r) (List.mem_append_right _ List.mem_cons_self)
  obtain ⟨ahead, behind, k₁, k', hplace, hcontext, hmake, hsame, h', hkept, hslots⟩ :=
    h.resume (f := fun m =>
      let m := r.setStack m stack size
      let m := r.set m .sp (stack.toWord - 1)
      let m := r.set m .pc entry.toWord
      r.set m .psr Privilege.user.code) (fun m =>
        ((Record.sameOn_setStack.trans Record.sameOn_set).trans Record.sameOn_set).trans
          Record.sameOn_set) (by
        rw [Record.reason?, Record.setStack]
        simp only [Record.get_set_of_ne, ne_eq, reduceCtorEq, not_false_eq_true]
        exact hreason)
  -- The other slots show what was written last, by reads over the writes that came after.
  rw [List.append_nil] at hkept
  refine ⟨ahead, behind, k₁, k', hplace, hcontext, hmake, hsame, h', hkept, ?_, ?_, ?_, ?_⟩
  · show r.get k'.memory .pid = r.get k.memory .pid
    rw [hslots .pid rfl, Record.setStack]
    simp only [Record.get_set_of_ne, ne_eq, reduceCtorEq, not_false_eq_true]
  · rw [hslots .stackStart rfl, Record.setStack]
    simp only [Record.get_set_of_ne, ne_eq, reduceCtorEq, not_false_eq_true,
      Record.get_set_self h.fits hwithin]
  · rw [hslots .stackSize rfl, Record.setStack]
    simp only [Record.get_set_of_ne, ne_eq, reduceCtorEq, not_false_eq_true,
      Record.get_set_self h.fits hwithin]
  · rw [hslots .sp rfl]
    simp only [Record.get_set_of_ne, ne_eq, reduceCtorEq, not_false_eq_true,
      Record.get_set_self h.fits hwithin]

/-- The stack of a new process is a block that the user pool has handed out, and empty.  Besides, nothing
    has happened to the user pool. -/
structure NewStack (k : Kernel) (x : Record) (k' : Kernel) (stack : Address) (p : Pool) (m : Memory) :
    Prop where
  sp : x.get k'.memory .sp = stack.toWord - 1
  userPool : k'.userPool = p
  memory : Memory.SameOn (· ∈ k.config.layout.userPool) m k'.memory

/-- What a successful creation has done: the process `x` has the number that was next, and its stack
    is the block that the user pool hands out. -/
structure NewProcess (k : Kernel) (x : Record) (k' : Kernel) : Prop where
  nextPid : k'.nextPid = k.nextPid + 1
  running : k'.running = k.running
  pid : x.pid k'.memory = k.nextPid
  stack : ∃ stack p m, (k.userPool.allocate k.memory k.config.stackSize).outcome = .ok (stack, p, m)
    ∧ x.get k'.memory .stackStart = stack.toWord ∧ x.get k'.memory .stackSize = k.config.stackSize
  block : ∀ stack p m, (k.userPool.allocate k.memory k.config.stackSize).outcome = .ok (stack, p, m) →
    NewStack k x k' stack p m

/-- **The program** of a process that has a record is loaded as if it had none: whether this
    succeeds is read off the kernel `k` before the creation. -/
theorem getsProgram {k₁ : Kernel} {x : Record} (h₁ : Sound k₁ free ready waiting [x])
    (hbegun : Begun k x (ready ++ waiting) k₁) (program : String) :
    (∃ e, (k.catalog.load program k.memory k.config.layout).outcome = .error e
        ∧ exec (Kernel.loadProgram program) k₁ = (.error e, k₁)) ∨
      ∃ entry m k₂, (k.catalog.load program k.memory k.config.layout).outcome = .ok (entry, m)
        ∧ exec (Kernel.loadProgram program) k₁ = (.ok entry, k₂)
        ∧ Begun k x (ready ++ waiting) k₂ ∧ Sound k₂ free ready waiting [x] := by
  have hloads := Catalog.load_alike k.catalog program k.config.layout k.memory k₁.memory
  rw [← hbegun.catalog, ← hbegun.config] at hloads
  rcases h₁.loadProgram program with ⟨e, hload, hexec⟩ | ⟨entry, k₂, hload, hexec, hsame, h₂, hframe⟩
  · have hfail := hloads.of_error hload
    rw [hbegun.catalog, hbegun.config] at hfail
    exact .inl ⟨e, hfail, hexec⟩
  obtain ⟨⟨entry', m⟩, hloaded, rfl⟩ := hloads.of_ok hload
  rw [hbegun.catalog, hbegun.config] at hloaded
  -- The program is in no record.
  have huntouched := h₁.untouched_outside (hframe.mono fun a ha hin =>
    h₁.valid.layout.not_mem_operandRange ha (h₁.valid.layout.program_mem_operandRange hin))
  have hx := huntouched.kept.get x (by simp)
  rw [hbegun.config] at hframe
  exact .inr ⟨entry', m, k₂, hloaded, hexec, ⟨hbegun.toSameGuest.trans hsame,
    hbegun.queued.trans (huntouched.mono fun y hy => List.mem_append_left _ hy),
    hbegun.frame.trans (hframe.mono fun a ha => ha.2), (hx .pid (by simp)).trans hbegun.pid,
    (Record.reason?_congr (hx .reason (by simp))).trans hbegun.reason⟩, h₂⟩

/-- **The stack** of a process that has a record is the block that the user pool hands out, as it
    would have done in the kernel `k` before the creation. -/
theorem getsStack {k₁ : Kernel} {x : Record} (h₁ : Sound k₁ free ready waiting [x]) (h : Framed k)
    (hbegun : Begun k x (ready ++ waiting) k₁) :
    (∃ e, (k.userPool.allocate k.memory k.config.stackSize).outcome = .error e
        ∧ exec (Kernel.onUserPool fun p m => p.allocate m k.config.stackSize) k₁ = (.error e, k₁)) ∨
      ∃ stack p m k₂, (k.userPool.allocate k.memory k.config.stackSize).outcome = .ok (stack, p, m)
        ∧ exec (Kernel.onUserPool fun p m => p.allocate m k.config.stackSize) k₁ = (.ok stack, k₂)
        ∧ SameSetting k k₂ ∧ k₂.running = k.running ∧ Sound k₂ free ready waiting [x]
        ∧ Record.Kept (ready ++ waiting) k.memory k₂.memory ∧ x.pid k₂.memory = k.nextPid
        ∧ x.reason? k₂.memory = some .none ∧ k₂.userPool = p
        ∧ Memory.SameOn (· ∈ k.config.layout.userPool) m k₂.memory := by
  have hL := h.valid.layout
  -- So far nothing was written to the user pool.
  have hpool : Memory.SameOn (· ∈ k.config.layout.userPool) k₁.memory k.memory :=
    (hbegun.frame.mono fun a ha => ⟨hL.not_mem_osPool ha, hL.not_mem_userProgram ha⟩).symm
  have hstacks := Pool.allocate_congr (p := k.userPool) (h.userRegion ▸ hL.userPool)
    (fun a ha => h.userRegion ▸ ha) hpool k.config.stackSize
  rw [← hbegun.userPool] at hstacks
  obtain ⟨k₂, hexec, hsame, hrunning, -, h₂, hframe, hend⟩ := h₁.onUserPool
    (f := fun p m => p.allocate m k.config.stackSize) fun a p m hout =>
      (Pool.allocate_confined (h₁.userRegion ▸ h₁.valid.layout.userPool) hout).2
  rw [← hbegun.userPool]
  -- With no block for the stack nothing has changed; with one, only the user pool has.
  cases hstack : (k₁.userPool.allocate k.memory k.config.stackSize).outcome with
  | error e =>
    refine .inl ⟨e, rfl, ?_⟩
    simp only [Kernel.onUserPool, exec_bind, exec_get, exec_attempt, hstacks.of_error hstack]
  | ok given =>
    obtain ⟨_, p, m⟩ := given
    obtain ⟨⟨stack, p', m'⟩, hgiven, rfl, rfl, hagree⟩ := hstacks.of_ok hstack
    rw [hgiven] at hexec hend
    obtain ⟨huser, rfl⟩ := Prod.mk.inj hend
    have hkept := (h₁.untouched_outside (hframe.mono fun a ha hin =>
      h₁.valid.layout.not_mem_osPool hin ha)).kept
    have hx := hkept.get x (by simp)
    exact .inr ⟨stack, p', m, k₂, rfl, hexec, hbegun.toSameSetting.trans hsame,
      hrunning.trans hbegun.running, h₂,
      hbegun.queued.kept.trans (hkept.mono fun y hy => List.mem_append_left _ hy),
      (hx .pid (by simp)).trans hbegun.pid,
      (Record.reason?_congr (hx .reason (by simp))).trans hbegun.reason, huser, hagree.symm⟩

/-- **Undoing.**  The record of a process that does not come about is given back, and `Undone`
    holds. -/
theorem undo {k₁ : Kernel} {x : Record} {p : Pool} {m : Memory} (h₁ : Sound k₁ free ready waiting [x])
    (hbegun : Begun k x (ready ++ waiting) k₁) (program : String) (e : Fault)
    (hout : (k.osPool.allocate k.memory recordSize).outcome = .ok (x.address, p, m))
    (harea : Memory.SameOn (· ∈ k.config.layout.userProgram) k.memory k₁.memory ∨
      StackMissing k program e) :
    ∃ k', exec (releaseOs x.address.toWord recordSize) k₁ = (.ok (), k')
      ∧ Undone k program e (ready ++ waiting) k'
      ∧ Sound k' (Ledger.freed x :: free) ready waiting [] := by
  -- The pool takes the words of the record back, so that the next request finds them.
  obtain ⟨k', hback, hsame, h', hback'⟩ := h₁.giveRecordBack
  have hx : x.Within k.config.layout.osPool :=
    hbegun.config ▸ h₁.ledger.within h₁.fits (List.mem_append_right _ List.mem_cons_self)
  have hout' : Memory.SameOn (· ∉ k.config.layout.osPool) k₁.memory k'.memory :=
    hback'.mono fun a ha hin => ha (hx.mem_of_span hin)
  have hqueued := h₁.untouched_others (hback'.mono fun _ ha => ha.2)
  rw [List.append_nil] at hqueued
  refine ⟨k', hback, ⟨hbegun.toSameGuest.trans hsame, hbegun.queued.trans hqueued,
    hbegun.frame.trans (hout'.mono fun a ha => ha.1), harea.imp_left fun harea => ?_, ?_⟩, h'⟩
  · -- The program area is no part of the pool of process records.
    have hL : k.config.layout.Valid := hbegun.config ▸ h₁.valid.layout
    exact harea.trans (hout'.mono fun a ha hos =>
      hL.not_mem_operandRange hos (hL.program_mem_operandRange ha))
  · rw [hout, h'.ledger.allocate_freed h'.fits h'.osRegion]
    rfl

/-- **Creation.**  It ends as `creation k program`, the first thing that it cannot get, says, and no
    roll-back on the way can fail.  Afterwards all is undone, or the process is ready; all other
    processes are as they were. -/
theorem create (h : Sound k free ready waiting []) (program : String) (priority : Word) :
    ∃ k', exec (Kernel.create program priority) k = (creation k program, k')
      ∧ k'.config = k.config ∧ k'.catalog = k.catalog ∧ k'.isShutDown = k.isShutDown
      ∧ Record.Kept (ready ++ waiting) k.memory k'.memory ∧
      ((∃ e free', creation k program = .error e ∧ Undone k program e (ready ++ waiting) k'
          ∧ Sound k' free' ready waiting []) ∨
        ∃ x free' ahead behind, creation k program = .ok x ∧ x.Place k'.memory ready ahead behind
          ∧ NewProcess k x k' ∧ Sound k' free' (ahead ++ x :: behind) waiting []) := by
  have hL := h.valid.layout
  unfold creation
  rcases h.newRecord priority with
    ⟨hout, hexec⟩ | ⟨x, p, m, k₁, k₂, free₁, hout, hexec, hconfig, hx, hinit, hbegun₂, h₂, hframe₂⟩
  · -- There is no record, and nothing has happened.
    rw [hout, error_bind, Kernel.create, exec_bind_error hexec]
    exact ⟨k, rfl, rfl, rfl, rfl, Record.Kept.refl _ _, .inl ⟨.noFreeMemory, free, rfl,
      ⟨SameGuest.refl k, Record.Untouched.refl _ _, Memory.SameOn.refl _ _,
        .inl (Memory.SameOn.refl _ _), rfl⟩, h⟩⟩
  rw [hout, ok_bind, Kernel.create, exec_bind_ok hexec, exec_bind_ok (exec_get _), hconfig, hx,
    exec_bind_ok (exec_orGiveBack_ok _ x), exec_bind_ok hinit, exec_bind_ok (exec_observe _ _)]
  rcases h₂.getsProgram hbegun₂ program with
    ⟨e, hload, hexec₂⟩ | ⟨entry, m₃, k₃, hload, hexec₂, hbegun₃, h₃⟩
  · -- The program cannot be loaded.
    obtain ⟨k₃, hback, hundone, h₃⟩ := h₂.undo hbegun₂ program e hout
      (.inl (hframe₂.mono fun a ha hos =>
        hL.not_mem_operandRange hos (hL.program_mem_operandRange ha)))
    rw [hload, error_bind, hexec₂, exec_bind_error (exec_orGiveBack_error
      ((exec_bind_ok (exec_note _ _)).trans hback))]
    exact ⟨k₃, rfl, hundone.config, hundone.catalog, hundone.isShutDown, hundone.queued.kept,
      .inl ⟨e, _, rfl, hundone, h₃⟩⟩
  rw [hload, ok_bind, hexec₂, exec_bind_ok (exec_orGiveBack_ok _ entry),
    exec_bind_ok (exec_observe _ _)]
  rcases h₃.getsStack h.toFramed hbegun₃ with
    ⟨e, hstack, hexec₃⟩ |
    ⟨stack, p₄, m₄, k₄, hstack, hexec₃, hsame₄, hrunning₄, h₄, hkept₄, hpid₄, hreason₄, huser₄,
      hagree₄⟩
  · -- There is no room for the stack, and only the program is in place.
    obtain ⟨k₅, hback, hundone, h₅⟩ := h₃.undo hbegun₃ program e hout
      (.inr ⟨⟨_, hout⟩, ⟨_, hload⟩, hstack⟩)
    rw [hstack, error_bind, hexec₃, exec_bind_error (exec_orGiveBack_error
      ((exec_bind_ok (exec_note _ _)).trans hback))]
    exact ⟨k₅, rfl, hundone.config, hundone.catalog, hundone.isShutDown, hundone.queued.kept,
      .inl ⟨e, _, rfl, hundone, h₅⟩⟩
  obtain ⟨ahead, behind, k₅, k₆, hplace, hcontext, hmake, hsame₆, h₆, hkept₆, hpid₆, hstart, hsize,
    hsp⟩ := h₄.enter hreason₄ stack entry k.config.stackSize
  have hsame := hsame₄.trans hsame₆.toSameSetting
  rw [hstack, ok_bind, hexec₃, exec_bind_ok (exec_orGiveBack_ok _ stack), exec_bind_ok hcontext,
    exec_bind_ok (exec_observe _ _), hmake, exec_bind_ok (exec_orGiveBack_ok _ ()),
    exec_bind_ok (exec_modify _ _), exec_bind_ok (exec_note _ _)]
  have hnext : k₆.nextPid + 1 = k.nextPid + 1 := by rw [hsame.nextPid]
  have hblock : ∀ stack p m, (k.userPool.allocate k.memory k.config.stackSize).outcome = .ok (stack, p, m) →
      NewStack k x { k₆ with nextPid := k₆.nextPid + 1 } stack p m := by
    intro stack' p' m' hstack'
    obtain ⟨rfl, rfl, rfl⟩ : stack = stack' ∧ p₄ = p' ∧ m₄ = m' := by
      simpa using hstack.symm.trans hstack'
    -- The record of the process is no part of the user pool.
    exact ⟨hsp, hsame₆.userPool.trans huser₄, hagree₄.trans
      (hsame₆.frame.mono fun a ha => hsame₄.config.symm ▸ hL.not_mem_osPool ha)⟩
  exact ⟨{ k₆ with nextPid := k₆.nextPid + 1 }, rfl, hsame.config, hsame.catalog, hsame.isShutDown,
    hkept₄.trans hkept₆, .inr ⟨x, _, ahead, behind, rfl, hplace,
      ⟨hnext, hsame₆.running.trans hrunning₄, hpid₆.trans hpid₄,
        ⟨stack, p₄, m₄, hstack, hstart, hsize⟩, hblock⟩,
      ⟨h₆.toFramed.of_frame rfl, h₆.ledger, h₆.standing⟩⟩⟩

/-- **Why creation fails.**  There is no memory for the record or the stack (`noFreeMemory`), the
    program cannot be loaded, or the list of the user pool is damaged (`invalidMemoryAddress`). -/
theorem creation_error (h : Sound k free ready waiting held) {program : String} {e : Fault}
    (he : creation k program = .error e) :
    e = .noFreeMemory ∨ (k.catalog.load program k.memory k.config.layout).outcome = .error e ∨
      (e = .invalidMemoryAddress ∧ (k.userPool.blocks k.memory).outcome = .error e) := by
  unfold creation at he
  -- The three checks in their order: the record, the program, the stack.
  rcases bind_eq_error_iff.mp he with hrecord | ⟨_, -, he⟩
  · rcases h.takeRecord with ⟨hout, -⟩ | ⟨_, _, _, _, hout, -⟩
    · exact .inl (Except.error.inj (hrecord.symm.trans hout))
    · rw [hout] at hrecord
      exact absurd hrecord (by simp)
  rcases bind_eq_error_iff.mp he with hload | ⟨_, -, he⟩
  · exact .inr (.inl hload)
  rcases bind_eq_error_iff.mp he with hstack | ⟨_, -, he⟩
  · rcases Pool.allocate_error (h.userRegion ▸ h.valid.layout.userPool) h.valid.one_le_stack hstack with
      ⟨rfl, -⟩ | hdamaged
    · exact .inl rfl
    · exact .inr (.inr hdamaged)
  · exact absurd he (by simp [pure, Except.pure])

/-- **Roll-back.**  A creation that fails leaves `readyRecords` and `waitingRecords` as they were,
    and as many free words. -/
theorem rollBack (h : Sound k free ready waiting []) {program : String} {priority : Word}
    {e : Fault} {k' : Kernel} (hfail : exec (Kernel.create program priority) k = (.error e, k')) :
    k'.readyRecords = k.readyRecords ∧ k'.waitingRecords = k.waitingRecords
      ∧ (k'.osPool.freeWords k'.memory).outcome = (k.osPool.freeWords k.memory).outcome := by
  obtain ⟨k'', hexec, hconfig, -, -, -, hend⟩ := h.create program priority
  obtain ⟨hres, rfl⟩ := Prod.mk.inj (hfail.symm.trans hexec)
  rcases hend with ⟨_, free', -, -, h'⟩ | ⟨x, _, _, _, hok, -⟩
  · obtain ⟨w, hw, hsum⟩ := h.freeWords
    obtain ⟨w', hw', hsum'⟩ := h'.freeWords
    rw [hconfig] at hsum'
    have hsame : w' = w := Int64.toInt_inj.mp (by omega)
    exact ⟨h'.readyRecords.trans h.readyRecords.symm, h'.waitingRecords.trans h.waitingRecords.symm,
      by rw [hw, hw', hsame]⟩
  · exact absurd (hres.trans hok) (by simp)

end Sound

end Kernel

end Timeshare
