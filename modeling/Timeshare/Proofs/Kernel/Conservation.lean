import Timeshare.Proofs.Kernel.Calls
import Timeshare.Proofs.Kernel.Moments
import Timeshare.Proofs.Storage.Grants

namespace Timeshare

/-!
# Conservation of the user pool

The stacks of processes and the blocks that programs ask for come from one pool, and the list of its free
blocks stands where programs can write.  As long as programs write to nothing but their stacks and the
blocks that they hold, and release what they hold, no word of the pool is lost.

* `Record.stack r m` — the stack of a process.
* `Moment.settle held m` — the blocks that programs hold after an instruction.
* `Moment.Disciplined held m` — an instruction writes to the stack of its process and to blocks that are
  held, and releases a block that is held.
* `Moment.conserved` — such an instruction conserves the pool.
* `Kernel.Custody k held` — between operations, the stacks of all processes, the blocks that are held and
  the free blocks cover the user pool.
* `Kernel.Sound.secured` — one operation; `Kernel.pool_conserved` — a history.
-/

open Timeshare.Action

/-! ### System calls -/

namespace Service

variable {s : Env} {bs : List FreeBlock} {gs : List Grant}

/-- **A call for memory** adds a block to those that are held, `⟨r1, r2⟩` in the registers
    afterwards, or is refused and changes nothing. -/
theorem allocate_conserved (h : s.host.Conserved s.memory bs gs) :
    let t := (exec allocate s).2
    (t.registers.get .r0 = Status.ok.code
        ∧ ∃ bs', t.host.Conserved t.memory bs' (⟨t.registers.get .r1, s.registers.get .r2⟩ :: gs)) ∨
      (t.registers.get .r0 ∈ [Fault.invalidMemorySize.code, Fault.noFreeMemory.code]
        ∧ t.host = s.host ∧ t.memory = s.memory) := by
  rw [exec_allocate]
  by_cases hsize : s.registers.get .r2 < 1
  · simp only [hsize, if_true, get_answer]
    exact .inr ⟨by simp, rfl, rfl⟩
  have hone : 1 ≤ (s.registers.get .r2).toInt := by
    rw [Int64.lt_iff_toInt_lt, Int.not_lt] at hsize
    exact hsize
  simp only [hsize, if_false]
  cases hout : (s.host.allocate s.memory (s.registers.get .r2)).outcome with
  | ok x =>
    obtain ⟨a, host, memory⟩ := x
    obtain ⟨bs', -, h'⟩ := h.allocate hout
    refine .inl ⟨get_answer _ _, bs', ?_⟩
    rw [get_result]
    exact h'
  | error e =>
    -- The list is in order, so that a request of one word or more can only find too little memory.
    obtain rfl := h.allocate_error hone hout
    exact .inr ⟨by rw [get_answer]; simp, rfl, rfl⟩

/-- **A call that gives a block back** that is held, `⟨r1, r2⟩`, is successful, and the block is
    held no longer. -/
theorem release_conserved
    (h : s.host.Conserved s.memory bs (⟨s.registers.get .r1, s.registers.get .r2⟩ :: gs)) :
    let t := (exec release s).2
    t.registers.get .r0 = Status.ok.code ∧ ∃ bs', t.host.Conserved t.memory bs' gs := by
  obtain ⟨b, p, m, hout, -, h'⟩ := h.release
  simp only [] at hout
  rw [exec_release, hout]
  exact ⟨get_answer _ _, b :: bs, h'⟩

end Service

/-! ### Instructions -/

/-- The stack of a process, as its record tells it. -/
def Record.stack (r : Record) (m : Memory) : Grant := ⟨r.get m .stackStart, r.get m .stackSize⟩

namespace Moment

variable {m : Moment} {held gs : List Grant} {bs : List FreeBlock}

/-- The blocks that programs hold after the instruction `m`, if they hold `held` before it.  A call
    for memory that succeeds adds a block, with the size that was asked for; a call that gives
    memory back and succeeds takes one away. -/
def settle (held : List Grant) (m : Moment) : List Grant :=
  match m.machine.call? with
  | some (number, env) =>
    if m.after.cpu.registers.get .r0 = Status.ok.code then
      if number = 4 then ⟨m.after.cpu.registers.get .r1, env.registers.get .r2⟩ :: held
      else if number = 5 then held.erase ⟨env.registers.get .r1, env.registers.get .r2⟩
      else held
    else held
  | none => held

/-- An instruction that keeps to what its process and others hold: a word of the user pool that it
    changes is one of the stack of its process or of a block in `held`, and a block that it gives
    back is in `held`, with this address and this size. -/
structure Disciplined (held : List Grant) (m : Moment) : Prop where
  stores : m.machine.call? = none → ∀ a ∈ m.machine.cpu.layout.userPool,
    m.after.memory.read a ≠ m.machine.memory.read a →
    ∃ g ∈ m.process.stack m.machine.memory :: held, a ∈ g.span
  releases : ∀ env, m.machine.call? = some (5, env) →
    ⟨env.registers.get .r1, env.registers.get .r2⟩ ∈ held

/-- Whether an instruction is disciplined can be checked. -/
instance : Decidable (m.Disciplined held) :=
  decidable_of_iff ((m.machine.call? = none → ∀ a ∈ m.machine.cpu.layout.userPool,
      m.after.memory.read a ≠ m.machine.memory.read a →
      ∃ g ∈ m.process.stack m.machine.memory :: held, a ∈ g.span)
    ∧ ∀ call ∈ m.machine.call?, call.1 = 5 →
      ⟨call.2.registers.get .r1, call.2.registers.get .r2⟩ ∈ held) <| by
    constructor
    · exact fun h => ⟨h.1, fun env henv => h.2 _ henv rfl⟩
    · rintro ⟨hstores, hreleases⟩
      exact ⟨hstores, fun ⟨number, env⟩ hcall hnumber => hreleases env (hnumber ▸ hcall)⟩

/-- The answer to a call for memory: it is granted, or there is no block for it, or it is for no words. -/
def Answered (m : Moment) : Prop :=
  ∀ env, m.machine.call? = some (4, env) → m.after.cpu.registers.get .r0
    ∈ [Status.ok.code, Fault.invalidMemorySize.code, Fault.noFreeMemory.code]

section Instruction

variable {number : Word} {env : TrapState Pool}

/-- The pool is conserved by an instruction with `call? = none`: what it changes are words that are
    held, or words outside the pool. -/
theorem conserved_of_no_call (h : m.machine.host.Conserved m.machine.memory bs (gs ++ held))
    (hregion : m.machine.host.region = m.machine.cpu.layout.userPool)
    (hstack : m.process.stack m.machine.memory ∈ gs) (hd : m.Disciplined held)
    (hcall : m.machine.call? = none) : m.after.host.Conserved m.after.memory bs (gs ++ held) := by
  have hhost : m.after.host = m.machine.host := by
    rw [after, Machine.successor_host]
    exact Machine.host_of_call?_none hcall
  rw [hhost]
  refine h.congr_granted fun a ha hne => ?_
  obtain ⟨g, hg, hag⟩ := hd.stores hcall a (hregion ▸ ha) hne
  refine ⟨g, ?_, hag⟩
  rcases List.mem_cons.mp hg with rfl | hg
  · exact List.mem_append_left _ hstack
  · exact List.mem_append_right _ hg

/-- So it is by a call for memory (`number = 4`), whether there is a block for it or not. -/
theorem conserved_of_allocate (h : m.machine.host.Conserved m.machine.memory bs gs)
    (hL : m.machine.cpu.layout.Valid) (hcall : m.machine.call? = some (4, env)) :
    (m.after.cpu.registers.get .r0 = Status.ok.code ∧ ∃ bs', m.after.host.Conserved m.after.memory bs'
        (⟨m.after.cpu.registers.get .r1, env.registers.get .r2⟩ :: gs)) ∨
      (m.after.cpu.registers.get .r0 ≠ Status.ok.code
        ∧ m.after.cpu.registers.get .r0 ∈ [Fault.invalidMemorySize.code, Fault.noFreeMemory.code]
        ∧ m.after.host.Conserved m.after.memory bs gs) := by
  obtain ⟨hmemory, hhost, hmemory', hhost', hget⟩ := after_call hL hcall
  rw [← hmemory, ← hhost] at h
  rw [Service.exec_handler_allocate] at hmemory' hhost' hget
  rw [hget, hget, hhost', hmemory']
  -- What the service answers is in the registers after the instruction.
  rcases Service.allocate_conserved h with hgranted | ⟨hfault, hsame, hsame'⟩
  · exact .inl hgranted
  · refine .inr ⟨?_, hfault, by rw [hsame, hsame']; exact h⟩
    simp only [List.mem_cons, List.not_mem_nil, or_false] at hfault
    rcases hfault with hfault | hfault <;> rw [hfault] <;> exact Service.code_ne_ok _

/-- By a call that gives a block back which is held (`number = 5`), too. -/
theorem conserved_of_release
    (h : m.machine.host.Conserved m.machine.memory bs (⟨env.registers.get .r1, env.registers.get .r2⟩ :: gs))
    (hL : m.machine.cpu.layout.Valid) (hcall : m.machine.call? = some (5, env)) :
    m.after.cpu.registers.get .r0 = Status.ok.code
      ∧ ∃ bs', m.after.host.Conserved m.after.memory bs' gs := by
  obtain ⟨hmemory, hhost, hmemory', hhost', hget⟩ := after_call hL hcall
  rw [← hmemory, ← hhost] at h
  rw [Service.exec_handler_release] at hmemory' hhost' hget
  rw [hget, hhost', hmemory']
  exact Service.release_conserved h

/-- And by all other calls, `number ≠ 4` and `number ≠ 5`, which leave memory and the pool alone. -/
theorem conserved_of_quiet (h : m.machine.host.Conserved m.machine.memory bs gs)
    (hL : m.machine.cpu.layout.Valid) (hcall : m.machine.call? = some (number, env))
    (hallocate : number ≠ 4) (hrelease : number ≠ 5) : m.after.host.Conserved m.after.memory bs gs := by
  obtain ⟨hmemory, hhost, hmemory', hhost', -⟩ := after_call hL hcall
  obtain ⟨hsame', hsame⟩ := Service.handler_quiet hallocate hrelease m.process env
  rw [hhost', hmemory', hsame, hsame', hmemory, hhost]
  exact h

end Instruction

/-- The words that are free and those that are held, by the processes and besides, are all words of
    the pool after an instruction, too: with `gs ++ held` before it and `gs ++ m.settle held` after
    it. -/
theorem conserved (h : m.machine.host.Conserved m.machine.memory bs (gs ++ held))
    (hL : m.machine.cpu.layout.Valid) (hregion : m.machine.host.region = m.machine.cpu.layout.userPool)
    (hstack : m.process.stack m.machine.memory ∈ gs) (hd : m.Disciplined held) :
    m.Answered ∧ ∃ bs', m.after.host.Conserved m.after.memory bs' (gs ++ m.settle held) := by
  unfold Answered settle
  -- By the call that the instruction makes: none, 4, 5, or another one.
  rcases hcall : m.machine.call? with _ | ⟨number, env⟩
  · exact ⟨by simp, bs, conserved_of_no_call h hregion hstack hd hcall⟩
  by_cases hallocate : number = 4
  · subst hallocate
    rcases conserved_of_allocate h hL hcall with ⟨hok, bs', h'⟩ | ⟨hne, hfault, h'⟩
    · refine ⟨fun _ _ => by rw [hok]; simp, bs', ?_⟩
      simp only [hok, if_true]
      exact h'.perm List.perm_middle
    · refine ⟨fun _ _ => List.mem_cons_of_mem _ hfault, bs, ?_⟩
      simp only [hne, if_false]
      exact h'
  refine ⟨fun env' henv => absurd (Prod.mk.inj (Option.some.inj henv)).1 hallocate, ?_⟩
  by_cases hrelease : number = 5
  · subst hrelease
    have hheld := hd.releases env hcall
    obtain ⟨hok, bs', h'⟩ := conserved_of_release
      (h.perm (((List.perm_cons_erase hheld).append_left gs).trans List.perm_middle).symm) hL hcall
    simp only [hok, if_true, hallocate, if_false]
    exact ⟨bs', h'⟩
  · simp only [hallocate, hrelease, if_false, ite_self]
    exact ⟨bs, conserved_of_quiet h hL hcall hallocate hrelease⟩

end Moment

/-! ### Turns -/

namespace Kernel

variable {k k' : Kernel} {free : List FreeBlock} {ready waiting rest : List Record} {r : Record}
variable {config : Config} {catalog : Catalog} {l : Layout} {m₀ : Memory}
variable {gs held : List Grant} {bs : List FreeBlock}

/-- The words that are held by the processes, with the stacks `gs`, and besides (`held`), and the
    free words are all words of the user pool at a moment; and if the process asks for memory, it is
    answered. -/
def Intact (config : Config) (gs held : List Grant) (m : Moment) : Prop :=
  m.Answered ∧ m.machine.host.Partitioned m.machine.memory config.layout.userPool (gs ++ held)

/-- The stack of a process stays in its record while its program runs: `r.stack` is the same in both
    memories. -/
theorem stack_of_contained {s : Machine Pool} (hL : l.Valid) (hr : r.Within l.osPool)
    (hs : Guest.Contained l m₀ s) : r.stack s.memory = r.stack m₀ := by
  have hget : ∀ slot, r.get m₀ slot = r.get s.memory slot := fun slot =>
    Record.get_congr ((hs.osPool hL).mono fun _ ha => hr.mem_of_span ha) slot
  rw [Record.stack, Record.stack, hget, hget]

/-- **The instructions of a turn** conserve the pool, as long as they are disciplined: before each
    of them the pool is `Intact`, and after the last the blocks are those of the settlements. -/
theorem path_conserved {s t : Machine Pool} {ms : List (Machine Pool)}
    (h : Machine.Path (Service.handler r) s ms t) (hL : config.layout.Valid)
    (hr : r.Within config.layout.osPool) (hs : Guest.Contained config.layout m₀ s)
    (hstack : r.stack m₀ ∈ gs) (hbs : s.host.Conserved s.memory bs (gs ++ held))
    (hd : Along Moment.settle Moment.Disciplined held (ms.map (Moment.mk r))) :
    Along Moment.settle (Intact config gs) held (ms.map (Moment.mk r))
      ∧ ∃ bs', t.host.Conserved t.memory bs' (gs ++ (ms.map (Moment.mk r)).foldl Moment.settle held) := by
  rw [along_map] at hd ⊢
  rw [List.foldl_map]
  -- What one instruction does, in the form that is carried along the path.
  have hinstruction : ∀ held s, (Guest.Contained config.layout m₀ s
      ∧ ∃ bs, s.host.Conserved s.memory bs (gs ++ held)) → Moment.Disciplined held ⟨r, s⟩ →
      Moment.Answered ⟨r, s⟩ ∧ ∃ bs', (Moment.after ⟨r, s⟩).host.Conserved (Moment.after ⟨r, s⟩).memory bs'
        (gs ++ Moment.settle held ⟨r, s⟩) := by
    rintro held s ⟨hs, bs, hbs⟩ hd
    refine Moment.conserved (m := ⟨r, s⟩) hbs (hs.layout ▸ hL) (hs.region.trans (hs.layout ▸ rfl)) ?_ hd
    show r.stack s.memory ∈ gs
    rw [stack_of_contained hL hr hs]
    exact hstack
  obtain ⟨hall, -, hend⟩ := h.carry
    (P := fun held s => Guest.Contained config.layout m₀ s
      ∧ ∃ bs, s.host.Conserved s.memory bs (gs ++ held))
    (fun held s hP hd => ⟨Machine.successor_of_step (fun _ cost h => h.tick cost) (hP.1.step hL),
      (hinstruction held s hP hd).2⟩) ⟨hs, bs, hbs⟩ hd
  refine ⟨hall.mono fun held s hP => ⟨(hinstruction held s hP.1 hP.2).1, ?_⟩, hend⟩
  obtain ⟨⟨hs, bs, hbs⟩, -⟩ := hP
  have hparts := hbs.partitioned
  rwa [hs.region] at hparts

/-! ### The end of a process -/

/-- A process that ends in a kernel, and whose stack the user pool takes back. -/
def Accepted (e : Record × Kernel) : Prop :=
  ∃ x, (e.2.userPool.release e.2.memory (e.1.get e.2.memory .stackStart)
    (e.1.get e.2.memory .stackSize)).outcome = .ok x

/-- The processes that end in a shutdown, each with the kernel in which it does. -/
def terminations : Nat → Kernel → List (Record × Kernel)
  | 0, _ => []
  | fuel + 1, k =>
    match exec popReady k with
    | (.ok (some r), k) => (r, k) :: terminations fuel (exec (terminate r) k).2
    | _ => []

/-- The processes that end in an operation, each with the kernel in which it does. -/
def Operation.endings (k : Kernel) : Operation → List (Record × Kernel)
  | .cycle =>
    match exec popReady k with
    | (.ok (some r), k) =>
      match exec (runProcess r) (exec (dispatch r) k).2 with
      | (.ok status, stop) => if (CycleOutcome.ofStatus status).goesOn then [] else [(r, stop)]
      | _ => []
    | _ => []
  | .interrupt .shutdown => terminations (memorySize + 1) (exec (releaseAll (memorySize + 1)) k).2
  | _ => []

/-- The process of a turn ends in it if it does not go on: the endings are `[(r, stop)]`, or
    none. -/
theorem Turn.endings {start stop : Kernel} {status : Except Fault Status}
    (h : Turn r k start stop status k') :
    Operation.cycle.endings k = if (CycleOutcome.ofStatus status).goesOn then [] else [(r, stop)] := by
  obtain @⟨k₁, hpop, -, hdispatch, hrun, -⟩ := h
  simp only [Operation.endings, hpop, hdispatch, hrun]

/-- **The stack of a process that ends** is accepted by the pool, which is conserved with the other
    blocks `gs`. -/
theorem StackReturned.conserved (h : StackReturned r k k') (hL : k.config.layout.Valid)
    (hregion : k.userPool.region = k.config.layout.userPool)
    (hbs : k.userPool.Conserved k.memory bs (r.stack k.memory :: gs)) :
    Accepted (r, k) ∧ ∃ bs', k'.userPool.Conserved k'.memory bs' gs := by
  obtain ⟨b, p, m, hrelease, hsame, hbs'⟩ := hbs.release
  have hreturned : returnStack r k.machine = (p, m) := by
    unfold returnStack
    have hrelease' : (k.machine.host.release k.machine.memory (r.get k.machine.memory .stackStart)
        (r.get k.machine.memory .stackSize)).outcome = .ok (p, m) := hrelease
    rw [hrelease']
  refine ⟨⟨_, hrelease⟩, b :: bs, ?_⟩
  have hframe := h.frame
  rw [hreturned] at hframe
  rw [h.userPool, hreturned]
  -- What is written besides lies outside the user pool.
  refine hbs'.congr_region (hframe.mono fun a ha => hL.not_mem_osPool ?_)
  rwa [hsame, hregion] at ha

/-! ### Operations -/

/-- The stacks of the processes `rs` and the blocks `held` that programs hold are all words of the
    user pool that are not free. -/
def Custody (k : Kernel) (rs : List Record) (held : List Grant) : Prop :=
  ∃ bs, k.userPool.Conserved k.memory bs (rs.map (·.stack k.memory) ++ held)

/-- The order of the processes makes no difference to `Custody`. -/
theorem Custody.perm {rs rs' : List Record} (h : Custody k rs held) (hp : rs'.Perm rs) :
    Custody k rs' held := by
  obtain ⟨bs, hbs⟩ := h
  exact ⟨bs, hbs.perm ((hp.map _).append_right held)⟩

/-- The stacks of processes stay in their records if all words do whose slot has
    `isScheduling = false`. -/
theorem stacks_congr {rs : List Record} {m n : Memory}
    (h : ∀ r ∈ rs, ∀ s, s.isScheduling = false → r.get n s = r.get m s) :
    rs.map (·.stack n) = rs.map (·.stack m) :=
  List.map_congr_left fun r hr => by
    rw [Record.stack, Record.stack, h r hr .stackStart rfl, h r hr .stackSize rfl]

/-- The stacks of processes stay in records that are kept. -/
theorem stacks_kept {rs : List Record} {m n : Memory} (h : Record.Kept rs m n) :
    rs.map (·.stack n) = rs.map (·.stack m) :=
  stacks_congr fun r hr s hs => h.get r hr s (Slot.ne_of_isScheduling hs).1

/-- Nothing has happened to the user pool, nor to the stacks of `rs`, so that the custody of `k'` is
    that of `k`. -/
theorem Custody.congr {rs : List Record} (h : Custody k rs held) (hframed : Framed k)
    (huser : k'.userPool = k.userPool)
    (hmemory : Memory.SameOn (· ∈ k.config.layout.userPool) k.memory k'.memory)
    (hstacks : rs.map (·.stack k'.memory) = rs.map (·.stack k.memory)) : Custody k' rs held := by
  obtain ⟨bs, hbs⟩ := h
  refine ⟨bs, ?_⟩
  rw [huser, hstacks]
  exact hbs.congr_region (hmemory.mono fun _ ha => hframed.userRegion ▸ ha)

/-- What happens in the pool of process records is of no concern: `SameUser k k'` is enough, as long
    as the stacks stay. -/
theorem Custody.sameUser {rs : List Record} (h : Custody k rs held) (hframed : Framed k)
    (hsame : SameUser k k') (hstacks : rs.map (·.stack k'.memory) = rs.map (·.stack k.memory)) :
    Custody k' rs held :=
  h.congr hframed hsame.userPool
    (hsame.frame.mono fun _ ha => hframed.valid.layout.not_mem_osPool ha) hstacks

/-- What the operation `op` does to the user pool of a kernel, whose processes `rs` have their
    stacks there and whose programs hold the blocks `held`. -/
structure Secured (k : Kernel) (op : Operation) (rs : List Record) (held : List Grant) : Prop where
  moments : Along Moment.settle (Intact k.config (rs.map (·.stack k.memory))) held (op.moments k)
  endings : ∀ e ∈ op.endings k, Accepted e
  after : ∃ free' ready' waiting', Sound (op.apply k) free' ready' waiting' []
    ∧ Custody (op.apply k) (ready' ++ waiting') ((op.moments k).foldl Moment.settle held)

/-- An operation without `moments` and `endings` is secured if the custody holds after it. -/
theorem Secured.of_custody {op : Operation} {rs : List Record} {free' : List FreeBlock}
    {ready' waiting' : List Record} (hsilent : op.moments k = [] ∧ op.endings k = [])
    (happly : op.apply k = k') (h' : Sound k' free' ready' waiting' [])
    (hc : Custody k' (ready' ++ waiting') held) : Secured k op rs held where
  moments := by
    rw [hsilent.1]
    trivial
  endings := by simp [hsilent.2]
  after := ⟨free', ready', waiting', happly ▸ h', by rwa [hsilent.1, happly]⟩

namespace Sound

/-- **A turn** whose instructions are disciplined is secured: `Disciplined` holds along `k.moments`,
    with what `Moment.settle` makes of `held`. -/
theorem secured_turn (h : Sound k free (r :: rest) waiting []) (hc : Custody k (r :: rest ++ waiting) held)
    (hd : Along Moment.settle Moment.Disciplined held k.moments) :
    Secured k .cycle (r :: rest ++ waiting) held := by
  obtain ⟨start, stop, status, k', free', ready', waiting', hturn, hstart, hcontained, hsame, hplaced, h',
    hkept, hleft⟩ := h.turn
  obtain ⟨ms, hms, hpath⟩ := hturn.moments
  obtain ⟨bs, hbs⟩ := hc
  have hL := h.valid.layout
  have hwithin := h.ledger.within h.fits (x := r) (by simp)
  have hconfig : stop.config = k.config := hturn.config.trans hstart.config
  have happly : Operation.cycle.apply k = k' := congrArg Prod.snd hturn.exec_cycle
  -- The dispatch writes to the record only, and the program does not write there.
  have hstack : r.stack start.memory = r.stack k.memory := by
    rw [Record.stack, Record.stack, hstart.slots _ rfl, hstart.slots _ rfl]
  have hbs₁ : start.userPool.Conserved start.memory bs
      ((r :: rest ++ waiting).map (·.stack k.memory) ++ held) := by
    rw [hstart.userPool]
    exact hbs.congr_region (hstart.frame.mono fun a ha => hL.not_mem_osPool (h.userRegion ▸ ha))
  rw [hms] at hd
  obtain ⟨hmoments, bs₂, hbs₂⟩ := path_conserved hpath hL hwithin
    (hstart.contained h.toFramed)
    (by rw [hstack]; exact List.mem_cons_self) hbs₁ hd
  rw [← hms] at hmoments hbs₂
  have hothers : (rest ++ waiting).map (·.stack k'.memory) = (rest ++ waiting).map (·.stack k.memory) :=
    stacks_kept hkept
  have hperm := hplaced.perm
  -- A process that goes on keeps its stack; one that has ended gives it back.
  cases hleft with
  | goesOn hgo aside =>
    refine ⟨hmoments, by simp [hturn.endings, hgo], free', ready', waiting', happly ▸ h', ?_⟩
    rw [happly]
    rw [if_pos hgo] at hperm
    refine Custody.perm ⟨bs₂, ?_⟩ hperm
    have hstack' : r.stack k'.memory = r.stack k.memory := by
      rw [Record.stack, Record.stack, hstart.get_lasting hL hwithin hcontained aside rfl,
        hstart.get_lasting hL hwithin hcontained aside rfl]
    rw [aside.userPool, List.map_cons, hothers, hstack']
    refine hbs₂.congr_region (aside.frame.mono fun a ha => ?_)
    rw [hcontained.region] at ha
    exact hconfig.symm ▸ hL.not_mem_osPool ha
  | ended hend stack =>
    rw [if_neg (by simp [hend])] at hperm
    have hstack' : r.stack stop.memory = r.stack k.memory :=
      (stack_of_contained hL hwithin hcontained).trans hstack
    rw [List.cons_append, List.map_cons, ← hstack'] at hbs₂
    obtain ⟨haccepted, bs₃, hbs₃⟩ := stack.conserved (hconfig.symm ▸ hL)
      (hconfig.symm ▸ hcontained.region) hbs₂
    refine ⟨hmoments, by simpa [hturn.endings, hend] using haccepted, free', ready', waiting',
      happly ▸ h', ?_⟩
    rw [happly]
    refine Custody.perm ⟨bs₃, ?_⟩ hperm
    rw [hothers]
    exact hbs₃

/-- The end of all processes that are ready: the pool accepts each of their stacks, and in the end
    only `held` is not free. -/
theorem custody_terminateAll {ready : List Record} (h : Sound k free ready [] [])
    (hc : Custody k ready held) {fuel : Nat} (hfuel : ready.length < fuel) :
    (∀ e ∈ terminations fuel k, Accepted e) ∧ Custody (exec (Kernel.terminateAll fuel) k).2 [] held := by
  -- One process after the other, from the front of the queue.
  induction ready generalizing k free fuel with
  | nil =>
    obtain ⟨fuel, rfl⟩ := Nat.exists_eq_add_one.mpr hfuel
    rw [terminations, h.popReady_nil, Kernel.terminateAll, exec_bind_ok h.popReady_nil]
    exact ⟨by simp, hc⟩
  | cons r ready ih =>
    obtain ⟨fuel, rfl⟩ := Nat.exists_eq_add_one.mpr (Nat.zero_lt_of_lt hfuel)
    have hfuel' : ready.length < fuel := Nat.lt_of_succ_lt_succ hfuel
    obtain ⟨k₁, hpop, hsame, h₁, hlinks⟩ := h.popReady_cons
    obtain ⟨k₂, hterminate, -, hreturned, h₂, hframe⟩ := h₁.terminate
    have hqueued : ∀ x ∈ r :: ready, x ∈ r :: ready ++ [] := fun x hx => by simpa using hx
    have hkept := h.kept_links hlinks hqueued
    rw [List.append_nil, List.append_nil] at hkept
    obtain ⟨bs, hbs⟩ := hc.sameUser h.toFramed ⟨hsame, h.frame_links hlinks hqueued⟩ (stacks_kept hkept)
    obtain ⟨haccepted, bs', hbs'⟩ := hreturned.conserved h₁.valid.layout h₁.userRegion hbs
    -- The stacks of the others are in their records still.
    have hothers := (h₁.untouched_others (hframe.mono fun a ha =>
      ⟨fun huser => h₁.valid.layout.not_mem_osPool huser ha.1, ha.2⟩)).kept
    rw [List.append_nil, List.append_nil] at hothers
    have hc₂ : Custody k₂ ready held := by
      refine ⟨bs', ?_⟩
      rw [stacks_kept hothers]
      exact hbs'
    obtain ⟨hall, hend⟩ := ih h₂ hc₂ hfuel'
    obtain ⟨_, k₃, hrest, -⟩ := h₂.terminateAll hfuel'
    rw [hrest] at hend
    rw [terminations, hpop, Kernel.terminateAll, exec_bind_ok hpop]
    simp only []
    rw [exec_bind_ok (exec_get _), exec_bind_ok hterminate, exec_bind_ok hrest, hterminate]
    exact ⟨List.forall_mem_cons.mpr ⟨haccepted, hall⟩, hend⟩

/-- **A shutdown** returns all stacks: the waiting processes are made ready, and then all are
    ended. -/
theorem secured_shutDown {ready : List Record} (h : Sound k free ready waiting [])
    (hc : Custody k (ready ++ waiting) held) :
    Secured k (.interrupt .shutdown) (ready ++ waiting) held := by
  obtain ⟨k₁, hrelease, hsame, h₁, hslots⟩ := h.releaseAll (Nat.lt_succ_of_le h.length_le.2)
  -- Becoming ready changes links and reasons, so that the stacks are held as before.
  have hc₁ : Custody k₁ (Record.byPriority k.memory (ready ++ waiting)) held :=
    (hc.sameUser h.toFramed hsame (stacks_congr hslots)).perm (Record.byPriority_perm _ _)
  have hfuel := Nat.lt_succ_of_le h₁.length_le.1
  obtain ⟨haccepted, hc₂⟩ := custody_terminateAll h₁ hc₁ hfuel
  obtain ⟨free', k₂, hterminate, -, h₂, -⟩ := h₁.terminateAll hfuel
  have hexec : Operation.apply k (.interrupt .shutdown) = { k₂ with isShutDown := true } := by
    rw [Operation.apply, Kernel.interrupt, Kernel.shutDown, exec_bind_ok hrelease,
      exec_bind_ok hterminate, exec_bind_ok (exec_modify _ _), exec_bind_ok (exec_note _ _)]
    rfl
  rw [hterminate] at hc₂
  constructor
  · trivial
  · rw [Operation.endings, hrelease]
    exact haccepted
  · rw [hexec]
    exact ⟨free', [], [], ⟨h₂.toFramed.of_frame rfl, h₂.ledger, h₂.standing⟩, hc₂⟩

/-- An operation in which nobody has a turn executes no instruction, and ends no process if it is no
    shutdown: `moments` and `endings` are empty. -/
theorem silent {ready : List Record} (h : Sound k free ready waiting []) {op : Operation}
    (hcycle : op = .cycle → ready = []) (hdown : op ≠ .interrupt .shutdown) :
    op.moments k = [] ∧ op.endings k = [] := by
  cases op with
  | create program priority => exact ⟨rfl, rfl⟩
  | cycle =>
    obtain rfl := hcycle rfl
    exact ⟨h.moments_nil, by rw [Operation.endings, h.popReady_nil]⟩
  | interrupt i =>
    refine ⟨rfl, ?_⟩
    cases i with
    | shutdown => exact absurd rfl hdown
    | _ => rfl

/-- **A new process** `x` gets its stack from the pool. -/
theorem NewProcess.custody {rs : List Record} {x : Record} (hnew : NewProcess k x k') (h : Framed k)
    (hc : Custody k rs held) (hkept : Record.Kept rs k.memory k'.memory) : Custody k' (x :: rs) held := by
  obtain ⟨bs, hbs⟩ := hc
  obtain ⟨stack, p, m, hstack, hstart, hsize⟩ := hnew.stack
  obtain ⟨-, huser, hmemory⟩ := hnew.block _ _ _ hstack
  obtain ⟨bs', hregion, hbs'⟩ := hbs.allocate hstack
  refine ⟨bs', ?_⟩
  rw [List.map_cons, stacks_kept hkept, Record.stack, hstart, hsize, huser]
  refine hbs'.congr_region (hmemory.mono fun a ha => ?_)
  rwa [hregion, h.userRegion] at ha

/-- **Every operation** whose instructions are disciplined is `Secured`. -/
theorem secured {ready : List Record} (h : Sound k free ready waiting [])
    (hc : Custody k (ready ++ waiting) held) {op : Operation}
    (hd : Along Moment.settle Moment.Disciplined held (op.moments k)) :
    Secured k op (ready ++ waiting) held := by
  have hL := h.valid.layout
  obtain ⟨k', free', ready', waiting', happly, hchange, h'⟩ := h.change op
  have hsilent : ∀ {program}, op.program? = some program → op.moments k = [] ∧ op.endings k = [] :=
    fun hop => h.silent (fun hcycle => absurd hcycle (Operation.ne_cycle hop)) fun hdown =>
      absurd (hdown ▸ hop) (by simp [Operation.program?])
  -- One case for each effect that an operation can have.
  cases hchange with
  | nothing _ hcycle hdown => exact .of_custody (h.silent hcycle hdown) happly h' hc
  | undone asked undone =>
    refine .of_custody (hsilent asked) happly h' ?_
    exact hc.congr h.toFramed undone.userPool
      (undone.frame.mono fun a ha => ⟨hL.not_mem_osPool ha, hL.not_mem_userProgram ha⟩)
      (stacks_kept undone.queued.kept)
  | created asked _ place new kept =>
    refine .of_custody (hsilent asked) happly h' ((new.custody h.toFramed hc kept).perm ?_)
    rw [place.eq]
    exact List.perm_middle.append_right waiting
  | turn first _ _ _ _ _ _ =>
    subst first
    exact h.secured_turn hc hd
  | @released _ _ _ _ _ before after _ _ completes waits _ place released kept =>
    subst completes waits
    have hperm := place.perm before after
    refine .of_custody (h.silent (by simp) fun hdown =>
      Interrupt.completion_ne_shutdown _ _ (Operation.interrupt.inj hdown)) happly h' ?_
    refine (hc.sameUser h.toFramed released.toSameUser (List.map_congr_left fun x hx => ?_)).perm hperm
    -- All processes live on, with their stacks.
    have halive := h'.alive_iff.mpr (hperm.mem_iff.mpr hx)
    subst happly
    rw [Record.stack, Record.stack, h.get_lasting (h.alive_iff.mpr hx) halive rfl,
      h.get_lasting (h.alive_iff.mpr hx) halive rfl]
  | shutDown _ _ _ => exact h.secured_shutDown hc

end Sound

/-! ### Histories -/

/-- The stacks of all processes that live. -/
def liveStacks (k : Kernel) : Except Fault (List Grant) := do
  let ready ← k.readyRecords
  let waiting ← k.waitingRecords
  return (ready ++ waiting).map (·.stack k.memory)

/-- The stacks of all processes that live are those of the records in `ready ++ waiting`. -/
theorem Sound.liveStacks {ready : List Record} (h : Sound k free ready waiting []) :
    k.liveStacks = .ok ((ready ++ waiting).map (·.stack k.memory)) := by
  rw [Kernel.liveStacks, h.readyRecords, h.waitingRecords]
  rfl

/-- The record of a process names an address as the start of the stack, and `config.stackSize` as
    its size. -/
theorem Reachable.stack_slots (hk : Reachable config catalog k) (hr : k.Alive r) :
    ∃ a : Address, r.get k.memory .stackStart = a.toWord
      ∧ r.get k.memory .stackSize = config.stackSize := by
  obtain ⟨k₀, -, -, k₁, hk₀, -, hlives, hk₁, halive, -, hnew⟩ := hk.exists_newProcess hr
  obtain ⟨stack, p, m, -, hstart, hsize⟩ := hnew.stack
  rw [hk₀.atRest.1] at hsize
  exact ⟨stack, (hlives.get_lasting hk₁ halive rfl).trans hstart,
    (hlives.get_lasting hk₁ halive rfl).trans hsize⟩

/-- Every stack has the size that the configuration says, `config.stackSize`. -/
theorem Reachable.stack_size (hk : Reachable config catalog k) (hr : k.Alive r) :
    (r.stack k.memory).size = config.stackSize := by
  obtain ⟨-, -, hsize⟩ := hk.stack_slots hr
  exact hsize

/-- The user pool of a new kernel is one free block `b`, of which nobody has a part. -/
theorem boot_conserved (h : (boot config catalog).outcome = .ok k) :
    ∃ b, k.userPool.Conserved k.memory [b] [] := by
  obtain ⟨hconfig, -, b, hsound⟩ := boot_nobody h
  have hL := hsound.valid.layout
  simp only [boot, Attempt.outcome_seq, bind_eq_ok_iff] at h
  obtain ⟨-, -, ⟨osPool, m⟩, -, ⟨userPool, m'⟩, huser, -, -, h⟩ := h
  obtain rfl := Except.ok.inj h
  obtain ⟨b', p', m'', hfill, -, hbs⟩ := Pool.Conserved.fill
    (p := Pool.empty .user config.layout.userPool) hL.userPool hL.two_le_userPool m
  obtain ⟨rfl, rfl⟩ := Prod.mk.inj (Except.ok.inj (hfill.symm.trans huser))
  exact ⟨b', hbs⟩

/-- In a new kernel, no process lives and no block is held: `Custody k [] []`. -/
theorem custody_boot (h : (boot config catalog).outcome = .ok k) :
    ∃ free, Sound k free [] [] [] ∧ Custody k [] [] := by
  obtain ⟨-, -, b, hsound⟩ := boot_nobody h
  obtain ⟨b', hbs⟩ := boot_conserved h
  exact ⟨[b], hsound, [b'], hbs⟩

/-- The pool is conserved by a history whose instructions are disciplined: after it, programs hold
    the blocks `(k.trace ops).foldl Moment.settle held`. -/
theorem Custody.after {ready : List Record} (h : Sound k free ready waiting [])
    (hc : Custody k (ready ++ waiting) held) {ops : List Operation}
    (hd : Along Moment.settle Moment.Disciplined held (k.trace ops)) :
    ∃ free' ready' waiting', Sound (k.after ops) free' ready' waiting' []
      ∧ Custody (k.after ops) (ready' ++ waiting') ((k.trace ops).foldl Moment.settle held) := by
  induction ops generalizing k free ready waiting held with
  | nil => exact ⟨free, ready, waiting, h, hc⟩
  | cons op ops ih =>
    obtain ⟨hfirst, hrest⟩ := along_append.mp hd
    obtain ⟨-, -, free', ready', waiting', h', hc'⟩ := h.secured hc hfirst
    rw [trace, List.foldl_append]
    exact ih h' hc' hrest

/-- **The user pool is conserved.**  In a new kernel, let programs execute instructions that are
    disciplined, in any history.  Then the free blocks, the stacks of all processes that live and the
    blocks that programs hold cover the pool, every word once: between any two operations, and before
    every instruction of a turn.  A program gets the memory that it asks for unless it asks for none or
    there is no block for it; the pool accepts the stack of every process that ends; and after a shutdown
    all words are free that are not held. -/
theorem pool_conserved {k₀ : Kernel} (hboot : (boot config catalog).outcome = .ok k₀)
    {ops : List Operation} (hd : Along Moment.settle Moment.Disciplined [] (k₀.trace ops)) :
    ∀ before after, ops = before ++ after →
      let k := k₀.after before
      let held := (k₀.trace before).foldl Moment.settle []
      ∃ gs, k.liveStacks = .ok gs ∧ (∀ g ∈ gs, g.size = config.stackSize)
        ∧ k.userPool.Partitioned k.memory config.layout.userPool (gs ++ held)
        ∧ ∀ op ∈ after.head?, Along Moment.settle (Intact config gs) held (op.moments k)
          ∧ (∀ e ∈ op.endings k, Accepted e)
          ∧ (op = .interrupt .shutdown → (op.apply k).liveStacks = .ok []
            ∧ ∃ w, ((op.apply k).userPool.freeWords (op.apply k).memory).outcome = .ok w
              ∧ w.toInt + (held.flatMap fun g => g.span.words).length
                = config.layout.userPool.length.toNat) := by
  rintro before after rfl k held
  obtain ⟨free₀, h₀, hc₀⟩ := custody_boot hboot
  rw [trace_append] at hd
  obtain ⟨hbefore, hafter⟩ := along_append.mp hd
  obtain ⟨free, ready, waiting, h, hc⟩ := Custody.after h₀ hc₀ hbefore
  have hk : Reachable config catalog k := (Reachable.boot hboot).after before
  have hconfig : k.config = config := hk.atRest.1
  have hregion : k.userPool.region = config.layout.userPool := hconfig ▸ h.userRegion
  refine ⟨_, h.liveStacks, fun g hg => ?_, ?_, fun op hop => ?_⟩
  · obtain ⟨r, hr, rfl⟩ := List.mem_map.mp hg
    exact hk.stack_size (h.alive_iff.mpr hr)
  · obtain ⟨bs, hbs⟩ := hc
    exact hregion ▸ hbs.partitioned
  obtain ⟨rest, rfl⟩ := List.head?_eq_some_iff.mp hop
  obtain ⟨hmoments, hendings, free', ready', waiting', h', hc'⟩ := h.secured hc (along_append.mp hafter).1
  refine ⟨hconfig ▸ hmoments, hendings, ?_⟩
  rintro rfl
  -- Nobody is left.
  obtain ⟨free'', k', hexec, hconfig', -, -, h'', -⟩ := h.shutDown
  obtain rfl : Operation.apply k (.interrupt .shutdown) = k' := congrArg Prod.snd hexec
  obtain rfl := Except.ok.inj (h'.readyRecords.symm.trans h''.readyRecords)
  obtain rfl := Except.ok.inj (h'.waitingRecords.symm.trans h''.waitingRecords)
  obtain ⟨bs, hbs⟩ := hc'
  obtain ⟨w, hw, hsum⟩ := hbs.freeWords
  refine ⟨h'.liveStacks, w, hw, ?_⟩
  rw [h'.userRegion, hconfig', hconfig] at hsum
  exact hsum

/-- A process gets two blocks of three words, uses its stack, gives one of the blocks back and halts.
    After a shutdown, the other block is held still. -/
theorem pool_conserved_shutDown :
    let config : Config := { layout := ⟨⟨0, 19⟩, ⟨20, 39⟩, ⟨40, 99⟩⟩, stackSize := 2 }
    let catalog := Catalog.ofList [("borrow", ⟨[(0, 51260), (1, 3), (2, 126000), (3, 4), (4, 126000), (5, 4),
      (6, 106000), (7, 7), (8, 126000), (9, 5), (10, 0)], 0⟩)]
    let ops : List Operation := [.create "borrow" 1, .cycle, .interrupt .shutdown]
    ∃ k₀, (boot config catalog).outcome = .ok k₀
      ∧ Along Moment.settle Moment.Disciplined [] (k₀.trace ops)
      ∧ (k₀.trace ops).foldl Moment.settle [] = [⟨22, 3⟩]
      ∧ ∃ w, ((k₀.after ops).userPool.freeWords (k₀.after ops).memory).outcome = .ok w
        ∧ w.toInt + 3 = 20 := by
  intro config catalog ops
  obtain ⟨k₀, hboot, hd, hheld, hheld'⟩ : ∃ k₀, (boot config catalog).outcome = .ok k₀ ∧
      Along Moment.settle Moment.Disciplined [] (k₀.trace ops)
        ∧ (k₀.trace ops).foldl Moment.settle [] = [⟨22, 3⟩]
        ∧ (k₀.trace (ops.take 2)).foldl Moment.settle [] = [⟨22, 3⟩] :=
    exists_boot (by decide +kernel)
  refine ⟨k₀, hboot, hd, hheld, ?_⟩
  -- The theorem is applied where the history is about to shut down.
  obtain ⟨gs, -, -, -, hnext⟩ := pool_conserved hboot hd (ops.take 2) (ops.drop 2) rfl
  obtain ⟨-, -, hdown⟩ := hnext _ rfl
  obtain ⟨-, w, hw, hsum⟩ := hdown rfl
  rw [hheld', show config.layout.userPool.length.toNat = 20 by decide] at hsum
  exact ⟨w, hw, hsum⟩

end Kernel

end Timeshare
