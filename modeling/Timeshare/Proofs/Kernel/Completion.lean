import Timeshare.Proofs.Kernel.Reachable

namespace Timeshare

/-!
# Completions

An input or an output that is complete lets a process go on that waits, whatever it waits for.  The record
of the process moves from one list to another, both of which are threaded through the same word of each
record.

* `Kernel.Completed r slots ready others k k'` — all that has changed when the waiting process `r` has
  become ready: the two queues, the given slots of its record, and links.
* `Kernel.Sound.completeFirst` — this is so in a kernel in order: the first process with a number is taken
  off the wait queue, its record is changed, and it enters the ready queue.
* `Kernel.Reachable.completes` — so it is in every kernel that comes about, and where no waiting process
  has the number, nothing changes at all.
-/

namespace Kernel

open Timeshare.Action

variable {config : Config} {catalog : Catalog} {k k' : Kernel} {free : List FreeBlock}
variable {ready waiting before after : List Record} {r : Record}

/-! ### The rest of the kernel -/

/-- To take a process off the wait queue leaves the head of the free list alone. -/
theorem osPool_removeWaiting (k : Kernel) (pid : Word) :
    (exec (removeWaiting pid) k).2.osPool = k.osPool := by
  simp only [removeWaiting, exec_bind, exec_get, exec_ofExcept]
  cases k.waiting.remove k.memory pid <;> rfl

/-- To make a process ready leaves the head of the free list alone. -/
theorem osPool_makeReady (k : Kernel) (r : Record) :
    (exec (makeReady r) k).2.osPool = k.osPool := by
  simp only [makeReady, exec_bind, exec_get, exec_attempt]
  cases (k.ready.insert k.memory r).outcome <;> rfl

/-- With nothing done to the pools and the program, only memory and the queues are left to change:
    `k'` is `k` with other ones. -/
theorem SameGuest.eq_of_osPool (h : SameGuest k k') (hos : k'.osPool = k.osPool) :
    k' = { k.withMemory k'.memory with ready := k'.ready, waiting := k'.waiting } := by
  obtain ⟨config, ⟨cpu, memory, host⟩, osPool, ready, waiting, running, nextPid, isDown, catalog⟩ := k
  obtain ⟨⟨hconfig, hcatalog, hnext, hdown⟩, hcpu, hpool, hrunning⟩ := h
  obtain ⟨config', ⟨cpu', memory', host'⟩, osPool', ready', waiting', running', nextPid', isDown',
    catalog'⟩ := k'
  subst hconfig hcatalog hnext hdown hcpu hpool hrunning hos
  rfl

/-! ### A process that goes on -/

/-- The waiting process `r` has become ready.  It has its place in the ready queue, and those that
    still wait, `others`, are in order.  Of memory, only the `slots` of its record have changed, and
    links of the records in the queues; of the rest of the kernel, the free lists included, nothing
    has. -/
structure Completed (r : Record) (slots : List Slot) (ready others : List Record) (k k' : Kernel) :
    Prop where
  readyRecords : ∃ ahead behind, r.Place k.memory ready ahead behind
    ∧ k'.readyRecords = .ok (ahead ++ r :: behind)
  waitingRecords : k'.waitingRecords = .ok others
  state : r.state? k'.memory = some .ready
  reason : r.reason? k'.memory = some .none
  frame : Record.OnlySlots (slots.map (r, ·) ++ Record.links (ready ++ r :: others)) k.memory k'.memory
  rest : k' = { k.withMemory k'.memory with ready := k'.ready, waiting := k'.waiting }
  osBlocks : (k'.osPool.blocks k'.memory).outcome = (k.osPool.blocks k.memory).outcome
  userBlocks : (k'.userPool.blocks k'.memory).outcome = (k.userPool.blocks k.memory).outcome

/-- All that is written is in queued records, and no priority is. -/
theorem mem_written (ready before after : List Record) (r : Record) {slots : List Slot}
    (hslots : Slot.priority ∉ slots) :
    ∀ x ∈ slots.map (r, ·) ++ Record.links (ready ++ r :: (before ++ after)),
      x.1 ∈ ready ++ (before ++ r :: after) ∧ x.2 ≠ .priority := by
  have hperm : (ready ++ r :: (before ++ after)).Perm (ready ++ (before ++ r :: after)) :=
    List.perm_middle.symm.append_left ready
  intro x hx
  rcases List.mem_append.mp hx with hx | hx
  · obtain ⟨s, hs, rfl⟩ := List.mem_map.mp hx
    exact ⟨by simp, fun heq => hslots (heq ▸ hs)⟩
  · obtain ⟨y, hy, rfl⟩ := List.mem_map.mp hx
    exact ⟨hperm.mem_iff.mp hy, by simp⟩

namespace Sound

/-- A change of words in queued records leaves the free list of the user pool alone. -/
theorem userBlocks_congr (h : Sound k free ready waiting []) {slots : List (Record × Slot)}
    {m : Memory} (hm : Record.OnlySlots slots k.memory m)
    (hslots : ∀ x ∈ slots, x.1 ∈ ready ++ waiting) :
    (k.userPool.blocks m).outcome = (k.userPool.blocks k.memory).outcome := by
  refine Pool.blocks_congr (h.userRegion ▸ h.valid.layout.userPool)
    (Memory.SameOn.mono hm fun a ha x hx hholds => ?_).symm
  rw [h.userRegion] at ha
  refine h.valid.layout.not_mem_osPool ha ?_
  exact (h.ledger.within h.fits (List.mem_append_left _ (hslots x hx))).mem_of_span
    (Record.mem_span_of_wordAddress hholds)

/-- **The first process with a number goes on**, after a change `f` of `slots` of its record that
    lets it wait for nothing: it is taken off the wait queue, changed and made ready, and
    `Completed` holds. -/
theorem completeFirst (h : Sound k free ready (before ++ r :: after) []) {pid : Word}
    (hbefore : ∀ p ∈ before, p.pid k.memory ≠ pid) (hpid : r.pid k.memory = pid) (event : WaitReason)
    (slots : List Slot) {f : Memory → Memory} (hf : ∀ m, Record.OnlySlots (slots.map (r, ·)) m (f m))
    (hpriority : Slot.priority ∉ slots) (hreason : ∀ m, r.reason? (f m) = some .none) :
    ∃ k₁ k₂ k', exec (Kernel.takeWaiting pid event) k = (.ok (some r), k₁)
      ∧ exec (Kernel.modifyMemory f) k₁ = (.ok (), k₂)
      ∧ exec (Kernel.makeReady r) k₂ = (.ok (), k')
      ∧ Completed r (.state :: slots) ready (before ++ after) k k'
      ∧ (∀ s, s ≠ .next → r.get k₁.memory s = r.get k.memory s)
      ∧ ∀ s, s.isScheduling = false → r.get k'.memory s = r.get (f k₁.memory) s := by
  obtain ⟨k₁, hremove, hsame₁, h₁, hlinks₁⟩ := h.removeWaiting_first hbefore hpid
  obtain ⟨k₂, hchange, hsame₂, h₂, hmem⟩ := h₁.modifyMemory ((hf k₁.memory).sameOn (by simp))
  obtain ⟨ahead, behind, k', hplace, hmake, hsame₃, h', hlinks₃⟩ :=
    h₂.makeReady (hmem ▸ hreason k₁.memory)
  have hsame := (hsame₁.trans hsame₂).trans hsame₃
  have hos : k'.osPool = k.osPool := by
    have hos₁ := osPool_removeWaiting k pid
    have hos₃ := osPool_makeReady k₂ r
    rw [hremove] at hos₁
    rw [hmake] at hos₃
    obtain rfl : k₁.withMemory (f k₁.memory) = k₂ := (Prod.mk.inj hchange).2
    exact hos₃.trans hos₁
  -- All that is written: links of the wait queue, the given slots, the state, and links again.
  have hframe : Record.OnlySlots
      ((.state :: slots).map (r, ·) ++ Record.links (ready ++ r :: (before ++ after))) k.memory
      k'.memory := by
    have hwritten := hlinks₁.onlySlots.trans (hmem ▸ hf k₁.memory)
    refine (hwritten.trans (Record.onlySlots_set.trans hlinks₃.onlySlots)).mono fun x hx => ?_
    simp only [Record.links, List.map_append, List.map_cons, List.mem_append, List.mem_cons,
      List.not_mem_nil, or_false] at hx ⊢
    tauto
  have hnot : Slot.priority ∉ Slot.state :: slots :=
    List.not_mem_cons_of_ne_of_not_mem (by simp) hpriority
  have hslots := mem_written ready before after r hnot
  have hsep : Separate Record.span (ready ++ (before ++ r :: after)) := by
    have hsep := h.ledger.separate.2.1
    rwa [List.append_nil] at hsep
  have hpriorities : ∀ x ∈ ready ++ (before ++ r :: after), x.priority k.memory = x.priority k'.memory :=
    fun x hx => (hframe.get hsep hx hslots).symm
  obtain ⟨hstate, hreason'⟩ := h'.standing.ready r (by simp)
  refine ⟨k₁, k₂, k', exec_takeWaiting_some event hremove, hchange, hmake,
    ⟨⟨ahead, behind, ?_, h'.readyRecords⟩, h'.waitingRecords, hstate, hreason', hframe,
      hsame.eq_of_osPool hos, h'.osBlocks.trans h.osBlocks.symm, ?_⟩,
    fun s hs => hlinks₁.slots r (by simp) s hs, fun s hs => ?_⟩
  · exact hplace.congr_priorities (fun x hx => hpriorities x (List.mem_append_left _ hx))
      (hpriorities r (by simp))
  · rw [hsame.userPool]
    exact h.userBlocks_congr hframe fun x hx => (hslots x hx).1
  · obtain ⟨hnext, hstate, -⟩ := Slot.ne_of_isScheduling hs
    rw [hlinks₃.slots r List.mem_cons_self s hnext, Record.setState, Record.get_set_of_ne hstate.symm,
      hmem]

end Sound

/-- **A completion lets the process go on** that waits with the number `pid`: it becomes ready,
    whatever it waits for.  An input is then in its register of results, and an output is reported
    from there.  Where no waiting process has the number, the completion is refused as `pidNotFound`
    and nothing changes. -/
theorem Reachable.completes (h : Reachable config catalog k) (pid : Word) (input : Char) :
    ∃ ready waiting, k.readyRecords = .ok ready ∧ k.waitingRecords = .ok waiting ∧
      (∀ before r after, waiting = before ++ r :: after → (∀ p ∈ before, p.pid k.memory ≠ pid) →
        r.pid k.memory = pid →
        (∃ k', exec (Kernel.interrupt (.inputCompletion pid input)) k = (.ok (.inputDelivered pid), k')
          ∧ Completed r [.state, .gpr .r1, .reason] ready (before ++ after) k k'
          ∧ r.get k'.memory (.gpr .r1) = Word.ofChar input) ∧
        ∃ k', exec (Kernel.interrupt (.outputCompletion pid)) k
            = (.ok (.output pid (r.get k.memory (.gpr .r1))), k')
          ∧ Completed r [.state, .reason] ready (before ++ after) k k'
          ∧ r.get k'.memory (.gpr .r1) = r.get k.memory (.gpr .r1)) ∧
      ((∀ p ∈ waiting, p.pid k.memory ≠ pid) →
        exec (Kernel.interrupt (.inputCompletion pid input)) k = (.ok (.pidNotFound pid), k)
          ∧ exec (Kernel.interrupt (.outputCompletion pid)) k = (.ok (.pidNotFound pid), k)) := by
  obtain ⟨-, -, free, ready, waiting, hk⟩ := h.atRest
  refine ⟨ready, waiting, hk.readyRecords, hk.waitingRecords, ?_, fun hnone => ⟨?_, ?_⟩⟩
  · rintro before r after rfl hbefore hpid
    have hwithin := hk.ledger.within hk.fits (x := r) (by simp)
    -- The two completions differ in what is written to the record and in what is reported.
    constructor
    · obtain ⟨k₁, k₂, k', htake, hchange, hmake, hcompleted, -, hslots⟩ :=
        hk.completeFirst hbefore hpid .inputCompletion [.gpr .r1, .reason]
          (f := fun m => r.setReason (r.set m (.gpr .r1) (Word.ofChar input)) .none)
          (fun m => Record.onlySlots_set.trans Record.onlySlots_set) (by simp)
          fun m => Record.reason?_setReason hk.fits hwithin .none
      refine ⟨k', ?_, hcompleted, ?_⟩
      · rw [Kernel.interrupt, Kernel.deliverInput, exec_bind_ok htake]
        simp only []
        rw [exec_bind_ok hchange, exec_bind_ok hmake]
        rfl
      · rw [hslots (.gpr .r1) rfl, Record.setReason, Record.get_set_of_ne (by simp),
          Record.get_set_self hk.fits hwithin]
    · obtain ⟨k₁, k₂, k', htake, hchange, hmake, hcompleted, htaken, hslots⟩ :=
        hk.completeFirst hbefore hpid .outputCompletion [.reason]
          (f := (r.setReason · .none)) (fun m => Record.onlySlots_set) (by simp)
          fun m => Record.reason?_setReason hk.fits hwithin .none
      refine ⟨k', ?_, hcompleted, ?_⟩
      · rw [← htaken (.gpr .r1) (by simp), Kernel.interrupt, Kernel.deliverOutput, exec_bind_ok htake]
        simp only []
        rw [exec_bind_ok (exec_get _), exec_bind_ok hchange, exec_bind_ok hmake]
        rfl
      · rw [hslots (.gpr .r1) rfl, Record.setReason, Record.get_set_of_ne (by simp),
          htaken (.gpr .r1) (by simp)]
  · rw [Kernel.interrupt, Kernel.deliverInput,
      exec_bind_ok (exec_takeWaiting_none .inputCompletion (hk.removeWaiting_none hnone))]
    rfl
  · rw [Kernel.interrupt, Kernel.deliverOutput,
      exec_bind_ok (exec_takeWaiting_none .outputCompletion (hk.removeWaiting_none hnone))]
    rfl

/-- Of four processes that ask for a character, two wait.  The one that has waited longer gets its
    character and stands between the two others, by its priority.  A completion is refused for a process
    that is ready, and for a number that nobody has. -/
theorem Reachable.completes_second :
    let config : Config := { layout := ⟨⟨0, 9⟩, ⟨10, 29⟩, ⟨30, 125⟩⟩, stackSize := 2 }
    let catalog := Catalog.ofList [("ask", ⟨[(0, 126000), (1, 8), (2, 0)], 0⟩)]
    let p (i : Fin 4) : Record := ⟨⟨30 + 22 * i.val, by have := i.isLt; unfold memorySize; omega⟩⟩
    ∃ k k', Reachable config catalog k ∧ k.readyRecords = .ok [p 2, p 3]
      ∧ k.waitingRecords = .ok [p 1, p 0]
      ∧ exec (Kernel.interrupt (.inputCompletion 1 'A')) k = (.ok (.inputDelivered 1), k')
      ∧ k'.waitingRecords = .ok [p 1] ∧ (p 0).get k'.memory (.gpr .r1) = 65
      ∧ Completed (p 0) [.state, .gpr .r1, .reason] [p 2, p 3] [p 1] k k'
      ∧ exec (Kernel.interrupt (.inputCompletion 3 'A')) k = (.ok (.pidNotFound 3), k)
      ∧ exec (Kernel.interrupt (.outputCompletion 9)) k = (.ok (.pidNotFound 9), k) := by
  intro config catalog p
  obtain ⟨k₀, hboot, hready, hwaiting, hpid₁, hpid₀⟩ :
      ∃ k₀, (Kernel.boot config catalog).outcome = .ok k₀ ∧
        let k := k₀.after [.create "ask" 5, .cycle, .create "ask" 5, .cycle, .create "ask" 5,
          .create "ask" 1]
        k.readyRecords.toOption = some [p 2, p 3] ∧ k.waitingRecords.toOption = some [p 1, p 0]
          ∧ (p 1).pid k.memory = 2 ∧ (p 0).pid k.memory = 1 := exists_boot (by decide +kernel)
  have hk : Reachable config catalog (k₀.after [.create "ask" 5, .cycle, .create "ask" 5, .cycle,
      .create "ask" 5, .create "ask" 1]) := (Reachable.boot hboot).after _
  obtain ⟨ready, waiting, hready', hwaiting', hcompletes, -⟩ := hk.completes 1 'A'
  obtain ⟨ready₃, waiting₃, -, hwaiting₃, -, hnone₃⟩ := hk.completes 3 'A'
  obtain ⟨ready₉, waiting₉, -, hwaiting₉, -, hnone₉⟩ := hk.completes 9 'A'
  obtain rfl := Except.ok.inj (hwaiting₃.symm.trans hwaiting')
  obtain rfl := Except.ok.inj (hwaiting₉.symm.trans hwaiting')
  rw [hready'] at hready
  rw [hwaiting'] at hwaiting
  obtain rfl : ready = [p 2, p 3] := Option.some.inj hready
  obtain rfl : waiting₉ = [p 1, p 0] := Option.some.inj hwaiting
  obtain ⟨⟨k', hexec, hcompleted, hinput⟩, -⟩ := hcompletes [p 1] (p 0) [] rfl
    (by simp [hpid₁]) hpid₀
  exact ⟨_, k', hk, hready', hwaiting', hexec, hcompleted.waitingRecords, hinput, hcompleted,
    (hnone₃ (by simp [hpid₁, hpid₀])).1, (hnone₉ (by simp [hpid₁, hpid₀])).2⟩

end Kernel

end Timeshare
