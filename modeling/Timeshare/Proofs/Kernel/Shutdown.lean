import Timeshare.Proofs.Kernel.Conservation
import Timeshare.Proofs.Process.Order

namespace Timeshare.Kernel

/-!
# Shutdown

A shutdown empties the wait queue into the ready queue and ends the processes there one after the other.
The records turn into free blocks while the queue that they are in is emptied, and some of their stacks
may be refused; it comes to an end all the same, and every process ends once.

* `Kernel.Sound.terminations_eq` — the processes that end are those of the ready queue, in its order, and
  none of the ends depends on the user pool.
* `Kernel.Reachable.shuts_down` — a shutdown of a kernel that comes about.
-/

open Timeshare.Action

variable {k k' : Kernel} {free : List FreeBlock} {ready waiting : List Record}
variable {config : Config} {catalog : Catalog}

/-- The process `e.1` ends in the kernel `e.2`.  Its stack is offered to the user pool, which may
    refuse it. -/
def Terminates (e : Record × Kernel) : Prop :=
  ∃ k', exec (terminate e.1) e.2 = (.ok (), k') ∧ StackReturned e.1 e.2 k'

/-- The ready processes end in the order of their queue, each of them once, and each end succeeds
    (`Terminates`). -/
theorem Sound.terminations_eq (h : Sound k free ready waiting []) {fuel : Nat}
    (hfuel : ready.length < fuel) :
    (terminations fuel k).map Prod.fst = ready ∧ ∀ e ∈ terminations fuel k, Terminates e := by
  induction ready generalizing k free fuel with
  | nil =>
    obtain ⟨fuel, rfl⟩ := Nat.exists_eq_add_one.mpr hfuel
    rw [terminations, h.popReady_nil]
    exact ⟨rfl, by simp⟩
  | cons r ready ih =>
    obtain ⟨fuel, rfl⟩ := Nat.exists_eq_add_one.mpr (Nat.zero_lt_of_lt hfuel)
    obtain ⟨k₁, hpop, -, h₁, -⟩ := h.popReady_cons
    obtain ⟨k₂, hterminate, -, hstack, h₂, -⟩ := h₁.terminate
    obtain ⟨hrest, hall⟩ := ih h₂ (Nat.lt_of_succ_lt_succ hfuel)
    -- The first one leaves the queue and ends; the rest end as the induction says.
    rw [terminations, hpop]
    simp only []
    rw [hterminate, List.map_cons, hrest]
    exact ⟨rfl, List.forall_mem_cons.mpr ⟨⟨k₂, hterminate, hstack⟩, hall⟩⟩

/-- **Shutdown.**  In every kernel that comes about, a shutdown succeeds.  It ends every process of
    the two queues once, in the order `Record.byPriority` of their priorities, those that wait
    behind those that are ready, and reports their numbers in this order.  Then both queues are
    empty, and the pool of process records is free; registers, clock and the number of the next
    process are as before. -/
theorem Reachable.shuts_down (h : Reachable config catalog k) :
    ∃ ready waiting k', k.readyRecords = .ok ready ∧ k.waitingRecords = .ok waiting ∧
      let ended := Record.byPriority k.memory (ready ++ waiting)
      exec (Kernel.interrupt .shutdown) k = (.ok (.shutDown (ended.map (·.pid k.memory))), k')
        ∧ ended.Nodup ∧ ((Operation.interrupt .shutdown).endings k).map Prod.fst = ended
        ∧ (∀ e ∈ (Operation.interrupt .shutdown).endings k, Terminates e)
        ∧ k'.readyRecords = .ok [] ∧ k'.waitingRecords = .ok []
        ∧ (∃ blocks, (k'.osPool.blocks k'.memory).outcome = .ok blocks
          ∧ Tiles (blocks.map FreeBlock.span) config.layout.osPool.span)
        ∧ k'.isShutDown = true ∧ k'.registers = k.registers ∧ k'.clock = k.clock
        ∧ k'.nextPid = k.nextPid := by
  obtain ⟨rfl, -, free, ready, waiting, hk⟩ := h.atRest
  obtain ⟨free', k', hexec, hconfig, -, hdown, hk', hnext, -, hcpu⟩ := hk.shutDown
  obtain ⟨k₁, hrelease, -, h₁, -⟩ := hk.releaseAll (Nat.lt_succ_of_le hk.length_le.2)
  obtain ⟨hended, hterminate⟩ := h₁.terminations_eq (Nat.lt_succ_of_le h₁.length_le.1)
  have hendings : (Operation.interrupt .shutdown).endings k = terminations (memorySize + 1) k₁ := by
    rw [Operation.endings, hrelease]
  have hnodup := hk.ledger.nodup
  rw [List.append_nil] at hnodup
  -- With no process left, the records of the ledger are gone, and the free blocks tile the pool.
  have htiles := hk'.ledger.tiles
  rw [List.append_nil, List.append_nil, List.map_nil, List.append_nil, hconfig] at htiles
  refine ⟨ready, waiting, k', hk.readyRecords, hk.waitingRecords, hexec,
    (Record.byPriority_perm _ _).nodup_iff.mpr hnodup, ?_, ?_, hk'.readyRecords, hk'.waitingRecords,
    ⟨free', hk'.osBlocks, htiles⟩, hdown, congrArg Cpu.registers hcpu,
    congrArg (·.registers.clock) hcpu, hnext⟩
  · rw [hendings, hended]
  · rw [hendings]
    exact hterminate

/-- Of three processes the first one waits, and has released its stack, which another process got.  The
    waiting process stands before the one with a lower priority.  Both have the same stack to offer, and
    one of them is refused. -/
theorem Reachable.shuts_down_refused :
    let config : Config := { layout := ⟨⟨0, 9⟩, ⟨10, 29⟩, ⟨30, 95⟩⟩, stackSize := 2 }
    let catalog := Catalog.ofList [("shed", ⟨[(0, 51160), (1, 10), (2, 51260), (3, 2), (4, 126000), (5, 5),
      (6, 126000), (7, 8)], 0⟩), ("halt", ⟨[(8, 0)], 8⟩)]
    ∃ k k', Reachable config catalog k
      ∧ exec (Kernel.interrupt .shutdown) k = (.ok (.shutDown [3, 1, 2]), k')
      ∧ ((Operation.interrupt .shutdown).endings k).length = 3
      ∧ (∃ e ∈ (Operation.interrupt .shutdown).endings k, ¬ Accepted e)
      ∧ k'.readyRecords = .ok [] ∧ k'.waitingRecords = .ok [] := by
  intro config catalog
  obtain ⟨k₀, hboot, hreport, e, he, hrefused⟩ : ∃ k₀, (Kernel.boot config catalog).outcome = .ok k₀ ∧
      let k := k₀.after [.create "shed" 5, .cycle, .create "halt" 1, .create "halt" 5]
      (exec (Kernel.interrupt .shutdown) k).1.toOption = some (.shutDown [3, 1, 2])
        ∧ ∃ e ∈ (Operation.interrupt .shutdown).endings k,
          (e.2.userPool.release e.2.memory (e.1.get e.2.memory .stackStart)
            (e.1.get e.2.memory .stackSize)).outcome.toOption.isNone = true :=
    exists_boot (by decide +kernel)
  have hk : Reachable config catalog
      (k₀.after [.create "shed" 5, .cycle, .create "halt" 1, .create "halt" 5]) :=
    (Reachable.boot hboot).after _
  obtain ⟨ready, waiting, k', -, -, hexec, -, hended, -, hready, hwaiting, -⟩ := hk.shuts_down
  rw [hexec] at hreport
  have hpids := InterruptOutcome.shutDown.inj (Option.some.inj hreport)
  rw [hpids] at hexec
  refine ⟨_, k', hk, hexec, ?_, ⟨e, he, ?_⟩, hready, hwaiting⟩
  · have hlen := congrArg List.length hpids
    rwa [List.length_map, ← hended, List.length_map] at hlen
  · rintro ⟨x, hx⟩
    rw [hx] at hrefused
    exact absurd hrefused (by simp [Except.toOption])

end Timeshare.Kernel
