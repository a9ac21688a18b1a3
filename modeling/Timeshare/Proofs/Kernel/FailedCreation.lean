import Timeshare.Proofs.Kernel.Reachable

namespace Timeshare

/-!
# Creations that fail

The creation of a process can fail at four points: there may be no record, no such program, a program
that cannot be loaded, or no stack.  The record that the process already had is given back, and heads
the list of free records then; so the list is another one than before, and still nobody can tell.

* `Kernel.Sound.queues_eq` — kernels with the same records in their queues have the same queues.
* `Kernel.Undone.creation_eq` — after a creation that was undone, every creation ends as it would have
  before.
* `Kernel.Reachable.create_fails` — what a creation that fails leaves as it was.
-/

/-- A list of records has one first link: chains of the same `rs` start with the same one. -/
theorem RecordChain.head_unique {region region' : Region} {m n : Memory} {l l' : Link}
    {rs : List Record} (h : RecordChain region m l rs) (h' : RecordChain region' n l' rs) : l = l' := by
  cases rs with
  | nil =>
    have hl : l = .none := h
    have hl' : l' = .none := h'
    rw [hl, hl']
  | cons r rs => rw [h.1, h'.1]

namespace Kernel

open Timeshare.Action

variable {k k' : Kernel} {free free' : List FreeBlock} {ready waiting held : List Record}
variable {config : Config} {catalog : Catalog} {program : String} {e : Fault}

/-- Kernels with the same records in their queues have the same queues: the heads are told by the
    lists. -/
theorem Sound.queues_eq (h : Sound k free ready waiting held) (h' : Sound k' free' ready waiting held)
    (hconfig : k'.config = k.config) : k'.ready = k.ready ∧ k'.waiting = k.waiting := by
  have hready : k'.ready.head = k.ready.head := h'.ledger.readyChain.head_unique h.ledger.readyChain
  have hwaiting : k'.waiting.head = k.waiting.head := h'.ledger.waitChain.head_unique h.ledger.waitChain
  constructor
  · show (⟨k'.ready.region, k'.ready.head⟩ : ReadyQueue) = ⟨k.ready.region, k.ready.head⟩
    rw [hready, h'.readyRegion, h.readyRegion, hconfig]
  · show (⟨k'.waiting.region, k'.waiting.head⟩ : WaitQueue) = ⟨k.waiting.region, k.waiting.head⟩
    rw [hwaiting, h'.waitRegion, h.waitRegion, hconfig]

/-! ### What is undone -/

/-- The user pool and its memory are as they were. -/
theorem Undone.user (h : Undone k program e (ready ++ waiting) k') (hk : Framed k) :
    k'.userPool = k.userPool
      ∧ Memory.SameOn (· ∈ k.config.layout.userPool) k.memory k'.memory := by
  have hL := hk.valid.layout
  exact ⟨h.userPool, h.frame.mono fun a ha => ⟨hL.not_mem_osPool ha, hL.not_mem_userProgram ha⟩⟩

/-- How a creation ends depends on no more than the address of the record, whether the program is
    loaded, and whether there is a stack. -/
theorem creation_eq (k : Kernel) (program : String) :
    creation k program = (do
      let address ← (k.osPool.allocate k.memory recordSize).outcome.map Prod.fst
      let _ ← (k.catalog.load program k.memory k.config.layout).outcome.map Prod.fst
      let _ ← (k.userPool.allocate k.memory k.config.stackSize).outcome.map Prod.fst
      return ⟨address⟩) := by
  unfold creation
  cases (k.osPool.allocate k.memory recordSize).outcome with
  | error e => rfl
  | ok record =>
    cases (k.catalog.load program k.memory k.config.layout).outcome with
    | error e => rfl
    | ok loaded => cases (k.userPool.allocate k.memory k.config.stackSize).outcome <;> rfl

/-- **The next creation** ends as it would have ended without the one that was undone:
    `creation k' next = creation k next`. -/
theorem Undone.creation_eq (h : Undone k program e (ready ++ waiting) k') (hk : Framed k)
    (next : String) : creation k' next = creation k next := by
  obtain ⟨hpool, hmem⟩ := h.user hk
  have hloads : (k.catalog.load next k'.memory k.config.layout).outcome.map Prod.fst
      = (k.catalog.load next k.memory k.config.layout).outcome.map Prod.fst :=
    (Catalog.load_alike k.catalog next k.config.layout k'.memory k.memory).map_eq fun _ _ hxy => hxy
  have hstacks : (k.userPool.allocate k'.memory k.config.stackSize).outcome.map Prod.fst
      = (k.userPool.allocate k.memory k.config.stackSize).outcome.map Prod.fst :=
    (Pool.allocate_congr (hk.userRegion ▸ hk.valid.layout.userPool) (fun a ha => hk.userRegion ▸ ha)
      hmem.symm k.config.stackSize).map_eq fun _ _ hxy => hxy.1
  rw [Kernel.creation_eq, Kernel.creation_eq, h.record, h.catalog, h.config, hpool, hloads, hstacks]

/-- **A creation that fails leaves no trace** in any kernel that comes about.  The next number, both
    queues and every word of their records, the process that has the processor, the registers with
    the clock, the user pool and every word of it, and the number of free words are what they were;
    so is the program area, unless there was no stack.  A creation that is tried next ends as it would
    have without the one that has failed: with the same fault, or the same record and number. -/
theorem Reachable.create_fails {priority : Word} (h : Reachable config catalog k)
    (hfail : exec (Kernel.create program priority) k = (.error e, k')) :
    k'.nextPid = k.nextPid ∧ k'.running = k.running ∧ k'.isShutDown = k.isShutDown
      ∧ k'.machine.cpu = k.machine.cpu
      ∧ (k'.ready = k.ready ∧ k'.waiting = k.waiting
        ∧ ∃ ready waiting, k.readyRecords = .ok ready ∧ k.waitingRecords = .ok waiting
          ∧ k'.readyRecords = .ok ready ∧ k'.waitingRecords = .ok waiting
          ∧ Record.Untouched (ready ++ waiting) k.memory k'.memory)
      ∧ (k'.userPool = k.userPool ∧ Memory.SameOn (· ∈ config.layout.userPool) k.memory k'.memory)
      ∧ (∃ w, (k.osPool.freeWords k.memory).outcome = .ok w
        ∧ (k'.osPool.freeWords k'.memory).outcome = .ok w)
      ∧ (Memory.SameOn (· ∈ config.layout.userProgram) k.memory k'.memory ∨ StackMissing k program e)
      ∧ ∀ next nextPriority, ∃ result k₁ k₁', exec (Kernel.create next nextPriority) k = (result, k₁)
        ∧ exec (Kernel.create next nextPriority) k' = (result, k₁')
        ∧ ∀ r, result = .ok r → r.pid k₁'.memory = r.pid k₁.memory := by
  obtain ⟨rfl, -, free, ready, waiting, hk⟩ := h.atRest
  obtain ⟨k'', hexec, -, -, -, -, hend⟩ := hk.create program priority
  obtain ⟨hres, rfl⟩ := Prod.mk.inj (hfail.symm.trans hexec)
  rcases hend with ⟨e', free', he, hundone, hk'⟩ | ⟨_, _, _, _, hok, -⟩
  swap
  · exact absurd (hres.trans hok) (by simp)
  obtain rfl : e' = e := Except.error.inj (he.symm.trans hres.symm)
  obtain ⟨hready, hwaiting⟩ := hk.queues_eq hk' hundone.config
  obtain ⟨-, -, hfree⟩ := hk.rollBack hfail
  obtain ⟨w, hw, -⟩ := hk.freeWords
  refine ⟨hundone.nextPid, hundone.running, hundone.isShutDown, hundone.cpu,
    ⟨hready, hwaiting, ready, waiting, hk.readyRecords, hk.waitingRecords, hk'.readyRecords,
      hk'.waitingRecords, hundone.queued⟩, hundone.user hk.toFramed, ⟨w, hw, hfree.trans hw⟩,
    hundone.area, fun next nextPriority => ?_⟩
  -- Both creations end alike, and if they succeed, then with the number that is next in both kernels.
  obtain ⟨k₁, hexec₁, -, -, -, -, hend₁⟩ := hk.create next nextPriority
  obtain ⟨k₁', hexec₁', -, -, -, -, hend₁'⟩ := hk'.create next nextPriority
  rw [hundone.creation_eq hk.toFramed] at hexec₁' hend₁'
  refine ⟨_, k₁, k₁', hexec₁, hexec₁', fun r hr => ?_⟩
  rcases hend₁ with ⟨_, _, hfail₁, -⟩ | ⟨x, _, _, _, hx, -, hnew, -⟩
  · exact absurd (hr.symm.trans hfail₁) (by simp)
  rcases hend₁' with ⟨_, _, hfail₁', -⟩ | ⟨x', _, _, _, hx', -, hnew', -⟩
  · exact absurd (hr.symm.trans hfail₁') (by simp)
  obtain rfl := Except.ok.inj (hr.symm.trans hx)
  obtain rfl := Except.ok.inj (hr.symm.trans hx')
  rw [hnew.pid, hnew'.pid, hundone.nextPid]

/-- A program that does not exist is asked for, and then one that does. -/
theorem Reachable.create_fails_unknown :
    let config : Config := { layout := ⟨⟨0, 9⟩, ⟨10, 29⟩, ⟨30, 89⟩⟩, stackSize := 2 }
    let catalog := Catalog.ofList [("halt", ⟨[(0, 0)], 0⟩)]
    ∃ k₀ k e k₁, (Kernel.boot config catalog).outcome = .ok k₀
      ∧ exec (Kernel.create "gone" 1) k₀ = (.error e, k) ∧ k.machine.cpu = k₀.machine.cpu
      ∧ exec (Kernel.create "halt" 1) k = (.ok ⟨⟨30, by decide⟩⟩, k₁) := by
  intro config catalog
  let r : Record := ⟨⟨30, by decide⟩⟩
  obtain ⟨k₀, hboot, hgone, hhalt⟩ : ∃ k₀, (Kernel.boot config catalog).outcome = .ok k₀ ∧
      (exec (Kernel.create "gone" 1) k₀).1 = .error .fileOpen
        ∧ (exec (Kernel.create "halt" 1) k₀).1 = .ok r := exists_boot (by decide +kernel)
  obtain ⟨-, -, -, hcpu, -, -, -, -, hnext⟩ :=
    Reachable.create_fails (.boot hboot) (Prod.ext hgone rfl)
  obtain ⟨result, k₁, k₁', hfirst, hsecond, -⟩ := hnext "halt" 1
  have hresult : result = .ok r := by rw [← hhalt, hfirst]
  rw [hresult] at hsecond
  exact ⟨k₀, _, _, k₁', hboot, Prod.ext hgone rfl, hcpu, hsecond⟩

end Kernel

end Timeshare
