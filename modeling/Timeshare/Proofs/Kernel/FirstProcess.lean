import Timeshare.Proofs.Kernel.Capacity
import Timeshare.Proofs.Kernel.Conservation

namespace Timeshare

/-!
# The first process

The check of a configuration compares the size of a stack with the length of the user pool.  The pool
serves a request with two words at least, and it never leaves a single one.  So there are configurations
that pass the check and whose first process gets no stack: those with a user pool that is one word longer
than what a stack takes.

* `Pool.Conserved.allocate_single` — a request to a pool that is one free block.
* `Kernel.Sound.creation_first` — in a kernel without a process, creation ends as that request does.
* `Kernel.first_process` — how the first creation of a process ends.
* `Kernel.first_process_passed_over` — a configuration that passes the check, without a first process.
-/

namespace Pool.Conserved

variable {p : Pool} {m : Memory} {b : FreeBlock} {n : Word}

/-- A free block that is all that a pool has covers its region. -/
theorem single_span (h : p.Conserved m [b] []) : b.span = p.region.span := by
  have htiles : Tiles [b.span] p.region.span := h.tiles
  have hpos := (h.chain.within b List.mem_cons_self).span_pos
  have hlen := htiles.length_words
  rw [List.flatMap_singleton, Span.length_words] at hlen
  obtain ⟨hfirst, hlast⟩ := htiles.bounds List.mem_cons_self hpos
  rw [Span.ext_iff]
  omega

/-- It can serve a request for `n` words unless the region is too short for `max n 2`, or a single
    word would be left over. -/
theorem single_fits_iff (h : p.Conserved m [b] []) :
    b.Fits (max n minBlockSize)
      ↔ max n.toInt 2 ≤ p.region.length.toNat ∧ p.region.length.toNat ≠ max n.toInt 2 + 1 := by
  have hsize : b.size.toInt.toNat = p.region.length.toNat := congrArg Span.size h.single_span
  have htwo := (h.chain.within b List.mem_cons_self).two_le
  rw [FreeBlock.Fits, ← Int64.toInt_inj, Word.toInt_max, minBlockSize_toInt]
  omega

/-- **A request to a pool that is one free block** `b` is served with the front of the block, or
    refused with `noFreeMemory` if the block cannot serve it. -/
theorem allocate_single (h : p.Conserved m [b] []) (hn : 1 ≤ n.toInt) :
    (b.Fits (max n minBlockSize) ∧ ∃ p' m', (p.allocate m n).outcome = .ok (b.address, p', m')) ∨
      (¬ b.Fits (max n minBlockSize) ∧ (p.allocate m n).outcome = .error .noFreeMemory) := by
  rcases h.toInOrder.firstFit hn with
    ⟨hnone, hout⟩ | ⟨skipped, c, rest, _, p', m', hsplit, -, hcut, hout, -⟩
  · exact .inr ⟨hnone b List.mem_cons_self, hout⟩
  · -- The pool has no other block.
    have hc : c ∈ [b] := by
      rw [hsplit]
      simp
    rw [List.mem_singleton.mp hc] at hcut hout
    exact .inl ⟨hcut.fits, p', m', hout⟩

end Pool.Conserved

namespace Kernel

open Timeshare.Action

variable {k k' : Kernel} {free : List FreeBlock} {b : FreeBlock} {r : Record} {m : Memory}
  {x : Address × Memory}
variable {config : Config} {catalog : Catalog} {program : String}

/-- In a kernel without a process, a program that can be loaded gets a record if the pool of process
    records has room for one.  Then `creation` ends as the request for a stack does. -/
theorem Sound.creation_first (h : Sound k free [] [] [])
    (hrecord : k.config.layout.osPool.length.toNat = 22 ∨ 24 ≤ k.config.layout.osPool.length.toNat)
    (hload : (k.catalog.load program m k.config.layout).outcome = .ok x) :
    ∃ r : Record, creation k program
      = (do let _ ← (k.userPool.allocate k.memory k.config.stackSize).outcome; return r) := by
  have hroom : 0 < capacity k.config.layout.osPool.length.toNat := by
    unfold capacity
    split <;> [omega; split <;> omega]
  obtain ⟨y, hy⟩ := h.allocates_iff.2.mpr hroom
  -- Whether a program can be loaded does not depend on what the memory holds.
  obtain ⟨z, hz, -⟩ :=
    (Catalog.load_alike k.catalog program k.config.layout k.memory m).of_ok hload
  exact ⟨⟨y.1⟩, by rw [creation, hy, ok_bind, hz, ok_bind]⟩

/-- **The stack** of a first process is the front of the user pool, and what it leaves of the pool is
    free. -/
theorem Sound.NewProcess.stack_first (hnew : NewProcess k r k') (h : Framed k) (h' : Framed k')
    (hconfig : k'.config = k.config) (hpool : k.userPool.Conserved k.memory [b] []) :
    let pool := k.config.layout.userPool
    (r.stack k'.memory).span = ⟨pool.start.toNat, (max k.config.stackSize.toInt 2).toNat⟩
      ∧ (∀ a ∈ (r.stack k'.memory).span, a ∈ pool)
      ∧ k'.userPool.Partitioned k'.memory pool [r.stack k'.memory] := by
  intro pool
  have hregion : k'.userPool.region = pool := by rw [h'.userRegion, hconfig]
  obtain ⟨bs, hbs⟩ : Custody k' [r] [] := hnew.custody h ⟨[b], hpool⟩ fun _ hr => absurd hr (by simp)
  replace hbs : k'.userPool.Conserved k'.memory bs [r.stack k'.memory] := hbs
  refine ⟨?_, fun a ha => ?_, hregion ▸ hbs.partitioned⟩
  · obtain ⟨a, p, m, hout, hstart, hsize⟩ := hnew.stack
    -- The pool is one block, so that the stack is cut from its front; too small a pool would have
    -- refused it.
    rcases hpool.allocate_single h.valid.one_le_stack with ⟨-, p', m', hfront⟩ | ⟨-, hnone⟩
    · have ha : a = b.address := (Prod.mk.inj (Except.ok.inj (hout.symm.trans hfront))).1
      have hb : b.address.index = pool.start.toNat := by
        rw [show pool = k.userPool.region from h.userRegion.symm]
        exact congrArg Span.start hpool.single_span
      rw [Record.stack, hstart, hsize, ha, Grant.span_of_address, Pool.served, hb, Word.toInt_max,
        Pool.minBlockSize_toInt]
    · rw [hnone] at hout
      exact absurd hout (by simp)
  · exact hregion ▸ (hbs.within _ List.mem_cons_self).mem_of_span ha

/-- **The first process.**  Let a configuration pass its check, with a pool of process records that
    has room for one, and let a program be one that can be loaded.  Then on a new kernel the first
    creation succeeds, unless the user pool is longer by one word than what a stack takes,
    `words + 1`; and the stack of the process is the front of the user pool, of which all the rest
    is free.  In a pool that is longer by one word there is no block for the stack:
    `noFreeMemory`. -/
theorem first_process (hvalid : config.validate = .ok ())
    (hrecord : config.layout.osPool.length.toNat = 22 ∨ 24 ≤ config.layout.osPool.length.toNat)
    (hload : (catalog.load program m config.layout).outcome = .ok x) (priority : Word) :
    ∃ k, (boot config catalog).outcome = .ok k ∧
      let words := max config.stackSize.toInt 2
      let pool := config.layout.userPool
      (pool.length.toNat ≠ words + 1 → ∃ r k', exec (create program priority) k = (.ok r, k')
        ∧ k'.readyRecords = .ok [r] ∧ k'.waitingRecords = .ok []
        ∧ (r.stack k'.memory).span = ⟨pool.start.toNat, words.toNat⟩
        ∧ (∀ a ∈ (r.stack k'.memory).span, a ∈ pool)
        ∧ k'.userPool.Partitioned k'.memory pool [r.stack k'.memory])
      ∧ (pool.length.toNat = words + 1 →
        (exec (create program priority) k).1 = .error .noFreeMemory) := by
  obtain ⟨k, free, hboot, rfl, rfl, hk⟩ := boot_sound catalog hvalid
  obtain ⟨b, hpool⟩ := boot_conserved hboot
  obtain ⟨r, hcreation⟩ := hk.creation_first hrecord hload
  obtain ⟨k', hexec, hconfig, -, -, -, hend⟩ := hk.create program priority
  refine ⟨k, hboot, ?_⟩
  intro words pool
  -- The stack is not larger than the user pool, so the pool has room for it unless one word is left.
  have hle : words ≤ pool.length.toNat :=
    Int.max_le.mpr ⟨hk.valid.stack_le, by exact_mod_cast hk.valid.layout.two_le_userPool⟩
  have hfits : b.Fits (max k.config.stackSize minBlockSize) ↔ pool.length.toNat ≠ words + 1 := by
    rw [hpool.single_fits_iff, hk.userRegion]
    exact and_iff_right hle
  rcases hpool.allocate_single hk.valid.one_le_stack with ⟨hroom, p, m, hout⟩ | ⟨hno, hout⟩
  · rw [hout, ok_bind] at hcreation
    refine ⟨fun _ => ?_, fun hone => absurd hone (hfits.mp hroom)⟩
    rcases hend with ⟨e, _, herror, -⟩ | ⟨y, free', ahead, behind, hok, hplace, hnew, hk'⟩
    · exact absurd (hcreation.symm.trans herror) (by simp [pure, Except.pure])
    obtain rfl : r = y := Except.ok.inj (hcreation.symm.trans hok)
    obtain ⟨rfl, rfl⟩ := List.append_eq_nil_iff.mp hplace.eq.symm
    rw [hcreation] at hexec
    exact ⟨r, k', hexec, hk'.readyRecords, hk'.waitingRecords,
      hnew.stack_first hk.toFramed hk'.toFramed hconfig hpool⟩
  · rw [hout, error_bind] at hcreation
    exact ⟨fun hne => absurd (hfits.mpr hne) hno, fun _ => by rw [hexec, hcreation]⟩

/-- A process that just halts is the first of a kernel whose user pool has twenty words, three of which are
    its stack. -/
theorem first_process_three :
    let config : Config := { layout := ⟨⟨0, 9⟩, ⟨10, 29⟩, ⟨30, 89⟩⟩, stackSize := 3 }
    let catalog := Catalog.ofList [("halt", ⟨[(0, 0)], 0⟩)]
    ∃ k r k', (boot config catalog).outcome = .ok k ∧ exec (create "halt" 1) k = (.ok r, k')
      ∧ (r.stack k'.memory).span = ⟨10, 3⟩ := by
  intro config catalog
  have hvalid : config.validate = .ok () := by decide
  have hload : ∃ x, (catalog.load "halt" Memory.zero config.layout).outcome = .ok x := ⟨_, rfl⟩
  obtain ⟨x, hload⟩ := hload
  obtain ⟨k, hboot, hcreate, -⟩ := first_process hvalid (.inr (by decide)) hload 1
  obtain ⟨r, k', hexec, -, -, hspan, -⟩ := hcreate (by decide)
  exact ⟨k, r, k', hboot, hexec, hspan⟩

/-- Twenty words are passed over for a stack of nineteen, although the configuration passes the check and the
    program can be loaded: one word would be left over. -/
theorem first_process_passed_over :
    let config : Config := { layout := ⟨⟨0, 9⟩, ⟨10, 29⟩, ⟨30, 89⟩⟩, stackSize := 19 }
    let catalog := Catalog.ofList [("halt", ⟨[(0, 0)], 0⟩)]
    config.validate = .ok () ∧ config.layout.osPool.length.toNat = 60
      ∧ (∃ x, (catalog.load "halt" Memory.zero config.layout).outcome = .ok x)
      ∧ ∃ k, (boot config catalog).outcome = .ok k
        ∧ (exec (create "halt" 1) k).1 = .error .noFreeMemory := by
  intro config catalog
  have hvalid : config.validate = .ok () := by decide
  exact ⟨hvalid, by decide, ⟨_, rfl⟩, exists_boot (by decide +kernel)⟩

end Kernel

end Timeshare
