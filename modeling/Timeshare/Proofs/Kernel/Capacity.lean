import Timeshare.Proofs.Kernel.Reachable

namespace Timeshare

/-!
# How many processes there is room for

Free blocks of the pool of process records are never merged, and a block that is larger than a record by
one word is passed over.  Still no room is lost.  All that is ever cut off is a record, so that every
free block but the last has the size of a record, and the last one is the rest that was never cut.

* `capacity words` — how many records a pool of so many words has room for.
* `Tidy.exists_tail` — a tidy free list is a number of records and a tail.
* `Kernel.Sound.allocates_iff` — a record can be had just if there is room for one more.
* `Kernel.Reachable.never_fragments` — so it is in every kernel that comes about.
-/

/-- The number of records that a pool of `words` words has room for.  If one word would be left
    over, the last record cannot be cut off. -/
def capacity (words : Nat) : Nat :=
  if words < 22 then 0 else if words % 22 = 1 then words / 22 - 1 else words / 22

/-- With `used` records in use, `spare` free ones, and a tail of `tail` words, there is room for one
    more record if one is free or can be cut from the tail: `tail = 22` or `24 ≤ tail`. -/
theorem lt_capacity_iff {words used spare tail : Nat} (hwords : 22 * spare + tail + 22 * used = words)
    (htail : tail ≠ 1) :
    used ≤ capacity words ∧ (used < capacity words ↔ 0 < spare ∨ tail = 22 ∨ 24 ≤ tail) := by
  unfold capacity
  by_cases hsmall : words < 22
  · rw [if_pos hsmall]
    omega
  rw [if_neg hsmall]
  by_cases hone : words % 22 = 1
  · rw [if_pos hone]
    omega
  · rw [if_neg hone]
    omega

/-! ### Free lists -/

/-- Blocks of one `size` hold as many words as there are blocks, times the size. -/
theorem length_words_of_size {bs : List FreeBlock} {size : Word} (h : ∀ b ∈ bs, b.size = size) :
    (bs.flatMap fun b => b.span.words).length = size.toInt.toNat * bs.length := by
  induction bs with
  | nil => rfl
  | cons b bs ih =>
    obtain ⟨hb, hbs⟩ := List.forall_mem_cons.mp h
    rw [List.flatMap_cons, List.length_append, Span.length_words, ih hbs, List.length_cons, ← hb]
    show b.size.toInt.toNat + _ = _
    rw [Nat.mul_add, Nat.mul_one, Nat.add_comm]

/-- **A tidy free list** is a number of free records, `spare`, and a `tail` of any size but one
    word.  A record can be taken if one is free or the tail can be cut. -/
theorem Tidy.exists_tail {bs : List FreeBlock} (h : Tidy recordSize bs)
    (hmin : ∀ b ∈ bs, 2 ≤ b.size.toInt) :
    ∃ spare tail, (bs.flatMap fun b => b.span.words).length = 22 * spare + tail ∧ tail ≠ 1
      ∧ ((∃ b ∈ bs, b.Fits recordSize) ↔ 0 < spare ∨ tail = 22 ∨ 24 ≤ tail) := by
  have hsize := Ledger.recordSize_toInt
  rcases List.eq_nil_or_concat' bs with rfl | ⟨front, last, rfl⟩
  · refine ⟨0, 0, rfl, by omega, ?_⟩
    simp
  -- All blocks but the last are whole records.
  have hfront : ∀ b ∈ front, b.size = recordSize := by
    intro b hb
    refine h b ?_
    rwa [List.dropLast_concat]
  have hlast : 2 ≤ last.size.toInt := hmin last (by simp)
  refine ⟨front.length, last.size.toInt.toNat, ?_, by omega, ?_⟩
  · rw [List.flatMap_append, List.length_append, length_words_of_size hfront, hsize,
      List.flatMap_singleton, Span.length_words]
    rfl
  -- A remainder of one word cannot be cut off, hence the gap between `22` and `24`.
  · have htail : last.Fits recordSize ↔ last.size.toInt.toNat = 22 ∨ 24 ≤ last.size.toInt.toNat := by
      unfold FreeBlock.Fits
      rw [← Int64.toInt_inj, hsize]
      omega
    rw [← htail, List.length_pos_iff_exists_mem]
    constructor
    · rintro ⟨b, hb, hfits⟩
      rcases List.mem_append.mp hb with hb | hb
      · exact .inl ⟨b, hb⟩
      · exact .inr (List.mem_singleton.mp hb ▸ hfits)
    · rintro (⟨b, hb⟩ | hfits)
      · exact ⟨b, List.mem_append_left _ hb, .inl (hfront b hb)⟩
      · exact ⟨last, by simp, hfits⟩

namespace Kernel

open Timeshare.Action

variable {k : Kernel} {free : List FreeBlock} {ready waiting held : List Record}
variable {config : Config} {catalog : Catalog}

/-! ### Kernels -/

namespace Sound

/-- A record can be had just if one of the free blocks can hold it. -/
theorem allocates_iff_fits (h : Sound k free ready waiting held) :
    (∃ x, (k.osPool.allocate k.memory recordSize).outcome = .ok x)
      ↔ ∃ b ∈ free, b.Fits recordSize := by
  -- First fit: the outcome is that of the first block that fits.
  have hfirst := h.ledger.allocate_first h.fits h.osRegion
  cases hfind : free.find? fun b => decide (b.Fits recordSize) with
  | none =>
    rw [hfind] at hfirst
    have hnone : ∀ b ∈ free, ¬ b.Fits recordSize := by simpa using hfind
    refine iff_of_false ?_ ?_
    · rintro ⟨x, hx⟩
      rw [hx] at hfirst
      exact absurd hfirst (by simp [Except.map])
    · rintro ⟨b, hb, hfits⟩
      exact hnone b hb hfits
  | some b =>
    rw [hfind] at hfirst
    refine iff_of_true ?_ ⟨b, List.mem_of_find?_eq_some hfind, by simpa using List.find?_some hfind⟩
    cases hout : (k.osPool.allocate k.memory recordSize).outcome with
    | ok x => exact ⟨x, rfl⟩
    | error e =>
      rw [hout] at hfirst
      exact absurd hfirst (by simp [Except.map])

/-- **Room.**  There are at most `capacity` many processes, and a record can be had just if there
    are fewer. -/
theorem allocates_iff (h : Sound k free ready waiting []) :
    ready.length + waiting.length ≤ capacity k.config.layout.osPool.length.toNat
      ∧ ((∃ x, (k.osPool.allocate k.memory recordSize).outcome = .ok x)
        ↔ ready.length + waiting.length < capacity k.config.layout.osPool.length.toNat) := by
  obtain ⟨spare, tail, hlen, htail, hfits⟩ := h.ledger.tidy.exists_tail fun b hb =>
    (h.ledger.freeChain.within b hb).two_le
  have hcount := h.ledger.count_words
  rw [hlen, List.length_nil, Nat.add_zero] at hcount
  obtain ⟨hle, hlt⟩ := lt_capacity_iff hcount htail
  exact ⟨hle, h.allocates_iff_fits.trans (hfits.trans hlt.symm)⟩

end Sound

/-- **No fragmentation.**  In every kernel that comes about, in whatever order its processes have
    come and gone, there are at most as many processes as the pool of process records has room for
    (`capacity`), and a record can be had just if there are fewer.  A creation then ends as the
    program and the stack have it, and otherwise it fails with `noFreeMemory`, and nothing
    changes. -/
theorem Reachable.never_fragments (h : Reachable config catalog k) :
    ∃ ready waiting, k.readyRecords = .ok ready ∧ k.waitingRecords = .ok waiting ∧
      let processes := ready.length + waiting.length
      let room := capacity config.layout.osPool.length.toNat
      processes ≤ room
        ∧ ((∃ x, (k.osPool.allocate k.memory recordSize).outcome = .ok x) ↔ processes < room)
        ∧ (processes < room → ∃ r : Record, ∀ program priority,
          (exec (Kernel.create program priority) k).1 = (do
            let _ ← (catalog.load program k.memory config.layout).outcome
            let _ ← (k.userPool.allocate k.memory config.stackSize).outcome
            return r))
        ∧ (¬ processes < room → ∀ program priority,
          exec (Kernel.create program priority) k = (.error .noFreeMemory, k)) := by
  obtain ⟨rfl, rfl, free, ready, waiting, hk⟩ := h.atRest
  obtain ⟨hle, hiff⟩ := hk.allocates_iff
  refine ⟨ready, waiting, hk.readyRecords, hk.waitingRecords, hle, hiff, fun hroom => ?_,
    fun hfull program priority => ?_⟩
  · obtain ⟨x, hx⟩ := hiff.mpr hroom
    refine ⟨⟨x.1⟩, fun program priority => ?_⟩
    obtain ⟨k', hexec, -⟩ := hk.create program priority
    rw [hexec, creation, hx, ok_bind]
  · rcases hk.takeRecord with ⟨-, hexec⟩ | ⟨x, p, k', _, hout, -⟩
    · rw [Kernel.create, exec_bind_error hexec]
    · exact absurd (hiff.mp ⟨_, hout⟩) hfull

/-- A pool of 45 words has room for one record; the 23 words that are left cannot be cut. -/
theorem Reachable.never_fragments_tail :
    let config : Config := { layout := ⟨⟨0, 9⟩, ⟨10, 29⟩, ⟨30, 74⟩⟩, stackSize := 2 }
    let catalog := Catalog.ofList [("halt", ⟨[(0, 0)], 0⟩)]
    ∃ k₀ k, (Kernel.boot config catalog).outcome = .ok k₀
      ∧ exec (Kernel.create "halt" 1) k₀ = (.ok ⟨⟨30, by decide⟩⟩, k)
      ∧ exec (Kernel.create "halt" 1) k = (.error .noFreeMemory, k) := by
  intro config catalog
  let r : Record := ⟨⟨30, by decide⟩⟩
  obtain ⟨k₀, hboot, hcreated, hready, hwaiting⟩ : ∃ k₀, (Kernel.boot config catalog).outcome = .ok k₀ ∧
      let created := exec (Kernel.create "halt" 1) k₀
      created.1 = .ok r ∧ created.2.readyRecords = .ok [r] ∧ created.2.waitingRecords = .ok [] :=
    exists_boot (by decide +kernel)
  obtain ⟨ready, waiting, hready', hwaiting', -, -, -, hfull⟩ :=
    Reachable.never_fragments ((Reachable.boot hboot).create "halt" 1)
  obtain rfl := Except.ok.inj (hready.symm.trans hready')
  obtain rfl := Except.ok.inj (hwaiting.symm.trans hwaiting')
  exact ⟨k₀, _, hboot, Prod.ext hcreated rfl, hfull (by decide) "halt" 1⟩

end Kernel

end Timeshare
