import Timeshare.Kernel.Basic
import Timeshare.Proofs.Kernel.Ledger
import Timeshare.Proofs.Process.Standing

namespace Timeshare

/-!
# Kernels in order

A kernel is in order when its configuration is valid, its parts agree on the layout, there is a ledger
of its pool of process records, and the records in the queues say where they stand.  This file says what
the operations on the pools and queues do to such a kernel; none of them fails, except for the
allocation of a record.

* `Kernel.Framed k` — the parts of the kernel agree on the layout.
* `Kernel.Sound k free ready waiting held` — moreover there is a ledger, and the queues stand as they
  should.
* `Kernel.SameSetting`, `Kernel.SameGuest`, `Kernel.SameUser` — what an operation leaves alone.
* `Kernel.Sound.popReady_cons`, `Kernel.Sound.makeReady` and their companions — one lemma for each
  operation: how it ends, and the lists afterwards.
* `Kernel.Sound.kept_links`, `Kernel.Sound.untouched_others` and their companions — which records a
  change of memory keeps.
-/

/-! ### Valid configurations -/

/-- What the check of a configuration accepts. -/
structure Config.Valid (c : Config) : Prop where
  layout : c.layout.Valid
  timeSlice : c.timeSlice ≠ 0
  one_le_stack : 1 ≤ c.stackSize.toInt
  stack_le : c.stackSize.toInt ≤ c.layout.userPool.length.toNat

/-- The check of a configuration accepts the valid ones, and only these: `c.validate = .ok ()` iff
    `c.Valid`. -/
theorem Config.validate_eq_ok_iff {c : Config} : c.validate = .ok () ↔ c.Valid := by
  -- The pool is as long as memory at most, so that its length is a word.
  have hstack : c.layout.Valid →
      ((c.stackSize < 1 || c.layout.userPool.length.toInt64 < c.stackSize) = true ↔
        ¬ (1 ≤ c.stackSize.toInt ∧ c.stackSize.toInt ≤ c.layout.userPool.length.toNat)) := by
    intro hL
    have hone : (1 : Word).toInt = 1 := rfl
    simp only [Bool.or_eq_true, decide_eq_true_eq, Int64.lt_iff_toInt_lt, hone,
      hL.userPool.length_toInt]
    omega
  unfold validate
  rw [bind_eq_ok_iff]
  constructor
  · rintro ⟨⟨⟩, hlayout, h⟩
    have hL := Layout.validate_eq_ok_iff.mp hlayout
    by_cases hslice : c.timeSlice = 0
    · simp only [hslice, if_true] at h
      exact absurd h (by simp [throw, throwThe, MonadExceptOf.throw])
    by_cases hs : (c.stackSize < 1 || c.layout.userPool.length.toInt64 < c.stackSize) = true
    · simp only [hslice, if_false, hs, if_true] at h
      exact absurd h (by simp [throw, throwThe, MonadExceptOf.throw])
    rw [hstack hL, Classical.not_not] at hs
    exact ⟨hL, hslice, hs.1, hs.2⟩
  · intro h
    have hs := mt (hstack h.layout).mp (Classical.not_not.mpr ⟨h.one_le_stack, h.stack_le⟩)
    refine ⟨(), Layout.validate_eq_ok_iff.mpr h.layout, ?_⟩
    simp only [h.timeSlice, if_false, hs]
    rfl

namespace Kernel

/-- The parts of a kernel agree on its layout. -/
structure Framed (k : Kernel) : Prop where
  valid : k.config.Valid
  layout : k.machine.cpu.layout = k.config.layout
  osRegion : k.osPool.region = k.config.layout.osPool
  userRegion : k.userPool.region = k.config.layout.userPool
  readyRegion : k.ready.region = k.config.layout.osPool
  waitRegion : k.waiting.region = k.config.layout.osPool

/-- What the parts of a kernel have to agree on, as one value. -/
def frame (k : Kernel) : Config × Layout × Region × Region × Region × Region :=
  (k.config, k.machine.cpu.layout, k.osPool.region, k.userPool.region, k.ready.region,
    k.waiting.region)

/-- A kernel with the same `frame` agrees on its layout as well. -/
theorem Framed.of_frame {k k' : Kernel} (h : Framed k) (hk : k'.frame = k.frame) : Framed k' := by
  simp only [frame, Prod.mk.injEq] at hk
  obtain ⟨hconfig, hlayout, hos, huser, hready, hwaiting⟩ := hk
  refine ⟨?_, ?_, ?_, ?_, ?_, ?_⟩ <;> rw [hconfig]
  · exact h.valid
  · rw [hlayout, h.layout]
  · rw [hos, h.osRegion]
  · rw [huser, h.userRegion]
  · rw [hready, h.readyRegion]
  · rw [hwaiting, h.waitRegion]

/-- A kernel is in order: its parts agree; every word of its pool of process records belongs to one
    of the blocks `free`, to one record in `ready` or `waiting`, or to one of those `held`; and the
    records in the queues say where they stand. -/
structure Sound (k : Kernel) (free : List FreeBlock) (ready waiting held : List Record) : Prop
    extends Framed k where
  ledger : Ledger k.config.layout.osPool k.memory k.osPool.head k.ready.head k.waiting.head free
    ready waiting held
  standing : Standing k.memory ready waiting

/-- Two kernels have the same setting: what only the creation of a process and a shutdown change. -/
structure SameSetting (k k' : Kernel) : Prop where
  config : k'.config = k.config
  catalog : k'.catalog = k.catalog
  nextPid : k'.nextPid = k.nextPid
  isShutDown : k'.isShutDown = k.isShutDown

/-- Moreover, nothing has happened to the program on the processor and to the user pool. -/
structure SameGuest (k k' : Kernel) : Prop extends SameSetting k k' where
  cpu : k'.machine.cpu = k.machine.cpu
  userPool : k'.userPool = k.userPool
  running : k'.running = k.running

/-- Moreover, memory has changed in the pool of process records only. -/
structure SameUser (k k' : Kernel) : Prop extends SameGuest k k' where
  frame : Memory.SameOn (· ∉ k.config.layout.osPool) k.memory k'.memory

section Same

variable {k k' k'' : Kernel}

theorem SameSetting.refl (k : Kernel) : SameSetting k k := ⟨rfl, rfl, rfl, rfl⟩

/-- What has the same setting as a kernel in between has the same setting. -/
theorem SameSetting.trans (h : SameSetting k k') (h' : SameSetting k' k'') : SameSetting k k'' where
  config := h'.config.trans h.config
  catalog := h'.catalog.trans h.catalog
  nextPid := h'.nextPid.trans h.nextPid
  isShutDown := h'.isShutDown.trans h.isShutDown

theorem SameGuest.refl (k : Kernel) : SameGuest k k := ⟨SameSetting.refl k, rfl, rfl, rfl⟩

/-- What an operation leaves of the guest, and another after it, both leave. -/
theorem SameGuest.trans (h : SameGuest k k') (h' : SameGuest k' k'') : SameGuest k k'' where
  toSameSetting := h.toSameSetting.trans h'.toSameSetting
  cpu := h'.cpu.trans h.cpu
  userPool := h'.userPool.trans h.userPool
  running := h'.running.trans h.running

theorem SameUser.refl (k : Kernel) : SameUser k k := ⟨SameGuest.refl k, Memory.SameOn.refl _ _⟩

/-- Two changes of memory in the pool of process records are one. -/
theorem SameUser.trans (h : SameUser k k') (h' : SameUser k' k'') : SameUser k k'' where
  toSameGuest := h.toSameGuest.trans h'.toSameGuest
  frame := h.frame.trans (h.config ▸ h'.frame)

end Same

open Timeshare.Action

variable {k : Kernel} {free : List FreeBlock} {ready waiting held : List Record} {r : Record}

/-- The region of process records lies in memory: `k.config.layout.osPool.Fits`. -/
theorem Framed.fits (h : Framed k) : k.config.layout.osPool.Fits := h.valid.layout.osPool

namespace Sound

/-- No queue has more than `memorySize` records, so that the bound of the views is enough. -/
theorem length_le (h : Sound k free ready waiting held) :
    ready.length ≤ memorySize ∧ waiting.length ≤ memorySize := by
  have hready := h.ledger.length_ready
  have hwaiting := h.ledger.length_waiting
  have hlen := h.fits.length_toNat
  have hlast := h.fits.last_lt
  omega

/-! ### Views -/

/-- The view of the ready queue is the list `ready`. -/
theorem readyRecords (h : Sound k free ready waiting held) : k.readyRecords = .ok ready := by
  rw [Kernel.readyRecords, ReadyQueue.records, h.readyRegion, records_eq_ok_iff h.fits]
  exact ⟨h.ledger.readyChain, h.ledger.length_ready⟩

/-- The view of the wait queue is the list `waiting`. -/
theorem waitingRecords (h : Sound k free ready waiting held) : k.waitingRecords = .ok waiting := by
  rw [Kernel.waitingRecords, WaitQueue.records, h.waitRegion, records_eq_ok_iff h.fits]
  exact ⟨h.ledger.waitChain, h.ledger.length_waiting⟩

/-- A kernel whose ready queue is empty has no ready process: `k.ready.isEmpty` gives
    `ready = []`. -/
theorem ready_eq_nil (h : Sound k free ready waiting held) (hempty : k.ready.isEmpty = true) :
    ready = [] := by
  have hchain := h.ledger.readyChain
  rw [ReadyQueue.isEmpty] at hempty
  cases hhead : k.ready.head with
  | none =>
    rw [hhead] at hchain
    exact hchain.eq_nil
  | node a =>
    rw [hhead] at hempty
    exact absurd hempty (by simp [Link.isEnd])

/-- The view of the free list of process records is the list `free`. -/
theorem osBlocks (h : Sound k free ready waiting held) :
    (k.osPool.blocks k.memory).outcome = .ok free := by
  rw [Pool.blocks_eq_ok_iff (h.osRegion ▸ h.fits), Pool.maxNodes, h.osRegion]
  exact ⟨h.ledger.freeChain, h.ledger.length_free⟩

/-- The free words of the pool of process records can be counted: with `22` for each record, they
    are the words of the region. -/
theorem freeWords (h : Sound k free ready waiting held) :
    ∃ w, (k.osPool.freeWords k.memory).outcome = .ok w
      ∧ w.toInt + 22 * (ready.length + waiting.length + held.length)
        = k.config.layout.osPool.length.toNat := by
  have hcount := h.ledger.count_words
  have hlen := h.fits.length_toNat
  have hlast := h.fits.last_lt
  obtain ⟨w, hw, hwords⟩ := Pool.freeWords_eq_length h.osBlocks
    (fun b hb => (h.ledger.freeChain.within b hb).two_le) (by omega)
  exact ⟨w, hw, by omega⟩

/-! ### Changes of memory -/

/-- A change of memory outside the pool of process records, or inside the records `held`, leaves the
    kernel in order. -/
theorem withMemory (h : Sound k free ready waiting held) {m : Memory}
    (hm : Memory.SameOn (fun a => a ∈ k.config.layout.osPool ∧ ∀ x ∈ held, a ∉ x.span)
      k.memory m) : Sound (k.withMemory m) free ready waiting held where
  toFramed := h.toFramed.of_frame rfl
  ledger := h.ledger.frame hm
  standing := h.standing.congr (h.ledger.untouched hm).kept

/-- A change inside one record `r` that is held succeeds and leaves the kernel in order. -/
theorem modifyMemory (h : Sound k free ready waiting (r :: held)) {f : Memory → Memory}
    (hf : Memory.SameOn (· ∉ r.span) k.memory (f k.memory)) :
    ∃ k', exec (Kernel.modifyMemory f) k = (.ok (), k') ∧ SameGuest k k'
      ∧ Sound k' free ready waiting (r :: held) ∧ k'.memory = f k.memory :=
  ⟨k.withMemory (f k.memory), rfl, ⟨⟨rfl, rfl, rfl, rfl⟩, rfl, rfl, rfl⟩,
    h.withMemory (hf.mono fun _ ha => ha.2 r List.mem_cons_self), rfl⟩

/-! ### Records that are kept -/

section Kept

variable {m : Memory} {rs : List Record}

/-- A change outside the pool of process records touches no record, be it ready, waiting or
    `held`. -/
theorem untouched_outside (h : Sound k free ready waiting held)
    (hm : Memory.SameOn (· ∈ k.config.layout.osPool) k.memory m) :
    Record.Untouched (ready ++ waiting ++ held) k.memory m := fun _ hx =>
  hm.mono fun _ ha => (h.ledger.within h.fits hx).mem_of_span ha

/-- A change inside the blocks of `free` touches no record. -/
theorem untouched_free (h : Sound k free ready waiting held)
    (hm : Memory.SameOn (fun a => ∀ b ∈ free, a ∉ b.span) k.memory m) :
    Record.Untouched (ready ++ waiting ++ held) k.memory m := fun _ hx =>
  hm.mono fun _ ha _ hb => (h.ledger.apart_free hb hx).symm.not_mem ha

/-- A change inside one record `r` that is held, or outside the pool, touches no other one. -/
theorem untouched_others (h : Sound k free ready waiting (r :: held))
    (hm : Memory.SameOn (fun a => a ∈ k.config.layout.osPool ∧ a ∉ r.span) k.memory m) :
    Record.Untouched (ready ++ waiting ++ held) k.memory m := by
  -- The record may as well be listed first.
  have hsep : Separate Record.span (r :: (ready ++ waiting ++ held)) :=
    (List.perm_middle.pairwise_iff fun h => h.symm).mp h.ledger.separate.2.1
  refine fun x hx => hm.mono fun a ha => ⟨?_, ?_⟩
  · have hmem : x ∈ ready ++ waiting ++ r :: held :=
      List.perm_middle.symm.mem_iff.mp (List.mem_cons_of_mem _ hx)
    exact (h.ledger.within h.fits hmem).mem_of_span ha
  · exact ((List.pairwise_cons.mp hsep).1 x hx).symm.not_mem ha

/-- The queues stand as they did when their records are kept, whatever becomes of those held:
    `held'` may be any records. -/
theorem standing_congr (h : Sound k free ready waiting held) {held' : List Record}
    (hkept : Record.Kept (ready ++ waiting ++ held') k.memory m) : Standing m ready waiting :=
  h.standing.congr (hkept.mono fun _ hx => List.mem_append_left _ hx)

/-- A change of links, `OnlyLinks`, keeps all records. -/
theorem kept_links (h : Sound k free ready waiting held) (hlinks : Record.OnlyLinks rs k.memory m)
    (hsub : ∀ x ∈ rs, x ∈ ready ++ waiting) : Record.Kept (ready ++ waiting ++ held) k.memory m :=
  hlinks.kept_all h.ledger.separate.2.1 fun x hx => List.mem_append_left _ (hsub x hx)

/-- A change of links, `OnlyLinks`, stays in the pool of process records. -/
theorem frame_links (h : Sound k free ready waiting held) (hlinks : Record.OnlyLinks rs k.memory m)
    (hsub : ∀ x ∈ rs, x ∈ ready ++ waiting) :
    Memory.SameOn (· ∉ k.config.layout.osPool) k.memory m :=
  hlinks.frame.mono fun _ ha _ hx hin =>
    ha ((h.ledger.within h.fits (List.mem_append_left _ (hsub _ hx))).mem_of_span hin)

/-- A record `r` that is linked into a queue with another state keeps its words, except for those
    that say where it stands; all other records are kept. -/
theorem kept_linkedIn (h : Sound k free ready waiting (r :: held)) {state : ProcessState}
    (hlinks : Record.OnlyLinks (r :: rs) (r.setState k.memory state) m)
    (hsub : ∀ x ∈ rs, x ∈ ready ++ waiting) :
    Record.Kept (ready ++ waiting ++ held) k.memory m
      ∧ ∀ s, s.isScheduling = false → r.get m s = r.get k.memory s := by
  have hall := hlinks.kept_all h.ledger.separate.2.1 <| List.forall_mem_cons.mpr
    ⟨List.mem_append_right _ List.mem_cons_self, fun x hx => List.mem_append_left _ (hsub x hx)⟩
  -- First the others, which the change of state does not touch, then the record itself.
  constructor
  · refine (h.untouched_others (Record.sameOn_set.mono fun _ ha => ha.2)).kept.trans
      (hall.mono fun x hx => ?_)
    rcases List.mem_append.mp hx with hx | hx
    · exact List.mem_append_left _ hx
    · exact List.mem_append_right _ (List.mem_cons_of_mem _ hx)
  · intro s hs
    obtain ⟨hnext, hstate, -⟩ := Slot.ne_of_isScheduling hs
    rw [hlinks.slots r List.mem_cons_self s hnext]
    exact Record.get_set_of_ne hstate.symm

end Kept

/-! ### The ready queue -/

/-- With no process ready there is nothing to take: `popReady` gives `none` and changes nothing. -/
theorem popReady_nil (h : Sound k free [] waiting held) : exec popReady k = (.ok none, k) := by
  simp only [popReady, exec_bind, exec_get, exec_ofExcept, ReadyQueue.pop_nil h.ledger.readyChain,
    exec_pure]

/-- **The first ready process** leaves its queue and is held: `popReady` gives `some r`, and only
    links of `r :: ready` change. -/
theorem popReady_cons (h : Sound k free (r :: ready) waiting held) :
    ∃ k', exec popReady k = (.ok (some r), k') ∧ SameGuest k k'
      ∧ Sound k' free ready waiting (r :: held)
      ∧ Record.OnlyLinks (r :: ready) k.memory k'.memory := by
  obtain ⟨head, m, hpop, hchain, hlinks⟩ := ReadyQueue.pop_cons (h.readyRegion ▸ h.fits)
    (h.readyRegion ▸ h.ledger.readyChain) h.ledger.separate_ready
  refine ⟨{ k.withMemory m with ready := { k.ready with head } }, ?_,
    ⟨⟨rfl, rfl, rfl, rfl⟩, rfl, rfl, rfl⟩,
    ⟨h.toFramed.of_frame rfl, ?_, ?_⟩, hlinks⟩
  · simp only [popReady, exec_bind, exec_get, exec_ofExcept, hpop, exec_set, exec_pure]
  · refine h.ledger.withReady (hlinks.frame.mono fun a ha x hx => ?_) (h.readyRegion ▸ hchain) ?_
    · exact ha x (List.mem_append_left _ hx)
    · exact List.perm_middle
  · exact (h.standing_congr (h.kept_links hlinks fun x hx => List.mem_append_left _ hx)).sublist
      (List.sublist_cons_self r ready) (List.Sublist.refl waiting)

/-- **A process becomes ready**: `r` goes behind all ready processes `ahead` of the same or a higher
    priority and before all others.  It is marked as ready, and has to have no reason for
    waiting. -/
theorem makeReady (h : Sound k free ready waiting (r :: held))
    (hreason : r.reason? k.memory = some .none) :
    ∃ ahead behind k', r.Place k'.memory ready ahead behind
      ∧ exec (Kernel.makeReady r) k = (.ok (), k') ∧ SameGuest k k'
      ∧ Sound k' free (ahead ++ r :: behind) waiting held
      ∧ Record.OnlyLinks (r :: ready) (r.setState k.memory .ready) k'.memory := by
  have hheld : r ∈ ready ++ waiting ++ r :: held := List.mem_append_right _ List.mem_cons_self
  have hwithin := h.ledger.within h.fits hheld
  -- The record was held, so that it is none of the queue.
  have hsep : Separate Record.span (r :: ready) := List.pairwise_cons.mpr
    ⟨fun p hp => h.ledger.apart_held List.mem_cons_self (List.mem_append_left _ hp),
      h.ledger.separate_ready⟩
  obtain ⟨ahead, behind, head, m, hready, hahead, hbehind, hout, hchain, hlinks, -⟩ :=
    ReadyQueue.insert_spec (h.readyRegion ▸ h.fits) (h.readyRegion ▸ h.ledger.readyChain)
      h.length_le.1 (h.readyRegion ▸ hwithin) hsep
  obtain ⟨hkept, hslots⟩ := h.kept_linkedIn hlinks fun x hx => List.mem_append_left _ hx
  have hstanding := h.standing_congr hkept
  -- Neither the priorities nor the reason change when the record is linked in.
  have hplace : r.Place m ready ahead behind :=
    (Record.place_of_sorted h.standing.sorted hready hahead hbehind).congr
      (hkept.mono fun x hx => List.mem_append_left _ (List.mem_append_left _ hx)) (hslots .priority rfl)
  obtain ⟨hstate, hsame⟩ := hlinks.marks h.fits hwithin List.mem_cons_self
  have hmarked : r.MarkedReady m := ⟨hstate, hsame.trans hreason⟩
  refine ⟨ahead, behind, { k.withMemory m with ready := { k.ready with head } }, hplace, ?_,
    ⟨⟨rfl, rfl, rfl, rfl⟩, rfl, rfl, rfl⟩,
    ⟨h.toFramed.of_frame rfl, ?_, hstanding.makeReady hplace hmarked⟩, hlinks⟩
  · simp only [Kernel.makeReady, exec_bind, exec_get, exec_attempt, hout, exec_set]
  · refine h.ledger.withReady (hlinks.frame_setState.mono fun a ha x hx => ?_)
      (h.readyRegion ▸ hchain) ?_
    · rcases List.mem_cons.mp hx with rfl | hx
      · exact ha x (List.mem_append_right _ List.mem_cons_self)
      · exact ha x (List.mem_append_left _ hx)
    · rw [hready]
      exact Ledger.perm_insert ahead behind held r

/-- **A process becomes ready after a change `f` of its record.**  All others are kept, and the
    record has the words that `f` gives it, except for those that say where it stands. -/
theorem resume (h : Sound k free ready waiting (r :: held)) {f : Memory → Memory}
    (hf : ∀ m, Memory.SameOn (· ∉ r.span) m (f m)) (hreason : r.reason? (f k.memory) = some .none) :
    ∃ ahead behind k₁ k', r.Place k'.memory ready ahead behind
      ∧ exec (Kernel.modifyMemory f) k = (.ok (), k₁)
      ∧ exec (Kernel.makeReady r) k₁ = (.ok (), k') ∧ SameUser k k'
      ∧ Sound k' free (ahead ++ r :: behind) waiting held
      ∧ Record.Kept (ready ++ waiting ++ held) k.memory k'.memory
      ∧ ∀ s, s.isScheduling = false → r.get k'.memory s = r.get (f k.memory) s := by
  have hwithin := h.ledger.within h.fits (x := r) (List.mem_append_right _ List.mem_cons_self)
  obtain ⟨k₁, hchange, hsame₁, h₁, hmem⟩ := h.modifyMemory (hf k.memory)
  have hkept₁ : Record.Kept (ready ++ waiting ++ held) k.memory k₁.memory := by
    rw [hmem]
    exact (h.untouched_others ((hf k.memory).mono fun _ ha => ha.2)).kept
  obtain ⟨ahead, behind, k₂, hplace, hmake, hsame₂, h₂, hlinks⟩ := h₁.makeReady (hmem ▸ hreason)
  obtain ⟨hkept₂, hslots⟩ := h₁.kept_linkedIn hlinks fun x hx => List.mem_append_left _ hx
  rw [hmem] at hslots
  refine ⟨ahead, behind, k₁, k₂, hplace, hchange, hmake, ⟨hsame₁.trans hsame₂, ?_⟩, h₂,
    hkept₁.trans hkept₂, hslots⟩
  -- All that is written to lies in the pool of process records.
  have hchanged : Memory.SameOn (· ∉ k.config.layout.osPool) k.memory k₁.memory := by
    rw [hmem]
    exact (hf k.memory).mono fun a ha hin => ha (hwithin.mem_of_span hin)
  refine hchanged.trans (hlinks.frame_setState.mono fun a ha x hx hin => ha ?_)
  rcases List.mem_cons.mp hx with rfl | hx
  · exact hwithin.mem_of_span hin
  · exact (h.ledger.readyChain.records_within x hx).mem_of_span hin

/-! ### The wait queue -/

/-- With no process waiting there is nothing to take: `popWaiting` gives `none` and changes
    nothing. -/
theorem popWaiting_nil (h : Sound k free ready [] held) : exec popWaiting k = (.ok none, k) := by
  simp only [popWaiting, exec_bind, exec_get, exec_ofExcept, WaitQueue.pop_nil h.ledger.waitChain,
    exec_pure]

/-- **The newest waiting process** leaves its queue and is held: `popWaiting` gives `some r`. -/
theorem popWaiting_cons (h : Sound k free ready (r :: waiting) held) :
    ∃ k', exec popWaiting k = (.ok (some r), k') ∧ SameGuest k k'
      ∧ Sound k' free ready waiting (r :: held)
      ∧ Record.OnlyLinks (r :: waiting) k.memory k'.memory := by
  obtain ⟨head, m, hpop, hchain, hlinks⟩ := WaitQueue.pop_cons (h.waitRegion ▸ h.fits)
    (h.waitRegion ▸ h.ledger.waitChain) h.ledger.separate_waiting
  refine ⟨{ k.withMemory m with waiting := { k.waiting with head } }, ?_,
    ⟨⟨rfl, rfl, rfl, rfl⟩, rfl, rfl, rfl⟩,
    ⟨h.toFramed.of_frame rfl, ?_, ?_⟩, hlinks⟩
  · simp only [popWaiting, exec_bind, exec_get, exec_ofExcept, hpop, exec_set, exec_pure]
  · refine h.ledger.withWaiting (hlinks.frame.mono fun a ha x hx => ?_) (h.waitRegion ▸ hchain) ?_
    · exact ha x (List.mem_append_left _ hx)
    · exact List.perm_middle
  · exact (h.standing_congr (h.kept_links hlinks fun x hx => List.mem_append_right _ hx)).sublist
      (List.Sublist.refl ready) (List.sublist_cons_self r waiting)

/-- **A process waits**: `r` is the newest of its queue, marked as waiting.  It has to have a
    reason. -/
theorem makeWaiting (h : Sound k free ready waiting (r :: held)) {reason : WaitReason}
    (hne : reason ≠ .none) (hreason : r.reason? k.memory = some reason) :
    ∃ k', exec (Kernel.makeWaiting r) k = (.ok (), k') ∧ SameGuest k k'
      ∧ Sound k' free ready (r :: waiting) held
      ∧ Record.OnlyLinks (r :: waiting) (r.setState k.memory .waiting) k'.memory := by
  have hheld : r ∈ ready ++ waiting ++ r :: held := List.mem_append_right _ List.mem_cons_self
  have hwithin := h.ledger.within h.fits hheld
  -- The record was held, so that it is none of the queue.
  have hsep : Separate Record.span (r :: waiting) := List.pairwise_cons.mpr
    ⟨fun p hp => h.ledger.apart_held List.mem_cons_self (List.mem_append_right _ hp),
      h.ledger.separate_waiting⟩
  obtain ⟨m, hout, hchain, hlinks, -⟩ := WaitQueue.insert_spec (h.waitRegion ▸ h.fits)
    (h.waitRegion ▸ h.ledger.waitChain) (h.waitRegion ▸ hwithin) hsep
  obtain ⟨hkept, -⟩ := h.kept_linkedIn hlinks fun x hx => List.mem_append_right _ hx
  obtain ⟨hstate, hsame⟩ := hlinks.marks h.fits hwithin List.mem_cons_self
  have hmarked : r.MarkedWaiting m := ⟨hstate, reason, hne, hsame.trans hreason⟩
  refine ⟨{ k.withMemory m with waiting := { k.waiting with head := .node r.address } }, ?_,
    ⟨⟨rfl, rfl, rfl, rfl⟩, rfl, rfl, rfl⟩,
    ⟨h.toFramed.of_frame rfl, ?_, (h.standing_congr hkept).makeWaiting hmarked⟩, hlinks⟩
  · simp only [Kernel.makeWaiting, exec_bind, exec_get, exec_attempt, hout, exec_set]
  · refine h.ledger.withWaiting (hlinks.frame_setState.mono fun a ha x hx => ?_)
      (h.waitRegion ▸ hchain) ?_
    · rcases List.mem_cons.mp hx with rfl | hx
      · exact ha x (List.mem_append_right _ List.mem_cons_self)
      · exact ha x (List.mem_append_left _ hx)
    · exact Ledger.perm_insert [] waiting held r

/-- A number that no waiting process has is not found: `pidNotFound`, and nothing changes. -/
theorem removeWaiting_none (h : Sound k free ready waiting held) {pid : Word}
    (hpid : ∀ p ∈ waiting, p.pid k.memory ≠ pid) :
    exec (removeWaiting pid) k = (.error .pidNotFound, k) := by
  have hremove := WaitQueue.remove_none (h.waitRegion ▸ h.fits)
    (h.waitRegion ▸ h.ledger.waitChain) h.length_le.2 hpid
  simp only [removeWaiting, exec_bind, exec_get, exec_ofExcept, hremove]

/-- **The first waiting process with the number `pid`** leaves its queue, wherever it stands in it,
    and is held. -/
theorem removeWaiting_first {before after : List Record}
    (h : Sound k free ready (before ++ r :: after) held) {pid : Word}
    (hbefore : ∀ p ∈ before, p.pid k.memory ≠ pid) (hpid : r.pid k.memory = pid) :
    ∃ k', exec (removeWaiting pid) k = (.ok r, k') ∧ SameGuest k k'
      ∧ Sound k' free ready (before ++ after) (r :: held)
      ∧ Record.OnlyLinks (before ++ r :: after) k.memory k'.memory := by
  obtain ⟨head, m, hremove, hchain, hlinks, -⟩ := WaitQueue.remove_first (h.waitRegion ▸ h.fits)
    (h.waitRegion ▸ h.ledger.waitChain) h.length_le.2 h.ledger.separate_waiting hbefore hpid
  refine ⟨{ k.withMemory m with waiting := { k.waiting with head } }, ?_,
    ⟨⟨rfl, rfl, rfl, rfl⟩, rfl, rfl, rfl⟩,
    ⟨h.toFramed.of_frame rfl, ?_, ?_⟩, hlinks⟩
  · simp only [removeWaiting, exec_bind, exec_get, exec_ofExcept, hremove, exec_set, exec_pure]
  -- The record moves from the chain of the queue to what is held; the free blocks are as they were.
  · refine h.ledger.withWaiting (hlinks.frame.mono fun a ha x hx => ?_) (h.waitRegion ▸ hchain) ?_
    · exact ha x (List.mem_append_left _ hx)
    · exact (Ledger.perm_insert before after held r).symm
  · exact (h.standing_congr (h.kept_links hlinks fun x hx => List.mem_append_right _ hx)).sublist
      (List.Sublist.refl ready) ((List.sublist_cons_self r after).append_left before)

/-! ### The pools -/

/-- **A record is taken from the pool** and held, unless no free block can hold one; then the
    allocation is `noFreeMemory` and nothing changes. -/
theorem takeRecord (h : Sound k free ready waiting held) :
    ((k.osPool.allocate k.memory recordSize).outcome = .error .noFreeMemory
        ∧ exec (onOsPool fun p m => p.allocate m recordSize) k = (.error .noFreeMemory, k)) ∨
      ∃ x p k' free', (k.osPool.allocate k.memory recordSize).outcome
          = .ok (x.address, p, k'.memory)
        ∧ exec (onOsPool fun p m => p.allocate m recordSize) k = (.ok x.address, k')
        ∧ SameGuest k k' ∧ Sound k' free' ready waiting (x :: held)
        ∧ Memory.SameOn (fun a => ∀ b ∈ free, a ∉ b.span) k.memory k'.memory := by
  rcases h.ledger.take h.fits h.osRegion with
    ⟨-, hout⟩ | ⟨x, head, m, free', hout, hledger, hframe⟩
  · refine .inl ⟨hout, ?_⟩
    simp only [onOsPool, exec_bind, exec_get, exec_attempt, hout]
  · refine .inr ⟨x, _, { k.withMemory m with osPool := { k.osPool with head } }, free', hout, ?_,
      ⟨⟨rfl, rfl, rfl, rfl⟩, rfl, rfl, rfl⟩,
      ⟨h.toFramed.of_frame rfl, hledger, h.standing_congr (h.untouched_free hframe).kept⟩, hframe⟩
    simp only [onOsPool, exec_bind, exec_get, exec_attempt, hout, exec_set, exec_pure]

/-- **A record is given back to the pool.**  The record `r` that was held becomes the first free
    block, and nothing outside of it changes. -/
theorem giveRecordBack (h : Sound k free ready waiting (r :: held)) :
    ∃ k', exec (releaseOs r.address.toWord recordSize) k = (.ok (), k') ∧ SameGuest k k'
      ∧ Sound k' (Ledger.freed r :: free) ready waiting held
      ∧ Memory.SameOn (· ∉ r.span) k.memory k'.memory := by
  obtain ⟨m, hout, hledger, hframe⟩ := h.ledger.giveBack h.fits h.osRegion
  refine ⟨{ k.withMemory m with osPool := { k.osPool with head := .node r.address } }, ?_,
    ⟨⟨rfl, rfl, rfl, rfl⟩, rfl, rfl, rfl⟩,
    ⟨h.toFramed.of_frame rfl, hledger,
      h.standing_congr (h.untouched_others (hframe.mono fun _ ha => ha.2)).kept⟩, hframe⟩
  have hmap := Pool.map_release_eq_ok_iff (u := ()).mpr hout
  simp only [releaseOs, onOsPool, exec_bind, exec_get, exec_attempt, hmap, exec_set, exec_pure]

/-- An operation `f` that stays in the user pool leaves the kernel in order, whether it fails or
    not, and memory outside of that pool as it was. -/
theorem onUserPool (h : Sound k free ready waiting held) {α : Type}
    {f : Pool → Memory → Attempt (α × Pool × Memory)}
    (hf : ∀ a p m, (f k.userPool k.memory).outcome = .ok (a, p, m) →
      p.region = k.userPool.region ∧ p.owner = k.userPool.owner
        ∧ Memory.SameOn (· ∉ k.userPool.region) k.memory m) :
    ∃ k', exec (Kernel.onUserPool f) k = ((f k.userPool k.memory).outcome.map Prod.fst, k')
      ∧ SameSetting k k' ∧ k'.running = k.running ∧ k'.machine.cpu = k.machine.cpu
      ∧ Sound k' free ready waiting held
      ∧ Memory.SameOn (· ∉ k.config.layout.userPool) k.memory k'.memory
      ∧ (k'.userPool, k'.memory) =
        match (f k.userPool k.memory).outcome with
        | .ok x => x.2
        | .error _ => (k.userPool, k.memory) := by
  cases hout : (f k.userPool k.memory).outcome with
  | error e =>
    refine ⟨k, ?_, SameSetting.refl k, rfl, rfl, h, Memory.SameOn.refl _ _, rfl⟩
    simp only [Kernel.onUserPool, exec_bind, exec_get, exec_attempt, hout]
    rfl
  | ok x =>
    obtain ⟨a, host, m⟩ := x
    obtain ⟨hregion, -, hframe⟩ := hf a host m hout
    rw [h.userRegion] at hframe
    -- The pool of process records lies apart from the user pool, so that records and free blocks
    -- stay.
    have hos : Memory.SameOn (· ∈ k.config.layout.osPool) k.memory m := hframe.mono fun a ha hin =>
      h.valid.layout.not_mem_operandRange ha (h.valid.layout.mem_operandRange hin)
    refine ⟨{ k with machine := { k.machine with host, memory := m } }, ?_, ⟨rfl, rfl, rfl, rfl⟩, rfl,
      rfl, ⟨⟨h.valid, h.layout, h.osRegion, hregion.trans h.userRegion, h.readyRegion,
        h.waitRegion⟩, h.ledger.frame (hos.mono fun a ha => ha.1),
        h.standing_congr (h.untouched_outside hos).kept⟩, hframe, rfl⟩
    simp only [Kernel.onUserPool, exec_bind, exec_get, exec_attempt, hout, exec_set, exec_pure]
    rfl

/-- A release to the user pool stays in the pool, whether it fails or not, and leaves the kernel in
    order; the pool and memory are those of `Pool.release`. -/
theorem releaseUser (h : Sound k free ready waiting held) (start size : Word) :
    ∃ res k', exec (Kernel.releaseUser start size) k = (res, k')
      ∧ SameSetting k k' ∧ k'.running = k.running ∧ k'.machine.cpu = k.machine.cpu
      ∧ Sound k' free ready waiting held
      ∧ Memory.SameOn (· ∉ k.config.layout.userPool) k.memory k'.memory
      ∧ (k'.userPool, k'.memory) =
        match (k.userPool.release k.memory start size).outcome with
        | .ok returned => returned
        | .error _ => (k.userPool, k.memory) := by
  obtain ⟨k', hexec, hsame, hrunning, hcpu, h', hframe, hend⟩ := h.onUserPool
    (f := fun p m => Prod.mk () <$> p.release m start size) fun a p m hout =>
      Pool.release_confined (h.userRegion ▸ h.valid.layout.userPool)
        (Pool.map_release_eq_ok_iff.mp hout)
  refine ⟨_, k', hexec, hsame, hrunning, hcpu, h', hframe, hend.trans ?_⟩
  rw [Attempt.outcome_map]
  cases (k.userPool.release k.memory start size).outcome <;> rfl

end Sound

end Kernel

end Timeshare
