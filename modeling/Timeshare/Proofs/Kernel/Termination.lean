import Timeshare.Proofs.Kernel.Lifecycle

namespace Timeshare

/-!
# What is left of a process that has ended

A process that ends gives its record back, and the first two words of the record become a free block.
These are the words that hold its link and its number.  The end of a process takes its record off no
queue, so that it makes a difference whether it has left its queue before.

* `Kernel.TakenOff k r k'` — a process leaves its queue, in one of the three ways that there are.
* `Kernel.Forgotten r k k'` — a process has ended, and nothing refers to its record any longer.
* `Kernel.Dangles r k k'` — a process has ended, and its queue still goes through its record.
* `Kernel.ended_record` — the first is what becomes of a process that was taken off its queue, and the
  second of any other.
* `Kernel.ended_record_queued` — a process that can be found under the number 22 after its end.
-/

/-- Two chains from one link `l` on are the same up to a record `r` that one of them leads to. -/
theorem RecordChain.exists_rest {region : Region} {m : Memory} {l : Link} {r : Record}
    {before rs : List Record}
    (h : Chain Record.address (Record.Node region m) l before (.node r.address))
    (hrs : RecordChain region m l rs) : ∃ rest, rs = before ++ r :: rest := by
  induction before generalizing l rs with
  | nil =>
    obtain rfl : l = .node r.address := h
    obtain ⟨x, rest, -, rfl, hx, -⟩ := hrs.exists_cons
    obtain rfl : x = r := congrArg Record.mk hx
    exact ⟨rest, rfl⟩
  | cons y before ih =>
    obtain ⟨rfl, next, hy, hbefore⟩ := h
    obtain ⟨x, rest, next', rfl, hx, hnode, hrest⟩ := hrs.exists_cons
    obtain rfl : x = y := congrArg Record.mk hx
    -- Both chains read the same link in `y`.
    obtain rfl : next = next' := Except.ok.inj (hy.link.symm.trans hnode.link)
    obtain ⟨rest', rfl⟩ := ih hbefore hrest
    exact ⟨rest', rfl⟩

/-- A change of the record `r` of a queue leaves the way to the record as it was: whatever can be
    listed from `l` afterwards starts with `before ++ [r]`. -/
theorem RecordChain.reaches {region : Region} {m n : Memory} {l : Link} {r : Record}
    {queue : List Record} (hr : region.Fits) (h : RecordChain region m l queue)
    (hsep : Separate Record.span queue) (hin : r ∈ queue) (hmn : Memory.SameOn (· ∉ r.span) m n) :
    ∃ before after, queue = before ++ r :: after
      ∧ ∀ rs, records region n l = .ok rs → ∃ rest, rs = before ++ r :: rest := by
  obtain ⟨before, after, rfl⟩ := List.append_of_mem hin
  refine ⟨before, after, rfl, fun rs hrs => ?_⟩
  obtain ⟨mid, hfront, rfl, -⟩ := chain_append.mp h
  have hsame : ∀ x ∈ before, Memory.SameOn (· ∈ x.span) m n := by
    intro x hx
    have hapart : x.span.Apart r.span := (List.pairwise_append.mp hsep).2.2 x hx r List.mem_cons_self
    exact hmn.mono fun a ha => hapart.not_mem ha
  exact RecordChain.exists_rest (hfront.congr_records hsame) ((records_eq_ok_iff hr).mp hrs).1

namespace Kernel

open Timeshare.Action

variable {k k₁ k' : Kernel} {free : List FreeBlock} {ready waiting : List Record} {r : Record}
variable {config : Config} {catalog : Catalog}

/-! ### A process that has left its queue -/

/-- The process `r` leaves its queue: it is the first that is ready or the newest that waits, or it
    waits and is called by its number. -/
inductive TakenOff (k : Kernel) (r : Record) (k' : Kernel) : Prop where
  | ready (h : exec popReady k = (.ok (some r), k'))
  | waiting (h : exec popWaiting k = (.ok (some r), k'))
  | called (pid : Word) (h : exec (removeWaiting pid) k = (.ok r, k'))

/-- The process `r` has ended, and nothing refers to its record any longer.  The queues are as
    before without it, the words of all other processes stay, and the record is a free block besides
    those before. -/
structure Forgotten (r : Record) (k k' : Kernel) : Prop where
  queues : ∃ ready waiting blocks, k.readyRecords = .ok ready ∧ k.waitingRecords = .ok waiting
    ∧ (k.osPool.blocks k.memory).outcome = .ok blocks ∧ r ∈ ready ++ waiting
    ∧ k'.readyRecords = .ok (ready.erase r) ∧ k'.waitingRecords = .ok (waiting.erase r)
    ∧ (k'.osPool.blocks k'.memory).outcome = .ok (Ledger.freed r :: blocks)
    ∧ (let others := ready.erase r ++ waiting.erase r
      let pieces := (Ledger.freed r :: blocks).map FreeBlock.span ++ others.map Record.span
      r ∉ others ∧ (∀ x ∈ others, ∀ s, s ≠ .next → x.get k'.memory s = x.get k.memory s)
        ∧ Tiles pieces k.config.layout.osPool.span ∧ pieces.Pairwise Span.Apart)
  lost : ∀ pid, ∃ found, k'.find? pid = .ok found ∧ found ≠ some r

namespace Sound

/-- **Leaving a queue.**  The process is held from then on, and the queues are `ready.erase r` and
    `waiting.erase r`. -/
theorem takenOff (h : Sound k free ready waiting []) (htaken : TakenOff k r k') :
    r ∈ ready ++ waiting ∧ k'.config = k.config
      ∧ Sound k' free (ready.erase r) (waiting.erase r) [r]
      ∧ Record.Kept (ready ++ waiting) k.memory k'.memory := by
  have hnodup := h.ledger.nodup
  rw [List.append_nil] at hnodup
  have hready : ∀ {rs}, Record.OnlyLinks rs k.memory k'.memory → (∀ x ∈ rs, x ∈ ready ++ waiting) →
      Record.Kept (ready ++ waiting) k.memory k'.memory := fun hlinks hsub =>
    (h.kept_links hlinks hsub).mono fun x hx => List.mem_append_left _ hx
  -- In each of the three ways the process stands in one queue, and not in the other.
  cases htaken with
  | ready hexec =>
    cases ready with
    | nil =>
      rw [h.popReady_nil] at hexec
      cases hexec
    | cons x ready =>
      obtain ⟨k₁, hpop, hsame, h₁, hlinks⟩ := h.popReady_cons
      rw [hpop] at hexec
      cases hexec
      have hout : r ∉ waiting := fun hin =>
        List.disjoint_of_nodup_append hnodup List.mem_cons_self hin
      rw [List.erase_cons_head, List.erase_of_not_mem hout]
      exact ⟨List.mem_append_left _ List.mem_cons_self, hsame.config, h₁,
        hready hlinks fun x hx => List.mem_append_left _ hx⟩
  | waiting hexec =>
    cases waiting with
    | nil =>
      rw [h.popWaiting_nil] at hexec
      cases hexec
    | cons x waiting =>
      obtain ⟨k₁, hpop, hsame, h₁, hlinks⟩ := h.popWaiting_cons
      rw [hpop] at hexec
      cases hexec
      have hout : r ∉ ready := fun hin =>
        List.disjoint_of_nodup_append hnodup hin List.mem_cons_self
      rw [List.erase_cons_head, List.erase_of_not_mem hout]
      exact ⟨List.mem_append_right _ List.mem_cons_self, hsame.config, h₁,
        hready hlinks fun x hx => List.mem_append_right _ hx⟩
  | called pid hexec =>
    cases hfind : waiting.find? (·.pid k.memory = pid) with
    | none =>
      rw [List.find?_eq_none] at hfind
      rw [h.removeWaiting_none fun p hp => by simpa using hfind p hp] at hexec
      cases hexec
    | some x =>
      obtain ⟨hx, before, after, rfl, hbefore⟩ := List.find?_eq_some_iff_append.mp hfind
      obtain ⟨k₁, hremove, hsame, h₁, hlinks⟩ := h.removeWaiting_first
        (fun p hp => by simpa using hbefore p hp) (by simpa using hx)
      rw [hremove] at hexec
      cases hexec
      have hin : r ∈ before ++ r :: after := List.mem_append_right _ List.mem_cons_self
      have hout : r ∉ ready := fun hr => List.disjoint_of_nodup_append hnodup hr hin
      have hfront : r ∉ before := fun hr => List.disjoint_of_nodup_append
        (List.nodup_append.mp hnodup).2.1 hr List.mem_cons_self
      rw [List.erase_of_not_mem hout, List.erase_append_right _ hfront, List.erase_cons_head]
      exact ⟨List.mem_append_right _ hin, hsame.config, h₁,
        hready hlinks fun x hx => List.mem_append_right _ hx⟩

/-- **The end of a process that has left its queue.**  It is `Forgotten`, and its number is not
    found any longer, if no other process had the same. -/
theorem forgotten (h : Sound k free ready waiting []) (htaken : TakenOff k r k₁) :
    ∃ k', exec (Kernel.terminate r) k₁ = (.ok (), k') ∧ Forgotten r k k'
      ∧ (k.living.Nodup → k'.find? (r.pid k.memory) = .ok none) := by
  obtain ⟨hmem, hconfig, h₁, hkept⟩ := h.takenOff htaken
  obtain ⟨k', hexec, hsame, -, h', hframe⟩ := h₁.terminate
  have hnodup := h₁.ledger.nodup
  have hout : r ∉ ready.erase r ++ waiting.erase r := fun hin =>
    List.disjoint_of_nodup_append hnodup hin (List.mem_singleton_self r)
  have htiles := h'.ledger.tiles
  have hapart := h'.ledger.pieces_apart
  rw [List.append_nil, hsame.config, hconfig] at htiles
  rw [List.append_nil] at hapart
  have hsub : ∀ x ∈ ready.erase r ++ waiting.erase r, x ∈ ready ++ waiting := by
    intro x hx
    rcases List.mem_append.mp hx with hx | hx
    · exact List.mem_append_left _ (List.mem_of_mem_erase hx)
    · exact List.mem_append_right _ (List.mem_of_mem_erase hx)
  -- The end of a process writes to no record but its own.
  have hothers : ∀ x ∈ ready.erase r ++ waiting.erase r, ∀ s, s ≠ .next →
      x.get k'.memory s = x.get k.memory s := by
    intro x hx s hs
    have huntouched := h₁.untouched_others <| hframe.mono fun a ha =>
      ⟨fun huser => h₁.valid.layout.not_mem_osPool huser ha.1, ha.2⟩
    have hend : x.get k₁.memory s = x.get k'.memory s :=
      Record.get_congr (huntouched x (List.mem_append_left _ hx)) s
    rw [← hend]
    exact hkept.get x (hsub x hx) s hs
  have hfind : ∀ pid, k'.find? pid
      = .ok ((ready.erase r ++ waiting.erase r).find? fun x => x.pid k'.memory = pid) := by
    intro pid
    rw [find?, h'.readyRecords, h'.waitingRecords]
    rfl
  refine ⟨k', hexec, ⟨⟨ready, waiting, free, h.readyRecords, h.waitingRecords, h.osBlocks, hmem,
    h'.readyRecords, h'.waitingRecords, h'.osBlocks, hout, hothers, htiles, hapart⟩,
    fun pid => ⟨_, hfind pid, fun hr => hout (List.mem_of_find?_eq_some hr)⟩⟩, fun hliving => ?_⟩
  rw [h.living_eq] at hliving
  rw [hfind, List.find?_eq_none.mpr]
  intro x hx hpid
  have hsame : x.pid k.memory = r.pid k.memory :=
    (hothers x hx .pid (by decide)).symm.trans (of_decide_eq_true hpid)
  obtain rfl : x = r := List.inj_on_of_nodup_map hliving (hsub x hx) hmem hsame
  exact hout hx

end Sound

/-! ### A process that is still in its queue -/

/-- The process `r` has ended while it is in a queue: its record is the first free block, the word
    that held its number holds the size of the block, and the queue leads to the record as before,
    if it can be walked at all. -/
structure Dangles (r : Record) (k k' : Kernel) : Prop where
  first : k'.osPool.head = .node r.address
  pid : r.pid k'.memory = recordSize
  reached : (∃ before after, k.readyRecords = .ok (before ++ r :: after)
      ∧ ∀ rs, k'.readyRecords = .ok rs → ∃ rest, rs = before ++ r :: rest)
    ∨ ∃ before after, k.waitingRecords = .ok (before ++ r :: after)
      ∧ ∀ rs, k'.waitingRecords = .ok rs → ∃ rest, rs = before ++ r :: rest

namespace Sound

/-- **The end of a process that is still in its queue.**  It succeeds and leaves the queue as it is,
    so that the record is in the queue and in the free list: `Dangles r k k'`. -/
theorem dangles (h : Sound k free ready waiting []) (hr : r ∈ ready ++ waiting) :
    ∃ k', exec (Kernel.terminate r) k = (.ok (), k') ∧ Dangles r k k' := by
  obtain ⟨res, k₁, hstack, hsame, -, -, h₁, hframe, -⟩ :=
    h.releaseUser (r.get k.memory .stackStart) (r.get k.memory .stackSize)
  have hmem : r ∈ ready ++ waiting ++ [] := List.mem_append_left _ hr
  obtain ⟨m, hout, hfree, hnode⟩ := h₁.ledger.release_record h₁.fits h₁.osRegion hmem
  have hback : exec (releaseOs r.address.toWord recordSize) k₁ = (.ok (),
      { k₁.withMemory m with osPool := { k₁.osPool with head := .node r.address } }) := by
    have hmap := Pool.map_release_eq_ok_iff (u := ()).mpr hout
    simp only [releaseOs, onOsPool, exec_bind, exec_get, exec_attempt, hmap, exec_set, exec_pure]
  have hsame : Memory.SameOn (· ∉ r.span) k₁.memory m := hnode.mono fun a ha hin =>
    ha (Ledger.mem_span_of_freed hin)
  -- The new node of the free list has the size of a record where the number was.
  refine ⟨_, exec_terminate hstack hback, rfl, ?_, ?_⟩
  · obtain ⟨-, _, hfreed, -⟩ := hfree
    obtain ⟨a, ha, hsize⟩ := hfreed.size
    have hword : r.wordAddress Slot.pid.offset = some a :=
      Record.wordAddress_eq_some_iff.mpr (Address.offset_one_eq_some_iff.mp ha)
    show r.get m .pid = recordSize
    rw [Record.get, hword]
    exact hsize
  · rcases List.mem_append.mp hr with hready | hwaiting
    · obtain ⟨before, after, rfl, hreaches⟩ := RecordChain.reaches h₁.fits h₁.ledger.readyChain
        h₁.ledger.separate_ready hready hsame
      refine .inl ⟨before, after, h.readyRecords, fun rs hrs => hreaches rs ?_⟩
      rw [← h₁.readyRegion]
      exact hrs
    · obtain ⟨before, after, rfl, hreaches⟩ := RecordChain.reaches h₁.fits h₁.ledger.waitChain
        h₁.ledger.separate_waiting hwaiting hsame
      refine .inr ⟨before, after, h.waitingRecords, fun rs hrs => hreaches rs ?_⟩
      rw [← h₁.waitRegion]
      exact hrs

end Sound

/-! ### After any history -/

/-- **What is left of a process that has ended.**  After any history of a new kernel, the end of a
    process cannot fail.  If the process was taken off its queue first (`TakenOff`), nothing refers
    to its record any longer (`Forgotten`); nor is its number found, as long as no number was given
    twice.  If it is still in a queue, the queue leads to its record as before, which is a free
    block now (`Dangles`). -/
theorem ended_record {k₀ : Kernel} (hboot : (boot config catalog).outcome = .ok k₀)
    (ops : List Operation) :
    let k := k₀.after ops
    (∀ r k₁, TakenOff k r k₁ → ∃ k', exec (Kernel.terminate r) k₁ = (.ok (), k') ∧ Forgotten r k k'
        ∧ ((k₀.created ops).length < Int64.maxValue.toInt → k'.find? (r.pid k.memory) = .ok none))
      ∧ ∀ pid r, k.find? pid = .ok (some r) →
        ∃ k', exec (Kernel.terminate r) k = (.ok (), k') ∧ Dangles r k k' := by
  intro k
  have hreach : Reachable config catalog k := (Reachable.boot hboot).after ops
  have hcensus := (census_boot hboot).after (.boot hboot) ops
  obtain ⟨-, -, free, ready, waiting, h⟩ := hreach.atRest
  constructor
  · intro r k₁ htaken
    obtain ⟨k', hexec, hforgotten, hnumber⟩ := h.forgotten htaken
    exact ⟨k', hexec, hforgotten, fun hlen => hnumber (hcensus.nodup hlen).1⟩
  · intro pid r hfind
    obtain ⟨found, hfound, hmem, -⟩ := h.find_spec pid
    rw [hfound] at hfind
    exact h.dangles (hmem r (Except.ok.inj hfind)).1

/-- The only process ends after it was taken off its queue, and what is left if it was not. -/
theorem ended_record_first :
    let config : Config := { layout := ⟨⟨0, 9⟩, ⟨10, 29⟩, ⟨30, 89⟩⟩, stackSize := 2 }
    let catalog := Catalog.ofList [("halt", ⟨[(0, 0)], 0⟩)]
    ∃ k₀, (boot config catalog).outcome = .ok k₀ ∧
      let k := k₀.after [.create "halt" 1]
      let r : Record := ⟨⟨30, by decide⟩⟩
      (∃ k₁ k', exec popReady k = (.ok (some r), k₁) ∧ exec (Kernel.terminate r) k₁ = (.ok (), k')
        ∧ k'.find? 1 = .ok none)
      ∧ ∃ k', exec (Kernel.terminate r) k = (.ok (), k') ∧ Dangles r k k' := by
  intro config catalog
  obtain ⟨k₀, hboot, hpop, hpid, hfind, hcreated⟩ : ∃ k₀, (boot config catalog).outcome = .ok k₀ ∧
      let k := k₀.after [.create "halt" 1]
      (exec popReady k).1 = .ok (some ⟨⟨30, by decide⟩⟩)
        ∧ Record.pid ⟨⟨30, by decide⟩⟩ k.memory = 1
        ∧ k.find? 1 = .ok (some ⟨⟨30, by decide⟩⟩) ∧ k₀.created [.create "halt" 1] = [1] :=
    exists_boot (by decide +kernel)
  -- Both parts of the theorem: the process is taken off its queue first, or it is not.
  obtain ⟨hgone, hqueued⟩ := ended_record hboot [.create "halt" 1]
  obtain ⟨k', hexec, -, hnumber⟩ := hgone _ _ (.ready (Prod.ext hpop rfl))
  rw [hcreated, hpid] at hnumber
  exact ⟨k₀, hboot, ⟨_, k', Prod.ext hpop rfl, hexec, hnumber (by decide)⟩, hqueued 1 _ hfind⟩

/-- The only process ends while it is ready.  The ready queue still leads to its record, which is found
    under the number 22, and to the free block behind it. -/
theorem ended_record_queued :
    let config : Config := { layout := ⟨⟨0, 9⟩, ⟨10, 29⟩, ⟨30, 89⟩⟩, stackSize := 2 }
    let catalog := Catalog.ofList [("halt", ⟨[(0, 0)], 0⟩)]
    let r : Record := ⟨⟨30, by decide⟩⟩
    ∃ k₀, (boot config catalog).outcome = .ok k₀ ∧
      let k := k₀.after [.create "halt" 1]
      let k' := (exec (Kernel.terminate r) k).2
      k.find? 1 = .ok (some r) ∧ (exec (Kernel.terminate r) k).1 = .ok ()
        ∧ k'.readyRecords = .ok [r, ⟨⟨52, by decide⟩⟩] ∧ k'.find? 22 = .ok (some r)
        ∧ (k'.osPool.blocks k'.memory).outcome
          = .ok [⟨⟨30, by decide⟩, 22⟩, ⟨⟨52, by decide⟩, 38⟩] := by
  intro config catalog r
  exact exists_boot (by decide +kernel)

end Kernel

end Timeshare
