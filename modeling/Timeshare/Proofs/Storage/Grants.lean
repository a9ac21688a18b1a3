import Timeshare.Proofs.Storage.History

namespace Timeshare

/-!
# Who holds which words of a pool

A block that a pool has handed out is held by somebody, who knows its address and the size that was asked
for.  As long as the holders of blocks write to nothing but their own words and give back what they hold,
the pool never loses a word.

* `Grant` — a block that was handed out, as its holder knows it.
* `Pool.Conserved p m bs gs` — the free blocks `bs` and the grants `gs` cover the region of the pool, every
  word exactly once.
* `Pool.Partitioned p m region gs` — what can be seen of this.
* `Pool.Conserved.allocate`, `Pool.Conserved.release`, `Pool.Conserved.congr` — what becomes of them when
  blocks are handed out and given back, and when memory changes.
* `Pool.Conserved.allocate_error`, `Pool.Conserved.freeWords` — why a request fails, and the number of free
  words.
-/

/-- A block that was handed out: its address, and the number of words that were asked for. -/
structure Grant where
  start : Word
  size : Word
  deriving DecidableEq, Repr

namespace Grant

/-- The words of a grant. -/
def span (g : Grant) : Span := Pool.served g.start.toInt.toNat g.size

/-- A grant is a block of a region. -/
def Within (g : Grant) (r : Region) : Prop :=
  ∃ a : Address, a.toWord = g.start ∧ 1 ≤ g.size.toInt ∧ FreeBlock.Within ⟨a, max g.size minBlockSize⟩ r

theorem span_pos (g : Grant) : 0 < g.span.size := Pool.served_pos _ _

/-- The grant of `n` words at the address `a` has the words that the request is served with. -/
theorem span_of_address (a : Address) (n : Word) : (⟨a.toWord, n⟩ : Grant).span = Pool.served a.index n := by
  show Pool.served a.toWord.toInt.toNat n = _
  rw [Address.toInt_toWord, Int.toNat_natCast]

/-- Every word of a grant of a region is one of the region. -/
theorem Within.mem_of_span {g : Grant} {r : Region} (h : g.Within r) {a : Address} (ha : a ∈ g.span) :
    a ∈ r := by
  obtain ⟨first, hfirst, -, hblock⟩ := h
  refine hblock.mem_of_span ?_
  rwa [show g = ⟨first.toWord, g.size⟩ by rw [hfirst], span_of_address] at ha

end Grant

namespace Pool

variable {p p' : Pool} {m m' : Memory} {bs : List FreeBlock} {gs gs' : List Grant} {g : Grant}
  {n : Word} {a : Address}

/-- The free blocks of a pool, which can be read, and the grants cover its region, every word exactly
    once. -/
structure Conserved (p : Pool) (m : Memory) (bs : List FreeBlock) (gs : List Grant) : Prop
    extends p.InOrder m bs where
  within : ∀ g ∈ gs, g.Within p.region
  tiles : Tiles (bs.map FreeBlock.span ++ gs.map Grant.span) p.region.span

/-- The list of a pool can be read, its free blocks and some grants cover a region exactly, and no two of
    them share a word. -/
def Partitioned (p : Pool) (m : Memory) (region : Region) (gs : List Grant) : Prop :=
  ∃ bs, (p.blocks m).outcome = .ok bs ∧
    let pieces := bs.map FreeBlock.span ++ gs.map Grant.span
    Tiles pieces region.span ∧ pieces.Pairwise Span.Apart

namespace Conserved

/-- All pieces have words, so that the free blocks and the grants are pairwise `Apart`. -/
theorem apart (h : p.Conserved m bs gs) :
    (bs.map FreeBlock.span ++ gs.map Grant.span).Pairwise Span.Apart := by
  refine h.tiles.apart fun s hs => ?_
  rcases List.mem_append.mp hs with hs | hs
  · obtain ⟨b, hb, rfl⟩ := List.mem_map.mp hs
    exact (h.chain.within b hb).span_pos
  · obtain ⟨g, -, rfl⟩ := List.mem_map.mp hs
    exact g.span_pos

/-- A free block shares no word with a grant. -/
theorem apart_free (h : p.Conserved m bs gs) {b : FreeBlock} (hb : b ∈ bs) (hg : g ∈ gs) :
    b.span.Apart g.span :=
  (List.pairwise_append.mp h.apart).2.2 _ (List.mem_map_of_mem hb) _ (List.mem_map_of_mem hg)

/-- The pieces of `Conserved` are a partition of the region. -/
theorem partitioned (h : p.Conserved m bs gs) : p.Partitioned m p.region gs :=
  ⟨bs, h.blocks, h.tiles, h.apart⟩

/-- The order of the grants does not matter to `Conserved`. -/
theorem perm (h : p.Conserved m bs gs) (hperm : gs'.Perm gs) : p.Conserved m bs gs' where
  toInOrder := h.toInOrder
  within g hg := h.within g (hperm.mem_iff.mp hg)
  tiles := h.tiles.perm ((hperm.map _).append_left _)

/-- A new pool is free: `Pool.fill` succeeds and leaves one free block and no grant. -/
theorem fill (hr : p.region.Fits) (hlen : 2 ≤ p.region.length.toNat) (m : Memory) :
    ∃ b p' m', (p.fill m).outcome = .ok (p', m') ∧ p'.region = p.region ∧ p'.Conserved m' [b] [] := by
  obtain ⟨b, p', m', hfill, horder, hregion, hspan⟩ := InOrder.fill hr hlen m
  refine ⟨b, p', m', hfill, hregion, horder, by simp, ?_⟩
  rw [List.map_singleton, List.map_nil, List.append_nil, hspan, hregion]
  exact tiles_self _

/-- A change of words that are not free keeps `Conserved`. -/
theorem congr (h : p.Conserved m bs gs)
    (hm : Memory.SameOn (fun a => ∃ b ∈ bs, a ∈ b.span) m m') : p.Conserved m' bs gs where
  fits := h.fits
  chain := h.chain.congr_blocks fun b hb => hm.mono fun _ ha => ⟨b, hb, ha⟩
  separate := h.separate
  within := h.within
  tiles := h.tiles

/-- A change outside `p.region` keeps `Conserved`. -/
theorem congr_region (h : p.Conserved m bs gs) (hm : Memory.SameOn (· ∈ p.region) m m') :
    p.Conserved m' bs gs :=
  h.congr (hm.mono fun _ ⟨b, hb, ha⟩ => (h.chain.within b hb).mem_of_span ha)

/-- A change keeps `Conserved` if the words of the region that it changes belong to grants. -/
theorem congr_granted (h : p.Conserved m bs gs)
    (hm : ∀ a ∈ p.region, m'.read a ≠ m.read a → ∃ g ∈ gs, a ∈ g.span) : p.Conserved m' bs gs := by
  refine h.congr fun a ⟨b, hb, ha⟩ => ?_
  by_contra hne
  obtain ⟨g, hg, hag⟩ := hm a ((h.chain.within b hb).mem_of_span ha) (Ne.symm hne)
  exact (h.apart_free hb hg).not_mem ha hag

/-- **Allocation hands out a grant.**  If `p.allocate m n` gives `a`, then `⟨a.toWord, n⟩` is a new
    grant and the pool is again `Conserved`. -/
theorem allocate (h : p.Conserved m bs gs) (hok : (p.allocate m n).outcome = .ok (a, p', m')) :
    ∃ bs', p'.region = p.region ∧ p'.Conserved m' bs' (⟨a.toWord, n⟩ :: gs) := by
  obtain ⟨bs', horder, hregion, hwords⟩ := h.toInOrder.allocate hok
  obtain ⟨hwithin, -⟩ := allocate_confined h.fits hok
  refine ⟨bs', hregion, horder, ?_, ?_⟩
  · rw [hregion]
    exact List.forall_mem_cons.mpr ⟨⟨a, rfl, one_le_of_allocate hok, hwithin⟩, h.within⟩
  · -- The words of the new grant were free.
    have htiles := h.tiles
    rw [hregion, List.map_cons, Grant.span_of_address]
    rw [Tiles, List.flatMap_append, List.flatMap_map] at htiles ⊢
    rw [List.flatMap_cons]
    refine List.Perm.trans ?_ htiles
    refine List.Perm.trans ?_ (hwords.symm.append_right _)
    -- The words of the new grant stand in front of the free ones, and have to move behind them.
    rw [← List.append_assoc]
    exact List.perm_append_comm.append_right _

/-- **Release of a grant succeeds**, and its words are those of a free block `b` in front of the
    list. -/
theorem release (h : p.Conserved m bs (g :: gs)) :
    ∃ b p' m', (p.release m g.start g.size).outcome = .ok (p', m') ∧ p'.region = p.region
      ∧ p'.Conserved m' (b :: bs) gs := by
  obtain ⟨a, ha, hone, hwithin⟩ := h.within g List.mem_cons_self
  have hspan : FreeBlock.span ⟨a, max g.size minBlockSize⟩ = g.span := by
    rw [show g = ⟨a.toWord, g.size⟩ by rw [ha], Grant.span_of_address]
    rfl
  obtain ⟨second, hsecond⟩ := hwithin.exists_second h.fits
  -- Nothing speaks against the release: the block is apart from all free ones.
  have hok := (release_eq_ok_iff h.fits).mpr
    ⟨⟨a, max g.size minBlockSize⟩, second, bs, hwithin, ha, (releasedSize_eq hone).symm, h.blocks,
      fun c hc => hspan ▸ (h.apart_free hc List.mem_cons_self).symm, hsecond, rfl, rfl⟩
  obtain ⟨b, horder, hregion, hstart, hserved⟩ := h.toInOrder.release hok
  refine ⟨b, _, _, hok, hregion, horder, fun g' hg' => h.within g' (List.mem_cons_of_mem _ hg'), ?_⟩
  have hfreed : b.span = g.span := by
    rw [show g = ⟨b.address.toWord, g.size⟩ by rw [hstart], Grant.span_of_address, hserved]
  rw [List.map_cons, hfreed, List.cons_append]
  exact h.tiles.perm List.perm_middle.symm

/-- **A request for words fails** with `noFreeMemory` only: the list is not damaged. -/
theorem allocate_error (h : p.Conserved m bs gs) (hn : 1 ≤ n.toInt) {e : Fault}
    (herror : (p.allocate m n).outcome = .error e) : e = .noFreeMemory := by
  rcases Pool.allocate_error h.fits hn herror with ⟨rfl, -⟩ | ⟨-, hdamaged⟩
  · rfl
  · rw [h.blocks] at hdamaged
    exact absurd hdamaged (by simp)

/-- **The free words are those that nobody holds:** their number and that of the words of the grants
    add up to the length of the region. -/
theorem freeWords (h : p.Conserved m bs gs) :
    ∃ w, (p.freeWords m).outcome = .ok w
      ∧ w.toInt + (gs.flatMap fun g => g.span.words).length = p.region.length.toNat := by
  obtain ⟨w, hw, hcard⟩ := h.toInOrder.freeWords
  refine ⟨w, hw, ?_⟩
  have hlen := h.tiles.length_words
  rw [List.flatMap_append, List.length_append, List.flatMap_map, List.flatMap_map] at hlen
  rw [hcard, h.freeSet_eq, List.toFinset_card_of_nodup h.separate.nodup_words, ← Int.natCast_add, hlen]
  rfl

end Conserved

end Pool

end Timeshare
