import Timeshare.Proofs.Storage.FirstFit
import Mathlib.Data.Finset.Card
import Mathlib.Data.Finset.Dedup
import Mathlib.Data.Finset.SDiff

namespace Timeshare

/-!
# What the clients of a pool can rely on

Clients ask a pool for blocks, give blocks back, and write to every word that is not free.  The
list of free blocks stands in the same memory, and still no sequence of requests can damage it.

* `Pool.freeSet p m` — the words that are free, as a set.
* `Pool.InOrder p m bs` — the list of the pool is `bs`, and its blocks do not overlap.  Each request
  leaves a list in order, and the words of the new list are known (`InOrder.allocate`,
  `InOrder.release`, `InOrder.write`).
* `Pool.History owner region s` — the stage `s` is reached from a new pool by requests of any kind,
  of which some may fail.
* `Pool.history_exact` — in each stage the list can be read, every successful request moves exactly the
  words that it names into or out of the free set, and live blocks never overlap.
-/

namespace Pool

variable {p p' : Pool} {m m' : Memory} {bs : List FreeBlock} {n start : Word} {a : Address}

/-- The words that are free: those of the blocks in the list. -/
def freeSet (p : Pool) (m : Memory) : Finset Nat :=
  match (p.blocks m).outcome with
  | .ok bs => (bs.flatMap fun b => b.span.words).toFinset
  | .error _ => ∅

/-- The words that a request for `n` words is about: no block has less than two. -/
def served (first : Nat) (n : Word) : Span := ⟨first, (max n minBlockSize).toInt.toNat⟩

theorem served_pos (first : Nat) (n : Word) : 0 < (served first n).size := by
  have := two_le_max n
  show 0 < (max n minBlockSize).toInt.toNat
  omega

/-! ### Lists in order -/

/-- The list of a pool is in order: it is `bs`, and no two of its blocks share a word. -/
structure InOrder (p : Pool) (m : Memory) (bs : List FreeBlock) : Prop where
  fits : p.region.Fits
  chain : FreeChain p.region m p.head bs
  separate : Separate FreeBlock.span bs

namespace InOrder

/-- All free words lie in the region. -/
theorem mem_region (h : p.InOrder m bs) {i : Nat} (hi : i ∈ bs.flatMap fun b => b.span.words) :
    i ∈ p.region.span.words := by
  obtain ⟨b, hb, hi⟩ := List.mem_flatMap.mp hi
  have hwithin := h.chain.within b hb
  have hle := hwithin.start_le
  have hlast := hwithin.le_last
  have hlen := h.fits.length_toNat
  rw [Span.mem_words] at hi ⊢
  show p.region.start.toNat ≤ i ∧ i < p.region.start.toNat + p.region.length.toNat
  have hi' : b.address.index ≤ i ∧ i < b.address.index + b.size.toInt.toNat := hi
  omega

/-- There are no more free words than words: at most `p.region.length`. -/
theorem length_words_le (h : p.InOrder m bs) :
    (bs.flatMap fun b => b.span.words).length ≤ p.region.length.toNat := by
  have hsub := List.subperm_of_subset h.separate.nodup_words fun i hi => h.mem_region hi
  have hle := hsub.length_le
  rwa [Span.length_words] at hle

/-- A list in order is not too long to be read, `bs.length ≤ p.maxNodes`: each of its blocks takes
    two words of the region. -/
theorem length_le (h : p.InOrder m bs) : bs.length ≤ p.maxNodes := by
  -- By induction on the blocks, each of which has two words or more.
  have htwo : ∀ cs : List FreeBlock, (∀ b ∈ cs, b.Within p.region) →
      2 * cs.length ≤ (cs.flatMap fun b => b.span.words).length := by
    intro cs hcs
    induction cs with
    | nil => exact Nat.zero_le _
    | cons c cs ih =>
      have hc := (hcs c List.mem_cons_self).two_le
      have hspan : c.span.size = c.size.toInt.toNat := rfl
      have := ih fun b hb => hcs b (List.mem_cons_of_mem _ hb)
      rw [List.flatMap_cons, List.length_append, Span.length_words, List.length_cons, hspan]
      omega
  have := htwo bs h.chain.within
  have := h.length_words_le
  show bs.length ≤ p.region.length.toNat / 2
  omega

/-- **A list in order can be read:** `Pool.blocks` gives `bs`. -/
theorem blocks (h : p.InOrder m bs) : (p.blocks m).outcome = .ok bs :=
  (blocks_eq_ok_iff h.fits).mpr ⟨h.chain, h.length_le⟩

/-- The free set of a list in order is the set of the words of its blocks. -/
theorem freeSet_eq (h : p.InOrder m bs) :
    p.freeSet m = (bs.flatMap fun b => b.span.words).toFinset := by
  rw [freeSet, h.blocks]

/-- **No free word is lost or listed twice:** `Pool.freeWords` succeeds and gives the number of
    elements of `p.freeSet m`. -/
theorem freeWords (h : p.InOrder m bs) :
    ∃ w, (p.freeWords m).outcome = .ok w ∧ w.toInt = (p.freeSet m).card := by
  have hlen := h.length_words_le
  have hregion : p.region.length.toNat ≤ memorySize := by
    have := h.fits.length_toNat
    have := h.fits.last_lt
    omega
  obtain ⟨w, hw, hcount⟩ := freeWords_eq_length h.blocks (fun b hb => (h.chain.within b hb).two_le)
    (hlen.trans hregion)
  refine ⟨w, hw, ?_⟩
  rw [hcount, h.freeSet_eq, List.toFinset_card_of_nodup h.separate.nodup_words]

/-! ### Requests to a pool in order -/

/-- **A new pool** is in order with one block `b`, which is the whole region. -/
theorem fill (hr : p.region.Fits) (hlen : 2 ≤ p.region.length.toNat) (m : Memory) :
    ∃ b p' m', (p.fill m).outcome = .ok (p', m') ∧ p'.InOrder m' [b] ∧ p'.region = p.region
      ∧ b.span = p.region.span := by
  obtain ⟨b, m', hfill, hspan, hchain, -⟩ := fill_whole (m := m) hr hlen
  exact ⟨b, _, m', hfill, ⟨hr, hchain, List.pairwise_singleton _ _⟩, rfl, hspan⟩

/-- **Allocation from a list in order.**  Either no block fits and the fault is `noFreeMemory`, or
    `bs` is `skipped ++ b :: rest` with `b` the first block that fits, and afterwards the list is in
    order and is `skipped ++ left ++ rest`.  The free words were those that are `served` and those
    that are free now. -/
theorem firstFit (h : p.InOrder m bs) (hn : 1 ≤ n.toInt) :
    ((∀ b ∈ bs, ¬ b.Fits (max n minBlockSize))
        ∧ (p.allocate m n).outcome = .error .noFreeMemory) ∨
      ∃ skipped b rest left p' m', bs = skipped ++ b :: rest
        ∧ (∀ c ∈ skipped, ¬ c.Fits (max n minBlockSize))
        ∧ b.Splits (max n minBlockSize) left
        ∧ (p.allocate m n).outcome = .ok (b.address, p', m')
        ∧ p'.InOrder m' (skipped ++ left ++ rest) ∧ p'.region = p.region
        ∧ (bs.flatMap fun b => b.span.words).Perm ((served b.address.index n).words
          ++ (skipped ++ left ++ rest).flatMap fun b => b.span.words)
        ∧ Memory.SameOn (fun a => (∀ c ∈ left, a ∉ c.nodeSpan) ∧ a ≠ b.address
          ∧ ∀ c ∈ skipped.getLast?, a ≠ c.address) m m' := by
  have hsize := two_le_max n
  rcases allocate_firstFit h.fits h.chain h.length_le h.separate hn with
    hnone | ⟨skipped, b, rest, left, head, m', rfl, hskipped, hsplits, hok, hchain, -, hframe⟩
  · exact .inl hnone
  have hperm : ((skipped ++ b :: rest).flatMap fun b => b.span.words).Perm
      ((served b.address.index n).words
        ++ (skipped ++ left ++ rest).flatMap fun b => b.span.words) := by
    rw [List.flatMap_append, List.flatMap_append, List.flatMap_append, List.flatMap_cons,
      hsplits.words (by omega), ← List.append_assoc, ← List.append_assoc, ← List.append_assoc,
      ← List.append_assoc]
    exact (List.perm_append_comm.append_right _).append_right _
  -- The words were all different, and so are those that are left.
  have hnodup := (hperm.nodup_iff.mp h.separate.nodup_words).of_append_right
  have hseparate := separate_of_nodup_words (fun c hc => (hchain.within c hc).span_pos) hnodup
  exact .inr ⟨skipped, b, rest, left, { p with head }, m', rfl, hskipped, hsplits, hok,
    ⟨h.fits, hchain, hseparate⟩, rfl, hperm, hframe⟩

/-- What a successful allocation leaves: a list in order, and the words of `bs` are those that are
    `served` and those of the new list. -/
theorem allocate (h : p.InOrder m bs) (hok : (p.allocate m n).outcome = .ok (a, p', m')) :
    ∃ bs', p'.InOrder m' bs' ∧ p'.region = p.region
      ∧ (bs.flatMap fun b => b.span.words).Perm
        ((served a.index n).words ++ bs'.flatMap fun b => b.span.words) := by
  rcases h.firstFit (one_le_of_allocate hok) with
    ⟨-, herror⟩ | ⟨skipped, b, rest, left, p'', m'', -, -, -, hok', horder, hregion, hperm, -⟩
  · rw [herror] at hok
    exact absurd hok (by simp)
  · rw [hok', Except.ok.injEq, Prod.mk.injEq, Prod.mk.injEq] at hok
    obtain ⟨rfl, rfl, rfl⟩ := hok
    exact ⟨_, horder, hregion, hperm⟩

/-- **Release to a list in order.**  A block of the region that is apart from all of `bs` is taken
    back, the list is in order and is `b :: bs`, and only the node of `b` is written. -/
theorem releaseFront (h : p.InOrder m bs) {b : FreeBlock} (hb : b.Within p.region)
    (hapart : ∀ c ∈ bs, b.span.Apart c.span) (hsize : b.size = releasedSize n) :
    ∃ p' m', (p.release m b.address.toWord n).outcome = .ok (p', m') ∧ p'.InOrder m' (b :: bs)
      ∧ p'.region = p.region ∧ Memory.SameOn (· ∉ b.nodeSpan) m m' := by
  obtain ⟨m', hok, hchain, hframe⟩ := release_front h.fits h.chain h.length_le hb hapart hsize
  exact ⟨_, m', hok, ⟨h.fits, hchain, List.pairwise_cons.mpr ⟨hapart, h.separate⟩⟩, rfl, hframe⟩

/-- What a successful release leaves: the list `b :: bs`, where `b` starts at `start` and has the
    words that are `served` there. -/
theorem release (h : p.InOrder m bs) (hok : (p.release m start n).outcome = .ok (p', m')) :
    ∃ b : FreeBlock, p'.InOrder m' (b :: bs) ∧ p'.region = p.region ∧ b.address.toWord = start
      ∧ b.span = served b.address.index n := by
  obtain ⟨b, second, cs, hb, rfl, hsize, hblocks, hapart, -⟩ := (release_eq_ok_iff h.fits).mp hok
  obtain rfl : cs = bs := Except.ok.inj (hblocks.symm.trans h.blocks)
  obtain ⟨p'', m'', hok', horder, hregion, -⟩ := h.releaseFront hb hapart hsize
  rw [hok', Except.ok.injEq, Prod.mk.injEq] at hok
  obtain ⟨rfl, rfl⟩ := hok
  refine ⟨b, horder, hregion, rfl, ?_⟩
  rw [served, ← size_eq_max hb hsize]
  rfl

/-- **A write** to a word that is not in `p.freeSet m` leaves the list as it is. -/
theorem write (h : p.InOrder m bs) (ha : a.index ∉ p.freeSet m) (w : Word) :
    p.InOrder (m.write a w) bs := by
  rw [h.freeSet_eq, List.mem_toFinset, List.mem_flatMap] at ha
  refine ⟨h.fits, h.chain.congr_blocks fun b hb => Memory.sameOn_write ?_, h.separate⟩
  intro hab
  exact ha ⟨b, hb, hab⟩

end InOrder

/-! ### The free set -/

/-- An allocation takes its words, which were free, out of the free set:
    `p'.freeSet m' = p.freeSet m \ (served a.index n).words.toFinset`. -/
theorem InOrder.freeSet_allocate (h : p.InOrder m bs)
    (hok : (p.allocate m n).outcome = .ok (a, p', m')) :
    (served a.index n).words.toFinset ⊆ p.freeSet m
      ∧ p'.freeSet m' = p.freeSet m \ (served a.index n).words.toFinset := by
  obtain ⟨bs', h', -, hperm⟩ := h.allocate hok
  have hmem : ∀ i, i ∈ p.freeSet m ↔ i ∈ (served a.index n).words ∨ i ∈ p'.freeSet m' := by
    intro i
    rw [h.freeSet_eq, h'.freeSet_eq, List.mem_toFinset, List.mem_toFinset, hperm.mem_iff,
      List.mem_append]
  -- The words that are handed out are none of those that are left, as all words were different.
  have hdisjoint : ∀ i ∈ (served a.index n).words, i ∉ p'.freeSet m' := by
    intro i hi hi'
    rw [h'.freeSet_eq, List.mem_toFinset] at hi'
    exact List.disjoint_of_nodup_append (hperm.nodup_iff.mp h.separate.nodup_words) hi hi'
  constructor
  · intro i hi
    exact (hmem i).mpr (.inl (List.mem_toFinset.mp hi))
  · ext i
    rw [Finset.mem_sdiff, List.mem_toFinset, hmem i]
    constructor
    · exact fun hi => ⟨.inr hi, fun hi' => hdisjoint i hi' hi⟩
    · rintro ⟨hi | hi, hnot⟩
      · exact absurd hi hnot
      · exact hi

/-- A release puts its words, none of which was free, into the free set:
    `p'.freeSet m' = p.freeSet m ∪ (served a.index n).words.toFinset`. -/
theorem InOrder.freeSet_release (h : p.InOrder m bs)
    (hok : (p.release m start n).outcome = .ok (p', m')) :
    ∃ a : Address, a.toWord = start ∧ Disjoint (served a.index n).words.toFinset (p.freeSet m)
      ∧ p'.freeSet m' = p.freeSet m ∪ (served a.index n).words.toFinset := by
  obtain ⟨b, h', -, hstart, hspan⟩ := h.release hok
  refine ⟨b.address, hstart, ?_, ?_⟩
  -- The block is in front of a list in order, and so apart from the blocks behind it.
  · rw [Finset.disjoint_left]
    intro i hi hi'
    rw [← hspan, List.mem_toFinset] at hi
    rw [h.freeSet_eq, List.mem_toFinset] at hi'
    have hnodup := h'.separate.nodup_words
    rw [List.flatMap_cons] at hnodup
    exact List.disjoint_of_nodup_append hnodup hi hi'
  · rw [h.freeSet_eq, h'.freeSet_eq, List.flatMap_cons, List.toFinset_append, hspan, Finset.union_comm]

/-- A write to a word that is not free leaves `p.freeSet m` as it is. -/
theorem InOrder.freeSet_write (h : p.InOrder m bs) (ha : a.index ∉ p.freeSet m) (w : Word) :
    p.freeSet (m.write a w) = p.freeSet m := by
  rw [(h.write ha w).freeSet_eq, h.freeSet_eq]

/-! ### Histories -/

/-- A pool, the memory that it lives in, and the live blocks: those that were handed out and of which
    no word has been given back since. -/
structure Stage where
  pool : Pool
  memory : Memory
  live : List Span

/-- The free words of a stage. -/
def Stage.free (s : Stage) : Finset Nat := s.pool.freeSet s.memory

/-- What clients do. -/
inductive Request where
  | allocate (n : Word)
  | release (start n : Word)
  | write (a : Address) (w : Word)

/-- Clients do not write to words that are free. -/
def Request.Allowed (s : Stage) : Request → Prop
  | .write a _ => a.index ∉ s.free
  | _ => True

/-- The stage after a request.  One that fails changes nothing. -/
def Request.serve (s : Stage) : Request → Stage
  | .allocate n =>
    match (s.pool.allocate s.memory n).outcome with
    | .ok (a, p, m) => ⟨p, m, served a.index n :: s.live⟩
    | .error _ => s
  | .release start n =>
    match (s.pool.release s.memory start n).outcome with
    | .ok (p, m) => ⟨p, m, s.live.filter (·.Apart (served start.toInt.toNat n))⟩
    | .error _ => s
  | .write a w => { s with memory := s.memory.write a w }

/-- A stage is reached from a new pool by requests. -/
inductive History (owner : PoolOwner) (region : Region) : Stage → Prop where
  | fill {m m' : Memory} {p : Pool} (h : ((empty owner region).fill m).outcome = .ok (p, m')) :
    History owner region ⟨p, m', []⟩
  | serve {s : Stage} (h : History owner region s) (r : Request) (hr : r.Allowed s) :
    History owner region (r.serve s)

/-- What is true in each stage: the list is in order, and no word of a live block is free or belongs to
    another one. -/
structure Stage.Settled (region : Region) (s : Stage) : Prop where
  region : s.pool.region = region
  inOrder : ∃ bs, s.pool.InOrder s.memory bs
  live_pos : ∀ t ∈ s.live, 0 < t.size
  live_apart : s.live.Pairwise Span.Apart
  live_taken : ∀ t ∈ s.live, Disjoint t.words.toFinset s.free

variable {owner : PoolOwner} {region : Region} {s : Stage}

/-- A request for `n` words, whether it fails or not, keeps a stage settled. -/
theorem Stage.Settled.allocate (h : s.Settled region) (n : Word) :
    ((Request.allocate n).serve s).Settled region := by
  obtain ⟨bs, hbs⟩ := h.inOrder
  cases hout : (s.pool.allocate s.memory n).outcome with
  | error e =>
    rw [Request.serve, hout]
    exact h
  | ok result =>
    obtain ⟨a, p, m⟩ := result
    obtain ⟨bs', hbs', hregion, -⟩ := hbs.allocate hout
    -- The words that are handed out were free, and they are the ones that the free set loses.
    obtain ⟨hsub, hfree⟩ := hbs.freeSet_allocate hout
    rw [Request.serve, hout]
    refine ⟨hregion.trans h.region, ⟨bs', hbs'⟩, ?_, List.pairwise_cons.mpr ⟨?_, h.live_apart⟩, ?_⟩
    · exact List.forall_mem_cons.mpr ⟨served_pos _ _, h.live_pos⟩
    · -- The new block was free until now.
      intro t ht
      refine Span.apart_of_words (served_pos _ _) (h.live_pos t ht) fun i hi hi' => ?_
      exact Finset.disjoint_left.mp (h.live_taken t ht) (List.mem_toFinset.mpr hi')
        (hsub (List.mem_toFinset.mpr hi))
    · refine List.forall_mem_cons.mpr ⟨?_, fun t ht => ?_⟩
      · show Disjoint _ (p.freeSet m)
        rw [hfree]
        exact Finset.disjoint_sdiff
      · show Disjoint _ (p.freeSet m)
        rw [hfree]
        exact (h.live_taken t ht).mono_right Finset.sdiff_subset

/-- A release of `n` words at `start`, whether it fails or not, keeps a stage settled. -/
theorem Stage.Settled.release (h : s.Settled region) (start n : Word) :
    ((Request.release start n).serve s).Settled region := by
  obtain ⟨bs, hbs⟩ := h.inOrder
  cases hout : (s.pool.release s.memory start n).outcome with
  | error e =>
    rw [Request.serve, hout]
    exact h
  | ok result =>
    obtain ⟨p, m⟩ := result
    obtain ⟨b, hbs', hregion, -⟩ := hbs.release hout
    obtain ⟨a, rfl, -, hfree⟩ := hbs.freeSet_release hout
    have hindex : a.toWord.toInt.toNat = a.index := by
      rw [Address.toInt_toWord]
      rfl
    rw [Request.serve, hout, hindex]
    have hmem : ∀ t ∈ s.live.filter (·.Apart (served a.index n)),
        t ∈ s.live ∧ t.Apart (served a.index n) := fun t ht => by
      rwa [List.mem_filter, decide_eq_true_eq] at ht
    refine ⟨hregion.trans h.region, ⟨_, hbs'⟩, fun t ht => h.live_pos t (hmem t ht).1,
      h.live_apart.filter _, fun t ht => ?_⟩
    show Disjoint _ (p.freeSet m)
    obtain ⟨hlive, hapart⟩ := hmem t ht
    rw [hfree, Finset.disjoint_union_right]
    refine ⟨h.live_taken t hlive, Finset.disjoint_left.mpr fun i hi hi' => ?_⟩
    -- A block stays live only if it shares no word with those that are given back.
    rw [List.mem_toFinset, Span.mem_words] at hi hi'
    unfold Span.Apart at hapart
    omega

/-- A write to a word that is not free keeps a stage settled. -/
theorem Stage.Settled.write (h : s.Settled region) {a : Address} (ha : a.index ∉ s.free) (w : Word) :
    ((Request.write a w).serve s).Settled region := by
  obtain ⟨bs, hbs⟩ := h.inOrder
  refine ⟨h.region, ⟨bs, hbs.write ha w⟩, h.live_pos, h.live_apart, fun t ht => ?_⟩
  show Disjoint _ (s.pool.freeSet (s.memory.write a w))
  rw [hbs.freeSet_write ha]
  exact h.live_taken t ht

/-- **Every stage is settled:** the invariant `Stage.Settled` holds after any history. -/
theorem History.settled (hr : region.Fits) (hlen : 2 ≤ region.length.toNat)
    (h : History owner region s) : s.Settled region := by
  induction h with
  | @fill m m' p h =>
    obtain ⟨b, p', m'', hfill, horder, hregion, -⟩ :=
      InOrder.fill (p := Pool.empty owner region) hr hlen m
    rw [hfill, Except.ok.injEq, Prod.mk.injEq] at h
    obtain ⟨rfl, rfl⟩ := h
    exact ⟨hregion, ⟨_, horder⟩, by simp, List.Pairwise.nil, by simp⟩
  -- One lemma for each kind of request.
  | serve h r hr ih =>
    cases r with
    | allocate n => exact ih.allocate n
    | release start n => exact ih.release start n
    | write a w => exact ih.write hr w

/-- In a settled stage the list can be read; its blocks lie in the region and are pairwise apart,
    and their sizes add up to the number of elements of `s.free`. -/
theorem Stage.Settled.blocks (h : s.Settled region) :
    ∃ bs, (s.pool.blocks s.memory).outcome = .ok bs ∧ (∀ b ∈ bs, b.Within region)
      ∧ bs.Pairwise (fun b c => b.span.Apart c.span)
      ∧ s.free = (bs.flatMap fun b => b.span.words).toFinset
      ∧ ∃ w, (s.pool.freeWords s.memory).outcome = .ok w ∧ w.toInt = s.free.card := by
  obtain ⟨bs, hbs⟩ := h.inOrder
  have hwithin := hbs.chain.within
  rw [h.region] at hwithin
  exact ⟨bs, hbs.blocks, hwithin, hbs.separate, hbs.freeSet_eq, hbs.freeWords⟩

/-- **A pool is exact through all histories.**  A pool over two or more words of memory opens with
    all of them free.  After any requests of its clients (`History owner region s`), of which some
    may have failed, its list can be read: the blocks are large enough, lie in the region and do not
    overlap, and their sizes add up to the number of elements of `s.free`.  An allocation hands out
    words that were free, and takes just these out of `s.free`; a release puts just its words there,
    none of which was free; a request that fails, and a write to a word that is not free, changes no
    free word.  So the blocks in `s.live` never overlap, no word of theirs is free, and to release a
    word that is free is refused. -/
theorem history_exact (owner : PoolOwner) (hr : region.Fits) (hlen : 2 ≤ region.length.toNat) :
    (∀ m, ∃ p m', ((empty owner region).fill m).outcome = .ok (p, m')
      ∧ p.freeSet m' = region.span.words.toFinset) ∧
    ∀ s, History owner region s →
      (∃ bs, (s.pool.blocks s.memory).outcome = .ok bs ∧ (∀ b ∈ bs, b.Within region)
        ∧ bs.Pairwise (fun b c => b.span.Apart c.span)
        ∧ s.free = (bs.flatMap fun b => b.span.words).toFinset
        ∧ ∃ w, (s.pool.freeWords s.memory).outcome = .ok w ∧ w.toInt = s.free.card) ∧
      (∀ n, match (s.pool.allocate s.memory n).outcome with
        | .ok (a, _, _) => (served a.index n).words.toFinset ⊆ s.free
          ∧ ((Request.allocate n).serve s).free = s.free \ (served a.index n).words.toFinset
        | .error _ => ((Request.allocate n).serve s).free = s.free) ∧
      (∀ start n, match (s.pool.release s.memory start n).outcome with
        | .ok _ => ∃ a : Address, a.toWord = start
          ∧ Disjoint (served a.index n).words.toFinset s.free
          ∧ ((Request.release start n).serve s).free = s.free ∪ (served a.index n).words.toFinset
        | .error _ => ((Request.release start n).serve s).free = s.free) ∧
      (∀ (a : Address) w, a.index ∉ s.free → ((Request.write a w).serve s).free = s.free) ∧
      s.live.Pairwise Span.Apart ∧ (∀ t ∈ s.live, Disjoint t.words.toFinset s.free) ∧
      ∀ start n, (∃ i ∈ s.free, start.toInt ≤ (i : Int) ∧ i < start.toInt + (max n minBlockSize).toInt) →
        ∃ e, (s.pool.release s.memory start n).outcome = .error e := by
  constructor
  · intro m
    obtain ⟨b, p, m', hfill, horder, -, hspan⟩ :=
      InOrder.fill (p := Pool.empty owner region) hr hlen m
    refine ⟨p, m', hfill, ?_⟩
    rw [horder.freeSet_eq, List.flatMap_singleton, hspan]
    rfl
  intro s hs
  have hsettled := hs.settled hr hlen
  obtain ⟨bs, hbs⟩ := hsettled.inOrder
  refine ⟨hsettled.blocks, fun n => ?_, fun start n => ?_, fun a w ha => hbs.freeSet_write ha w,
    hsettled.live_apart, hsettled.live_taken, fun start n hfree => ?_⟩
  · cases hout : (s.pool.allocate s.memory n).outcome with
    | ok result =>
      simp only [Request.serve, hout]
      exact hbs.freeSet_allocate hout
    | error e =>
      simp only [Request.serve, hout]
  · cases hout : (s.pool.release s.memory start n).outcome with
    | ok result =>
      simp only [Request.serve, hout]
      exact hbs.freeSet_release hout
    | error e =>
      simp only [Request.serve, hout]
  · cases hout : (s.pool.release s.memory start n).outcome with
    | error e => exact ⟨e, rfl⟩
    | ok result =>
      -- The words of a release that succeeds were not free.
      obtain ⟨a, rfl, hdisjoint, -⟩ := hbs.freeSet_release hout
      obtain ⟨i, hi, hle, hlt⟩ := hfree
      refine absurd hi (Finset.disjoint_left.mp hdisjoint ?_)
      rw [Address.toInt_toWord] at hle hlt
      rw [List.mem_toFinset, Span.mem_words]
      show a.index ≤ i ∧ i < a.index + (max n minBlockSize).toInt.toNat
      omega

/-- After an allocation of three words from a pool over the words `4` to `13`, the live block is
    `⟨4, 3⟩`, the words `7` to `13` are free, and a release that meets one of them is refused. -/
theorem history_exact_three_of_ten :
    ∃ s, History .user ⟨4, 13⟩ s ∧ s.live = [⟨4, 3⟩] ∧ s.free = {7, 8, 9, 10, 11, 12, 13}
      ∧ (∀ t ∈ s.live, Disjoint t.words.toFinset s.free)
      ∧ ∃ e, (s.pool.release s.memory 6 2).outcome = .error e := by
  have hr : Region.Fits ⟨4, 13⟩ := ⟨by decide, by decide⟩
  have hopen : ((empty .user ⟨4, 13⟩).fill Memory.zero).outcome = .ok
      (⟨.user, ⟨4, 13⟩, .node ⟨4, by decide⟩⟩,
        (Memory.zero.write ⟨4, by decide⟩ (-1)).write ⟨5, by decide⟩ 10) := rfl
  have hs := (History.fill hopen).serve (.allocate 3) trivial
  refine ⟨_, hs, by decide +kernel, by decide +kernel, ?_⟩
  obtain ⟨-, -, -, -, -, htaken, hrefused⟩ := (history_exact .user hr (by decide)).2 _ hs
  exact ⟨htaken, hrefused 6 2 ⟨7, by decide +kernel, by decide, by decide⟩⟩

end Pool

end Timeshare
