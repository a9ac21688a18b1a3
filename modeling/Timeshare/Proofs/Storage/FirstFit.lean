import Timeshare.Proofs.Storage.Confinement

namespace Timeshare

/-!
# Pools whose list is in order

Where the free list of a pool can be read and its blocks do not overlap, the operations of the pool
are operations on that list.

* `FreeBlock.Splits b n left` — when the first `n` words of the block `b` are taken, `left` is what
  is left of it.  Together with the words that were taken it tiles what `b` did
  (`FreeBlock.Splits.tiles`).
* `Pool.allocate_firstFit` — allocation takes the front of the first block that fits.
* `Pool.release_front` — release puts a block in front.
* `Pool.fill_whole` — a new pool is one block.
-/

namespace FreeBlock

variable {b : FreeBlock} {n : Word} {left : List FreeBlock} {r : Region}

/-- What is left of a block when its first words are taken: nothing, or a block behind them. -/
inductive Splits (b : FreeBlock) (n : Word) : List FreeBlock → Prop where
  | whole (h : b.size = n) : Splits b n []
  | front (rest : FreeBlock) (h : n.toInt + 2 ≤ b.size.toInt)
    (hstart : (rest.address.index : Int) = b.address.index + n.toInt)
    (hsize : rest.size.toInt = b.size.toInt - n.toInt) : Splits b n [rest]

/-- Only a block that fits can be cut: `b.Splits n left` implies `b.Fits n`. -/
theorem Splits.fits (h : b.Splits n left) : b.Fits n := by
  cases h with
  | whole h => exact .inl h
  | front rest h _ _ => exact .inr h

/-- The words of a block are the `n` words that are taken, and behind them those of what is left. -/
theorem Splits.words (h : b.Splits n left) (hn : 0 ≤ n.toInt) :
    b.span.words = Span.words ⟨b.address.index, n.toInt.toNat⟩
      ++ left.flatMap fun c => c.span.words := by
  cases h with
  | whole h =>
    rw [span, h, List.flatMap_nil, List.append_nil]
  | front rest h hstart hsize =>
    have hb : b.span = ⟨b.address.index, n.toInt.toNat + rest.size.toInt.toNat⟩ := by
      rw [span, Span.mk.injEq]
      omega
    have hrest : rest.span = ⟨b.address.index + n.toInt.toNat, rest.size.toInt.toNat⟩ := by
      rw [span, Span.mk.injEq]
      omega
    rw [List.flatMap_singleton, hb, hrest]
    exact Span.words_append.symm

/-- Where `b` is a piece of a tiling, the words that are taken and the blocks `left` tile the whole
    in its place. -/
theorem Splits.tiles (h : b.Splits n left) (hn : 0 ≤ n.toInt) {before after : List Span}
    {whole : Span} (ht : Tiles (before ++ b.span :: after) whole) :
    Tiles (⟨b.address.index, n.toInt.toNat⟩ :: (before ++ left.map span ++ after)) whole := by
  have hfront : Tiles (b.span :: (before ++ after)) whole := ht.perm List.perm_middle.symm
  -- What is left stands in front of the other pieces first, and then where the block was.
  have hleft : Tiles (⟨b.address.index, n.toInt.toNat⟩ :: (left.map span ++ (before ++ after)))
      whole := by
    rw [Tiles, List.flatMap_cons, h.words hn, List.append_assoc] at hfront
    rwa [Tiles, List.flatMap_cons, List.flatMap_append, List.flatMap_map]
  refine hleft.perm (List.Perm.cons _ ?_)
  rw [← List.append_assoc]
  exact List.perm_append_comm.append_right after

end FreeBlock

namespace Pool

variable {p : Pool} {m : Memory}

/-! ### The search -/

/-- The address of the last block looked at. -/
def lastAddress (previous : Option Address) (skipped : List FreeBlock) : Option Address :=
  match skipped.getLast? with
  | none => previous
  | some b => some b.address

/-- Passing over one more block makes it the last one, unless others follow. -/
theorem lastAddress_cons (previous : Option Address) (b : FreeBlock) (bs : List FreeBlock) :
    lastAddress previous (b :: bs) = lastAddress (some b.address) bs := by
  unfold lastAddress
  rw [List.getLast?_cons]
  cases bs.getLast? <;> rfl

/-- From the list `bs` on, the search either finds that no block fits and fails with `noFreeMemory`,
    or cuts `bs` into `skipped`, the first block `b` that fits, and `rest`, and takes from `b`. -/
theorem allocateFrom_search (previous : Option Address) (hr : p.region.Fits) {size : Word}
    (hsize : 0 ≤ size.toInt) {fuel : Nat} {node : Address} {bs : List FreeBlock}
    (hbs : FreeChain p.region m (.node node) bs) (hfuel : bs.length ≤ fuel) :
    ((∀ b ∈ bs, ¬ b.Fits size)
        ∧ (p.allocateFrom m size fuel previous node).outcome = .error .noFreeMemory) ∨
      ∃ skipped b rest next left, bs = skipped ++ b :: rest ∧ (∀ c ∈ skipped, ¬ c.Fits size)
        ∧ b.Node p.region m next
        ∧ remainder? m b.address next b.size size = some (.ok left)
        ∧ (p.allocateFrom m size fuel previous node).outcome
          = .ok (p.takeFrom (lastAddress previous skipped) b.address left) := by
  -- By induction on the fuel: the list that is left gets shorter with each block passed over.
  induction fuel generalizing previous node bs with
  | zero =>
    obtain ⟨b, rest, next, rfl, -⟩ := hbs.exists_cons
    exact absurd hfuel (by simp)
  | succ fuel ih =>
    obtain ⟨b, rest, next, rfl, rfl, hnode, hrest⟩ := hbs.exists_cons
    have hread := (readNode_eq_ok_iff hr).mpr hnode
    -- A block that fits ends the search, whatever is left of it.
    have htake : ∀ left, remainder? m b.address next b.size size = some (.ok left) →
        (p.allocateFrom m size (fuel + 1) previous b.address).outcome
          = .ok (p.takeFrom previous b.address left) := by
      intro left hleft
      rw [outcome_allocateFrom_succ, hread, ok_bind]
      simp only [hleft]
      rfl
    rcases remainder?_cases m next hr hnode.within hsize with
      ⟨-, hrem⟩ | ⟨-, _, _, -, -, -, -, -, hrem⟩ | ⟨hfits, hrem⟩
    · exact .inr ⟨[], b, rest, next, _, rfl, by simp, hnode, hrem, htake _ hrem⟩
    · exact .inr ⟨[], b, rest, next, _, rfl, by simp, hnode, hrem, htake _ hrem⟩
    · -- The block is passed over.
      rw [outcome_allocateFrom_succ, hread, ok_bind]
      simp only [hrem]
      cases next with
      | none =>
        obtain rfl := hrest.eq_nil
        exact .inl ⟨by simpa using hfits, rfl⟩
      | node following =>
        rcases ih (some b.address) hrest (Nat.le_of_succ_le_succ hfuel) with
          ⟨hnone, hout⟩ | ⟨skipped, c, after, next, left, rfl, hskipped, hc, hleft, hout⟩
        · exact .inl ⟨List.forall_mem_cons.mpr ⟨hfits, hnone⟩, hout⟩
        · refine .inr ⟨b :: skipped, c, after, next, left, rfl,
            List.forall_mem_cons.mpr ⟨hfits, hskipped⟩, hc, hleft, ?_⟩
          rw [lastAddress_cons]
          exact hout

/-! ### The list afterwards -/

/-- If `remainder?` succeeds, then the block splits into what is taken and the blocks `bs` that are
    left, nothing is written but their nodes, and on every memory `n` that keeps the block, its
    first word apart, the link that is left leads through `bs` to the next block. -/
theorem remainder?_splits {b : FreeBlock} {next : Link} {size : Word} {left : Link × Memory}
    (hr : p.region.Fits) (hb : b.Within p.region) (hsize : 2 ≤ size.toInt)
    (h : remainder? m b.address next b.size size = some (.ok left)) :
    ∃ bs, b.Splits size bs ∧ (∀ c ∈ bs, ∀ a ∈ c.nodeSpan, a ∈ b.span)
      ∧ Memory.SameOn (fun a => ∀ c ∈ bs, a ∉ c.nodeSpan) m left.2
      ∧ ∀ n, Memory.SameOn (fun a => a ∈ b.span ∧ a ≠ b.address) left.2 n →
        Chain FreeBlock.address (FreeBlock.Node p.region n) left.1 bs next := by
  have hpos : 0 ≤ size.toInt := by omega
  rcases remainder?_cases m next hr hb hpos with
    ⟨heq, hrem⟩ | ⟨hlt, rest, second, hrest, hsecond, hindex, hmem, hmem', hrem⟩ | ⟨-, hrem⟩
  · rw [hrem, Option.some.injEq, Except.ok.injEq] at h
    subst h
    exact ⟨[], .whole heq, by simp, Memory.SameOn.refl _ m, fun n _ => rfl⟩
  · rw [hrem, Option.some.injEq, Except.ok.injEq] at h
    subst h
    have hleft := hb.toInt_sub hr hpos
    have hnext := Address.offset_one_eq_some_iff.mp hsecond
    -- None of the two words of the new node is the first of the block, which is overwritten later.
    have hne : second ≠ rest := fun h => by rw [h] at hnext; omega
    have hrestne : rest ≠ b.address := fun h => by rw [h] at hindex; omega
    have hsecondne : second ≠ b.address := fun h => by rw [h] at hnext; omega
    refine ⟨[⟨rest, b.size - size⟩], .front _ hlt hindex hleft, ?_, ?_, fun n hn => ?_⟩
    · intro c hc a ha
      obtain rfl := List.mem_singleton.mp hc
      -- The node is the word at `rest` and the one behind it.
      have ha' : rest.index ≤ a.index ∧ a.index < rest.index + 2 := Span.mem_iff.mp ha
      have hle := Span.mem_iff.mp hmem
      have hlt := Span.mem_iff.mp hmem'
      rw [Span.mem_iff]
      omega
    · exact (FreeBlock.sameOn_nodeSpan (b := ⟨rest, b.size - size⟩) m hsecond _ _).mono
        fun a ha => ha _ (List.mem_singleton.mpr rfl)
    · refine ⟨rfl, next, ⟨⟨?_, ?_, ?_⟩, ?_, second, hsecond, ?_⟩, rfl⟩
      · show 2 ≤ (b.size - size).toInt
        omega
      · show p.region.start.toNat ≤ rest.index
        have := hb.start_le
        omega
      · show (rest.index : Int) + (b.size - size).toInt ≤ _
        have := hb.le_last
        omega
      · show Link.ofWord (n.read rest) = .ok next
        rw [← hn rest ⟨hmem, hrestne⟩, Memory.read_write_of_ne _ _ hne, Memory.read_write_self,
          Link.ofWord_toWord]
      · rw [← hn second ⟨hmem', hsecondne⟩, Memory.read_write_self]
  · rw [hrem] at h
    exact absurd h (by simp)

/-- What `takeFrom` does: the head or the link of the last block passed over becomes the link that
    is left, and the first word of the block ends its link.  No other word changes. -/
theorem takeFrom_eq (p : Pool) (skipped : List FreeBlock) {b : FreeBlock} {left : Link × Memory}
    {same : Address → Prop} (hframe : Memory.SameOn same m left.2) (hb : b.address ∈ b.span)
    (hlast : ∀ c ∈ skipped.getLast?, c.address ∉ b.span) :
    ∃ m', p.takeFrom (lastAddress none skipped) b.address left
        = (b.address, { p with head := relinked skipped p.head left.1 }, m')
      ∧ Memory.SameOn
        (fun a => same a ∧ a ≠ b.address ∧ ∀ c ∈ skipped.getLast?, a ≠ c.address) m m'
      ∧ Memory.SameOn (fun a => a ∈ b.span ∧ a ≠ b.address) left.2 m'
      ∧ ∀ c ∈ skipped.getLast?, m'.read c.address = left.1.toWord := by
  obtain ⟨link, n⟩ := left
  -- The last write ends the link of the block that is handed out.
  have hend : ∀ n : Memory, Memory.SameOn (· ≠ b.address) n (n.write b.address Link.endWord) :=
    fun n => Memory.sameOn_write (not_not_intro rfl)
  -- If no block was passed over then the head changes, and else a link in memory.
  cases hc : skipped.getLast? with
  | none =>
    refine ⟨n.write b.address Link.endWord, ?_, ?_, ?_, by simp⟩
    · rw [lastAddress, relinked, hc]
      rfl
    · exact (hframe.mono fun a ha => ha.1).trans ((hend n).mono fun a ha => ha.2.1)
    · exact (hend n).mono fun a ha => ha.2
  | some c =>
    have hcb := hlast c hc
    have hlink : Memory.SameOn (· ≠ c.address) n (n.write c.address link.toWord) :=
      Memory.sameOn_write (not_not_intro rfl)
    refine ⟨(n.write c.address link.toWord).write b.address Link.endWord, ?_, ?_, ?_, ?_⟩
    · rw [lastAddress, relinked, hc]
      rfl
    · intro a ha
      have hne : a ≠ c.address := ha.2.2 c rfl
      rw [hframe a ha.1, hlink a hne]
      exact hend _ a ha.2.1
    · intro a ha
      have hne : a ≠ c.address := fun h => hcb (h ▸ ha.1)
      rw [show n.read a = _ from hlink a hne]
      exact hend _ a ha.2
    · intro d hd
      obtain rfl := Option.some.inj hd
      have hne : b.address ≠ c.address := fun h => hcb (h ▸ hb)
      rw [Memory.read_write_of_ne _ _ hne, Memory.read_write_self]

/-- Taking the front of a block out of a list in order: afterwards the free list is
    `skipped ++ bs ++ rest`, where `b` has split into `bs`, and what has changed are the nodes of
    `bs`, the first word of `b`, and the link of the last block of `skipped`. -/
theorem takeFrom_chain {skipped rest : List FreeBlock} {b : FreeBlock} {next : Link} {size : Word}
    {left : Link × Memory} (hr : p.region.Fits) (hsize : 2 ≤ size.toInt)
    (hfront : Chain FreeBlock.address (FreeBlock.Node p.region m) p.head skipped (.node b.address))
    (hb : b.Node p.region m next) (hrest : FreeChain p.region m next rest)
    (hsep : Separate FreeBlock.span (skipped ++ b :: rest))
    (hleft : remainder? m b.address next b.size size = some (.ok left)) :
    ∃ bs head m', b.Splits size bs
      ∧ p.takeFrom (lastAddress none skipped) b.address left = (b.address, { p with head }, m')
      ∧ FreeChain p.region m' head (skipped ++ bs ++ rest)
      ∧ (∀ c ∈ bs, ∀ a ∈ c.nodeSpan, a ∈ b.span)
      ∧ Memory.SameOn (fun a => (∀ c ∈ bs, a ∉ c.nodeSpan) ∧ a ≠ b.address
        ∧ ∀ c ∈ skipped.getLast?, a ≠ c.address) m m' := by
  obtain ⟨hskipped, hbrest, hcross⟩ := List.pairwise_append.mp hsep
  obtain ⟨hbr, -⟩ := List.pairwise_cons.mp hbrest
  have hfw := hfront.within
  have hmem : ∀ c ∈ skipped.getLast?, c ∈ skipped := fun c hc => List.mem_of_getLast? hc
  have hlastb : ∀ c ∈ skipped.getLast?, ∀ a ∈ c.span, a ∉ b.span := fun c hc a ha =>
    (hcross c (hmem c hc) b List.mem_cons_self).not_mem ha
  obtain ⟨bs, hsplits, hnode, hframe, hmid⟩ := remainder?_splits hr hb.within hsize hleft
  obtain ⟨m', htake, hexact, hinside, hlink⟩ := takeFrom_eq p skipped hframe
    hb.within.address_mem_span fun c hc =>
      hlastb c hc _ (hfw c (hmem c hc)).address_mem_span
  refine ⟨bs, _, m', hsplits, htake, ?_, hnode, hexact⟩
  -- Of the words outside the block, one link may have changed.
  have hsame : Memory.SameOn (fun a => a ∉ b.span ∧ ∀ c ∈ skipped.getLast?, a ≠ c.address) m m' := by
    refine hexact.mono fun a ha => ⟨fun c hc hac => ha.1 (hnode c hc a hac), ?_, ha.2⟩
    rintro rfl
    exact ha.1 hb.within.address_mem_span
  rw [List.append_assoc]
  -- The list has three parts: what was passed over, what is left of the block, and the rest.
  refine chain_append.mpr ⟨left.1, hfront.relink ?_ ?_, chain_append.mpr ⟨next, hmid m' hinside, ?_⟩⟩
  · intro c hc next' hnode
    refine hnode.congr (hsame.mono fun a ha => ⟨?_, ?_⟩)
    · exact (hcross c (List.dropLast_subset _ hc) b List.mem_cons_self).not_mem ha
    · rintro d hd rfl
      exact (Separate.last hskipped hc hd).not_mem ha (hfw d (hmem d hd)).address_mem_span
  · -- The last block before the gap links to what follows now; its size is where it was.
    intro c hc next' hnode
    obtain ⟨second, hsecond, hsz⟩ := hnode.size
    refine ⟨hnode.within, by rw [hlink c hc, Link.ofWord_toWord], second, hsecond, ?_⟩
    rw [← hsame second ⟨?_, ?_⟩, hsz]
    · exact hlastb c hc _ (hnode.within.second_mem_span hsecond)
    · rintro d hd h
      obtain rfl : c = d := Option.some.inj (hc.symm.trans hd)
      rw [Address.offset_one_eq_some_iff, h] at hsecond
      omega
  · refine hrest.congr_blocks fun c hc => hsame.mono fun a ha => ⟨?_, ?_⟩
    · exact (hbr c hc).symm.not_mem ha
    · rintro d hd rfl
      exact (hcross d (hmem d hd) c (List.mem_cons_of_mem _ hc)).symm.not_mem ha
        (hfw d (hmem d hd)).address_mem_span

/-! ### The operations -/

/-- **First fit.**  From a list in order, `Pool.allocate` takes the front of the first block that
    fits, and what is left of the block takes its place; without such a block the fault is
    `noFreeMemory`.  Three things are written: the node of what is left, the first word of the
    block, and the link of the block before. -/
theorem allocate_firstFit (hr : p.region.Fits) {bs : List FreeBlock}
    (hbs : FreeChain p.region m p.head bs) (hlen : bs.length ≤ p.maxNodes)
    (hsep : Separate FreeBlock.span bs) {requested : Word} (hreq : 1 ≤ requested.toInt) :
    ((∀ b ∈ bs, ¬ b.Fits (max requested minBlockSize))
        ∧ (p.allocate m requested).outcome = .error .noFreeMemory) ∨
      ∃ skipped b rest left head m', bs = skipped ++ b :: rest
        ∧ (∀ c ∈ skipped, ¬ c.Fits (max requested minBlockSize))
        ∧ b.Splits (max requested minBlockSize) left
        ∧ (p.allocate m requested).outcome = .ok (b.address, { p with head }, m')
        ∧ FreeChain p.region m' head (skipped ++ left ++ rest)
        ∧ (∀ c ∈ left, ∀ a ∈ c.nodeSpan, a ∈ b.span)
        ∧ Memory.SameOn (fun a => (∀ c ∈ left, a ∉ c.nodeSpan) ∧ a ≠ b.address
          ∧ ∀ c ∈ skipped.getLast?, a ≠ c.address) m m' := by
  have hsize := two_le_max requested
  have hpos : 0 ≤ (max requested minBlockSize).toInt := by omega
  have hone : ¬ requested < 1 := by
    rw [Int64.lt_iff_toInt_lt, Int.not_lt]
    exact hreq
  rw [outcome_allocate]
  cases hhead : p.head with
  | none =>
    rw [hhead] at hbs
    obtain rfl := hbs.eq_nil
    exact .inl ⟨by simp, rfl⟩
  | node first =>
    simp only [hone, if_false]
    rw [hhead] at hbs
    rcases allocateFrom_search none hr hpos hbs hlen with
      ⟨hnone, hout⟩ | ⟨skipped, b, rest, next, left, rfl, hskipped, hb, hleft, hout⟩
    · exact .inl ⟨hnone, hout⟩
    · obtain ⟨mid, hfront, hmid, next', hb', hrest⟩ := chain_append.mp hbs
      -- The block has one link, however it was found.
      obtain rfl : next = next' := Except.ok.inj (hb.link.symm.trans hb'.link)
      rw [← hhead, hmid] at hfront
      obtain ⟨bs, head, m', hsplits, htake, hchain, hnode, hframe⟩ :=
        takeFrom_chain hr hsize hfront hb hrest hsep hleft
      exact .inr ⟨skipped, b, rest, bs, head, m', rfl, hskipped, hsplits,
        hout.trans (congrArg Except.ok htake), hchain, hnode, hframe⟩

/-! ### Failures -/

/-- If the search fails, then either with `noFreeMemory`, and the list has been read and no block of
    it fits, or with `invalidMemoryAddress`, and reading the list fails as well. -/
theorem allocateFrom_error (hr : p.region.Fits) {size : Word} (hsize : 0 ≤ size.toInt) {fuel : Nat}
    {previous : Option Address} {node : Address} {e : Fault}
    (h : (p.allocateFrom m size fuel previous node).outcome = .error e) :
    (e = .noFreeMemory ∧ ∃ bs, (p.blocksFrom m fuel (.node node)).outcome = .ok bs
        ∧ ∀ b ∈ bs, ¬ b.Fits size) ∨
      (e = .invalidMemoryAddress ∧ (p.blocksFrom m fuel (.node node)).outcome = .error e) := by
  induction fuel generalizing previous node with
  | zero =>
    rw [outcome_allocateFrom_zero] at h
    obtain rfl := Except.error.inj h
    exact .inr ⟨rfl, rfl⟩
  | succ fuel ih =>
    -- One step of reading the list, beside one step of the search.
    have hblocks : (p.blocksFrom m (fuel + 1) (.node node)).outcome =
        (p.readNode m node).outcome >>= fun r =>
          (p.blocksFrom m fuel r.1).outcome >>= fun rest => .ok (⟨node, r.2⟩ :: rest) := by
      simp only [blocksFrom, Attempt.outcome_seq, Attempt.outcome_pure]
    rw [outcome_allocateFrom_succ] at h
    rw [hblocks]
    rcases bind_eq_error_iff.mp h with hread | ⟨⟨next, blockSize⟩, hread, h⟩
    · -- Both walks read the same node, and both stop here.
      obtain rfl := readNode_error hread
      rw [hread, error_bind]
      exact .inr ⟨rfl, rfl⟩
    rw [hread, ok_bind]
    have hb := ((readNode_eq_ok_iff hr).mp hread).within
    rcases remainder?_cases m next hr hb hsize with
      ⟨-, hrem⟩ | ⟨-, _, _, -, -, -, -, -, hrem⟩ | ⟨hfits, hrem⟩ <;>
      simp only at hrem <;> simp only [hrem] at h
    · exact absurd h (by simp)
    · exact absurd h (by simp)
    · -- The block is passed over.
      cases next with
      | none =>
        obtain rfl := Except.error.inj h
        refine .inl ⟨rfl, [⟨node, blockSize⟩], ?_, by simpa using hfits⟩
        cases fuel <;> rfl
      | node following =>
        rcases ih h with ⟨rfl, bs, hbs, hnone⟩ | ⟨he, hbs⟩
        · refine .inl ⟨rfl, ⟨node, blockSize⟩ :: bs, ?_, List.forall_mem_cons.mpr ⟨hfits, hnone⟩⟩
          simp only [hbs, ok_bind]
        · refine .inr ⟨he, ?_⟩
          simp only [hbs, error_bind]

/-- **Why allocation fails.**  If `Pool.allocate` fails, then either with `noFreeMemory`, and no
    free block fits, or with `invalidMemoryAddress`, and the list of free blocks is damaged. -/
theorem allocate_error (hr : p.region.Fits) {requested : Word} (hreq : 1 ≤ requested.toInt)
    {e : Fault} (h : (p.allocate m requested).outcome = .error e) :
    (e = .noFreeMemory ∧ ∃ bs, (p.blocks m).outcome = .ok bs
        ∧ ∀ b ∈ bs, ¬ b.Fits (max requested minBlockSize)) ∨
      (e = .invalidMemoryAddress ∧ (p.blocks m).outcome = .error e) := by
  have hsize := two_le_max requested
  have hone : ¬ requested < 1 := by
    rw [Int64.lt_iff_toInt_lt, Int.not_lt]
    exact hreq
  rw [outcome_allocate] at h
  rw [blocks]
  -- An empty list has no block that could fit; otherwise the search decides.
  cases hhead : p.head with
  | none =>
    simp only [hhead] at h
    obtain rfl := Except.error.inj h
    exact .inl ⟨rfl, [], by cases p.maxNodes <;> rfl, by simp⟩
  | node first =>
    simp only [hhead, hone, if_false] at h
    exact allocateFrom_error hr (by omega) h

/-! ### Release and new pools -/

/-- **Release.**  A block of the region that is apart from all free blocks becomes the first of the
    list: `Pool.release` succeeds, the list is `b :: bs`, and only the node of `b` is written. -/
theorem release_front (hr : p.region.Fits) {bs : List FreeBlock}
    (hbs : FreeChain p.region m p.head bs) (hlen : bs.length ≤ p.maxNodes) {b : FreeBlock}
    (hb : b.Within p.region) (hsep : ∀ c ∈ bs, b.span.Apart c.span) {requested : Word}
    (hsize : b.size = releasedSize requested) :
    ∃ m', (p.release m b.address.toWord requested).outcome
        = .ok ({ p with head := .node b.address }, m')
      ∧ FreeChain p.region m' (.node b.address) (b :: bs)
      ∧ Memory.SameOn (· ∉ b.nodeSpan) m m' := by
  obtain ⟨second, hsecond⟩ := hb.exists_second hr
  have hne : b.address ≠ second := by
    rw [Address.offset_one_eq_some_iff] at hsecond
    intro h
    rw [← h] at hsecond
    omega
  -- The two words of the node lie inside the block, apart from all free blocks.
  have hframe := FreeBlock.sameOn_nodeSpan m hsecond p.head.toWord b.size
  refine ⟨_, (release_eq_ok_iff hr).mpr ⟨b, second, bs, hb, rfl, hsize,
    (blocks_eq_ok_iff hr).mpr ⟨hbs, hlen⟩, hsep, hsecond, rfl, rfl⟩, ?_, hframe⟩
  refine ⟨rfl, p.head, ⟨hb, ?_, second, hsecond, Memory.read_write_self _ _ _⟩, ?_⟩
  · rw [Memory.read_write_of_ne _ _ hne.symm, Memory.read_write_self, Link.ofWord_toWord]
  · exact hbs.congr_blocks fun c hc => hframe.mono fun a ha hab =>
      (hsep c hc).symm.not_mem ha (hb.mem_span_of_nodeSpan hab)

/-- **A new pool is one free block.**  If the region has two words or more, then `Pool.fill`
    succeeds, the list is `[b]` with `b.span = p.region.span`, and no word outside the region
    changes. -/
theorem fill_whole (hr : p.region.Fits) (hlen : 2 ≤ p.region.length.toNat) :
    ∃ b m', (p.fill m).outcome = .ok ({ p with head := .node b.address }, m')
      ∧ b.span = p.region.span ∧ FreeChain p.region m' (.node b.address) [b]
      ∧ Memory.SameOn (· ∉ p.region) m m' := by
  obtain ⟨start, hstart, hindex⟩ := hr.first
  have hsize := hr.length_toInt
  have hnat := hr.length_toNat
  have hb : FreeBlock.Within ⟨start, p.region.length.toInt64⟩ p.region := by
    have := hr.start_le
    refine ⟨?_, ?_, ?_⟩
    · show 2 ≤ p.region.length.toInt64.toInt
      omega
    · show p.region.start.toNat ≤ start.index
      omega
    · show (start.index : Int) + p.region.length.toInt64.toInt ≤ _
      omega
  -- The node of the block takes the first two words of the region.
  obtain ⟨second, hsecond⟩ := hb.exists_second hr
  have hmem := hb.mem_of_span (hb.second_mem_span hsecond)
  have hne : second ≠ start := by
    have hindex' : second.index = start.index + 1 := Address.offset_one_eq_some_iff.mp hsecond
    intro h
    rw [h] at hindex'
    omega
  refine ⟨⟨start, p.region.length.toInt64⟩,
    (m.write start Link.none.toWord).write second p.region.length.toInt64, ?_, ?_,
    ⟨rfl, .none, ⟨hb, ?_, second, hsecond, Memory.read_write_self _ _ _⟩, rfl⟩,
    (Memory.sameOn_not_write hb.mem).trans (Memory.sameOn_not_write hmem)⟩
  · simp only [fill, hstart, Attempt.outcome_ofExcept_bind, writeNode_eq_ok hsecond, ok_bind,
      Attempt.outcome_note_bind, Attempt.outcome_pure]
  · rw [FreeBlock.span, Region.span, Span.mk.injEq]
    exact ⟨hindex, by show p.region.length.toInt64.toInt.toNat = _; omega⟩
  · rw [Memory.read_write_of_ne _ _ hne, Memory.read_write_self, Link.ofWord_toWord]

end Pool

end Timeshare
