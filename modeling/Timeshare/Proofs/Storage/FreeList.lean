import Timeshare.Storage.Pool
import Timeshare.Proofs.Action
import Timeshare.Proofs.Chain
import Timeshare.Proofs.Memory

namespace Timeshare

/-!
# Free lists

What a free list is, as a statement about memory, and that `Pool.blocks` reads it off.

* `FreeBlock.Within b r` — the block `b` is large enough for a node and lies in the region `r`;
  `FreeBlock.Node r m b next` — moreover its node stands in the memory `m` and links to `next`.
  `FreeBlock.nodeSpan` are the two words that the node takes.
* `FreeChain r m l bs` — the free blocks from the link `l` on are `bs`.
* `Pool.readNode_eq_ok_iff`, `Pool.blocks_eq_ok_iff` — reading a node or the list succeeds exactly
  where there is one.  Every failure is the same fault (`Pool.readNode_error`).
* `Pool.readNode_congr`, `Pool.blocks_congr` — what is read depends on the words of the region
  alone, also where a link leads out of it.
-/

/-- A word that is no link is always the fault `invalidMemoryAddress`. -/
theorem Link.ofWord_error {w : Word} {e : Fault} (h : Link.ofWord w = .error e) :
    e = .invalidMemoryAddress := by
  unfold Link.ofWord Address.ofWord at h
  split at h
  · exact absurd h (by simp)
  · cases ha : Address.ofWord? w with
    | some a => rw [ha] at h; exact absurd h (by simp [Except.map])
    | none => rw [ha] at h; exact (Except.error.inj h).symm

namespace Address

/-- The address `d` words behind `a` is `b` iff the indices are `d` apart. -/
theorem offset_eq_some_iff {a b : Address} {d : Word} :
    a.offset d = some b ↔ (a.index : Int) + d.toInt = b.index := ofInt?_eq_some_iff

/-- The address behind `a` is the one with the next index. -/
theorem offset_one_eq_some_iff {a b : Address} :
    a.offset 1 = some b ↔ b.index = a.index + 1 := by
  rw [offset_eq_some_iff]
  show (a.index : Int) + 1 = b.index ↔ _
  omega

end Address

/-! ### Blocks and their nodes -/

namespace FreeBlock

/-- The words of a block. -/
def span (b : FreeBlock) : Span := ⟨b.address.index, b.size.toInt.toNat⟩

/-- A block is large enough for a node and lies in the region. -/
structure Within (b : FreeBlock) (r : Region) : Prop where
  two_le : 2 ≤ b.size.toInt
  start_le : r.start.toNat ≤ b.address.index
  le_last : (b.address.index : Int) + b.size.toInt ≤ r.last.toNat + 1

/-- The node of a block stands in memory and links to the next block. -/
structure Node (r : Region) (m : Memory) (b : FreeBlock) (next : Link) : Prop where
  within : b.Within r
  link : Link.ofWord (m.read b.address) = .ok next
  size : ∃ a, b.address.offset 1 = some a ∧ m.read a = b.size

variable {b : FreeBlock} {r : Region} {m n : Memory} {next : Link}

/-- The first word of a block in a region is one of the region: `b.address ∈ r`. -/
theorem Within.mem (h : b.Within r) : b.address ∈ r := by
  have := h.two_le
  have := h.start_le
  have := h.le_last
  rw [Region.mem_iff]
  omega

theorem Within.span_pos (h : b.Within r) : 0 < b.span.size := by
  have := h.two_le
  show 0 < b.size.toInt.toNat
  omega

/-- Every word of a block in a region is one of the region: `a ∈ b.span` gives `a ∈ r`. -/
theorem Within.mem_of_span (h : b.Within r) {a : Address} (ha : a ∈ b.span) : a ∈ r := by
  rw [Span.mem_iff] at ha
  have := h.start_le
  have := h.le_last
  have hs : b.span.start = b.address.index := rfl
  have hz : b.span.size = b.size.toInt.toNat := rfl
  rw [Region.mem_iff]
  omega

/-- A block holds its first word, `b.address`, which is that of its link. -/
theorem Within.address_mem_span (h : b.Within r) : b.address ∈ b.span := by
  rw [Span.mem_iff]
  have := h.span_pos
  exact ⟨Nat.le_refl _, by show b.address.index < b.address.index + b.span.size; omega⟩

/-- A block holds the word behind its first one, `b.address.offset 1`, which is that of its size. -/
theorem Within.second_mem_span (h : b.Within r) {a : Address}
    (ha : b.address.offset 1 = some a) : a ∈ b.span := by
  rw [Address.offset_one_eq_some_iff] at ha
  rw [Span.mem_iff, ha]
  have := h.two_le
  show b.address.index ≤ b.address.index + 1
    ∧ b.address.index + 1 < b.address.index + b.size.toInt.toNat
  omega

/-- The words of a block that make it one of the list: its link and its size. -/
def nodeSpan (b : FreeBlock) : Span := ⟨b.address.index, 2⟩

theorem address_mem_nodeSpan (b : FreeBlock) : b.address ∈ b.nodeSpan := by
  rw [Span.mem_iff]
  show b.address.index ≤ b.address.index ∧ b.address.index < b.address.index + 2
  omega

/-- A block has room for its node: each word of `b.nodeSpan` is one of `b.span`. -/
theorem Within.mem_span_of_nodeSpan (h : b.Within r) {a : Address} (ha : a ∈ b.nodeSpan) :
    a ∈ b.span := by
  have := h.two_le
  rw [Span.mem_iff] at ha ⊢
  have ha' : b.address.index ≤ a.index ∧ a.index < b.address.index + 2 := ha
  show b.address.index ≤ a.index ∧ a.index < b.address.index + b.size.toInt.toNat
  omega

/-- The two writes that make a block one of the list change no word outside `b.nodeSpan`. -/
theorem sameOn_nodeSpan (m : Memory) {second : Address} (h : b.address.offset 1 = some second)
    (link size : Word) :
    Memory.SameOn (· ∉ b.nodeSpan) m ((m.write b.address link).write second size) := by
  have hsecond : second ∈ b.nodeSpan := by
    rw [Address.offset_one_eq_some_iff] at h
    rw [Span.mem_iff, h]
    show b.address.index ≤ b.address.index + 1 ∧ b.address.index + 1 < b.address.index + 2
    omega
  exact (Memory.sameOn_not_write b.address_mem_nodeSpan).trans (Memory.sameOn_not_write hsecond)

/-- A node stays what it is as long as the words of `b.span` do. -/
theorem Node.congr (h : Node r m b next) (hmn : Memory.SameOn (· ∈ b.span) m n) :
    Node r n b next := by
  obtain ⟨a, ha, hsize⟩ := h.size
  refine ⟨h.within, ?_, a, ha, ?_⟩
  · rw [← hmn _ h.within.address_mem_span]
    exact h.link
  · rw [← hmn _ (h.within.second_mem_span ha)]
    exact hsize

end FreeBlock

/-- The free blocks from a link on. -/
abbrev FreeChain (r : Region) (m : Memory) (l : Link) (bs : List FreeBlock) : Prop :=
  Chain FreeBlock.address (FreeBlock.Node r m) l bs .none

/-- All blocks of a free list lie in its region. -/
theorem Chain.within {r : Region} {m : Memory} {l l' : Link} {bs : List FreeBlock}
    (h : Chain FreeBlock.address (FreeBlock.Node r m) l bs l') :
    ∀ b ∈ bs, b.Within r := by
  induction bs generalizing l with
  | nil => simp
  | cons b bs ih =>
    obtain ⟨_, next, hb, hrest⟩ := h
    intro c hc
    rcases List.mem_cons.mp hc with rfl | hc
    · exact hb.within
    · exact ih hrest c hc

/-- A free list stays one as long as the words of its blocks `bs` do. -/
theorem Chain.congr_blocks {r : Region} {m n : Memory} {l l' : Link} {bs : List FreeBlock}
    (h : Chain FreeBlock.address (FreeBlock.Node r m) l bs l')
    (hmn : ∀ b ∈ bs, Memory.SameOn (· ∈ b.span) m n) :
    Chain FreeBlock.address (FreeBlock.Node r n) l bs l' :=
  h.imp fun b hb _ hnode => hnode.congr (hmn b hb)

namespace Pool

variable {p : Pool} {m n : Memory}

/-! ### Reading a node -/

/-- The word for the size is the one behind the address of the node: `node.offset 1`. -/
theorem sizeAddress_eq_ok_iff {node a : Address} :
    sizeAddress node = .ok a ↔ node.offset 1 = some a := by
  unfold sizeAddress
  cases node.offset 1 <;> simp

/-- A node at the last word of memory has no word for its size, which is the fault
    `invalidMemoryAddress`. -/
theorem sizeAddress_error {node : Address} {e : Fault} (h : sizeAddress node = .error e) :
    e = .invalidMemoryAddress := by
  unfold sizeAddress at h
  split at h
  · exact absurd h (by simp)
  · exact (Except.error.inj h).symm

theorem minBlockSize_toInt : minBlockSize.toInt = 2 := by decide

/-- Reading a node: its link, then its size, then the check of the size. -/
theorem outcome_readNode (node : Address) :
    (p.readNode m node).outcome = (do
      let next ← Link.ofWord (m.read node)
      let a ← sizeAddress node
      if m.read a < minBlockSize || !p.region.containsSpan node.toWord (m.read a) then
        .error .invalidMemoryAddress
      else
        .ok (next, m.read a)) := by
  unfold readNode
  rw [Attempt.outcome_ofExcept_bind]
  congr 1
  funext next
  rw [Attempt.outcome_ofExcept_bind]
  congr 1
  funext a
  split
  · rename_i h
    simp only [h, if_true, Attempt.outcome_note_bind, Attempt.outcome_throw_bind]
  · rename_i h
    simp only [h, if_false, Bool.false_eq_true, Attempt.outcome_pure]

/-- Reading a node that is not one is always the fault `invalidMemoryAddress`. -/
theorem readNode_error {node : Address} {e : Fault} (h : (p.readNode m node).outcome = .error e) :
    e = .invalidMemoryAddress := by
  rw [outcome_readNode] at h
  rcases bind_eq_error_iff.mp h with h | ⟨next, -, h⟩
  · exact Link.ofWord_error h
  rcases bind_eq_error_iff.mp h with h | ⟨a, -, h⟩
  · exact sizeAddress_error h
  split at h
  · exact (Except.error.inj h).symm
  · exact absurd h (by simp)

/-- Reading a node gives `(next, size)` iff `⟨node, size⟩` is a `FreeBlock.Node` that links to
    `next`. -/
theorem readNode_eq_ok_iff (hr : p.region.Fits) {node : Address} {next : Link} {size : Word} :
    (p.readNode m node).outcome = .ok (next, size) ↔
      FreeBlock.Node p.region m ⟨node, size⟩ next := by
  -- A size passes the check exactly if it makes a block of the region.
  have hgood : ∀ w : Word, ¬ ((w < minBlockSize || !p.region.containsSpan node.toWord w) = true) ↔
      FreeBlock.Within ⟨node, w⟩ p.region := by
    intro w
    simp only [Bool.or_eq_true, decide_eq_true_eq, Int64.lt_iff_toInt_lt, minBlockSize_toInt,
      Bool.not_eq_true', not_or, Int.not_lt, Bool.not_eq_false, hr.containsSpan_toWord]
    constructor
    · rintro ⟨h2, -, hs, hl⟩
      exact ⟨h2, hs, hl⟩
    · rintro ⟨h2, hs, hl⟩
      have h2' : 2 ≤ w.toInt := h2
      exact ⟨h2', by omega, hs, hl⟩
  rw [outcome_readNode, bind_eq_ok_iff]
  constructor
  · rintro ⟨next', hlink, h⟩
    obtain ⟨a, ha, h⟩ := bind_eq_ok_iff.mp h
    split at h
    · exact absurd h (by simp)
    · rename_i hw
      rw [Except.ok.injEq, Prod.mk.injEq] at h
      obtain ⟨rfl, rfl⟩ := h
      exact ⟨(hgood _).mp hw, hlink, a, sizeAddress_eq_ok_iff.mp ha, rfl⟩
  · rintro ⟨hwithin, hlink, a, ha, hsize⟩
    refine ⟨next, hlink, bind_eq_ok_iff.mpr ⟨a, sizeAddress_eq_ok_iff.mpr ha, ?_⟩⟩
    have hsize' : m.read a = size := hsize
    rw [hsize', if_neg ((hgood size).mpr hwithin)]

/-- What `readNode` gives depends on the words of the region alone: a node that sticks out is
    refused, whatever stands outside. -/
theorem readNode_congr (hr : p.region.Fits) (hmn : Memory.SameOn (· ∈ p.region) m n)
    (node : Address) : (p.readNode m node).outcome = (p.readNode n node).outcome := by
  -- Reads that succeed are enough: all that fail do so with the same fault.
  have key : ∀ {m n : Memory}, Memory.SameOn (· ∈ p.region) m n → ∀ {r},
      (p.readNode m node).outcome = .ok r → (p.readNode n node).outcome = .ok r := by
    intro m n hmn r h
    rw [readNode_eq_ok_iff hr] at h ⊢
    exact h.congr (hmn.mono fun a ha => h.within.mem_of_span ha)
  cases hm : (p.readNode m node).outcome with
  | ok r => rw [key hmn hm]
  | error e =>
    cases hn : (p.readNode n node).outcome with
    | ok r => rw [key hmn.symm hn] at hm; exact absurd hm (by simp)
    | error e' => rw [readNode_error hm, readNode_error hn]

/-! ### Reading the list -/

/-- From the link `l` on, the blocks `bs` can be read with `fuel` iff they are a free list that
    starts there and has at most `fuel` blocks. -/
theorem blocksFrom_eq_ok_iff (hr : p.region.Fits) {fuel : Nat} {l : Link} {bs : List FreeBlock} :
    (p.blocksFrom m fuel l).outcome = .ok bs ↔ FreeChain p.region m l bs ∧ bs.length ≤ fuel := by
  induction fuel generalizing l bs with
  | zero =>
    cases l with
    | none =>
      simp only [blocksFrom, Attempt.outcome_pure, Except.ok.injEq]
      constructor
      · rintro rfl; exact ⟨rfl, Nat.le_refl _⟩
      · rintro ⟨h, -⟩; exact h.eq_nil.symm
    | node a =>
      -- There is a node and no fuel: a list from here on would have a block.
      simp only [blocksFrom, Attempt.outcome_throw, reduceCtorEq, false_iff, not_and]
      intro h
      obtain ⟨b, rest, next, rfl, -⟩ := h.exists_cons
      simp
  | succ fuel ih =>
    cases l with
    | none =>
      simp only [blocksFrom, Attempt.outcome_pure, Except.ok.injEq]
      constructor
      · rintro rfl; exact ⟨rfl, Nat.zero_le _⟩
      · rintro ⟨h, -⟩; exact h.eq_nil.symm
    | node a =>
      simp only [blocksFrom, Attempt.outcome_seq, bind_eq_ok_iff, Attempt.outcome_pure,
        Except.ok.injEq]
      constructor
      · rintro ⟨⟨next, size⟩, hnode, rest, hrest, rfl⟩
        -- One node is read, and the induction hypothesis reads the rest.
        obtain ⟨hchain, hlen⟩ := ih.mp hrest
        exact ⟨⟨rfl, next, (readNode_eq_ok_iff hr).mp hnode, hchain⟩, Nat.succ_le_succ hlen⟩
      · rintro ⟨h, hlen⟩
        obtain ⟨b, rest, next, rfl, rfl, hnode, hrest⟩ := h.exists_cons
        exact ⟨(next, b.size), (readNode_eq_ok_iff hr).mpr hnode, rest,
          ih.mpr ⟨hrest, Nat.le_of_succ_le_succ hlen⟩, rfl⟩

/-- **The list of free blocks.**  `Pool.blocks` gives `bs` iff `bs` is a free list from `p.head` on
    and has at most `p.maxNodes` blocks, which is as many as the region has room for. -/
theorem blocks_eq_ok_iff (hr : p.region.Fits) {bs : List FreeBlock} :
    (p.blocks m).outcome = .ok bs ↔ FreeChain p.region m p.head bs ∧ bs.length ≤ p.maxNodes :=
  blocksFrom_eq_ok_iff hr

/-- Adding up the sizes of blocks, from `sum` on, does not overflow if memory has room for the
    blocks: the result is `sum` plus the number of their words. -/
theorem toInt_foldl_size {bs : List FreeBlock} {sum : Word} (hsum : 0 ≤ sum.toInt)
    (hbs : ∀ b ∈ bs, 2 ≤ b.size.toInt)
    (hle : sum.toInt + (bs.flatMap fun b => b.span.words).length ≤ memorySize) :
    (bs.foldl (fun sum b => sum + b.size) sum).toInt
      = sum.toInt + (bs.flatMap fun b => b.span.words).length := by
  induction bs generalizing sum with
  | nil => simp
  | cons b bs ih =>
    have hb := hbs b List.mem_cons_self
    have hspan : (b.span.size : Int) = b.size.toInt := Int.toNat_of_nonneg (by omega)
    rw [List.flatMap_cons, List.length_append, Span.length_words, Int.natCast_add, hspan] at hle ⊢
    -- No partial sum is larger than memory.
    have hadd : (sum + b.size).toInt = sum.toInt + b.size.toInt := by
      have hmem : memorySize = 10000 := rfl
      exact Word.toInt_add (by omega) (by omega)
    rw [List.foldl_cons, ih (by omega) (fun c hc => hbs c (List.mem_cons_of_mem _ hc)) (by omega),
      hadd]
    omega

/-- **The number of free words.**  If `bs` are the free blocks, then `Pool.freeWords` succeeds and
    gives the number of the words in `bs`. -/
theorem freeWords_eq_length {bs : List FreeBlock} (h : (p.blocks m).outcome = .ok bs)
    (hbs : ∀ b ∈ bs, 2 ≤ b.size.toInt)
    (hle : (bs.flatMap fun b => b.span.words).length ≤ memorySize) :
    ∃ w, (p.freeWords m).outcome = .ok w
      ∧ w.toInt = (bs.flatMap fun b => b.span.words).length := by
  have hzero : (0 : Word).toInt = 0 := rfl
  refine ⟨bs.foldl (fun sum b => sum + b.size) 0, ?_, ?_⟩
  · rw [freeWords, Attempt.outcome_seq, h]
    rfl
  · rw [toInt_foldl_size (by omega) hbs (by omega), hzero]
    omega

/-- What `blocksFrom` gives depends on the words of the region alone, with the same fuel and from
    the same link. -/
theorem blocksFrom_congr (hr : p.region.Fits) (hmn : Memory.SameOn (· ∈ p.region) m n)
    (fuel : Nat) (l : Link) :
    (p.blocksFrom m fuel l).outcome = (p.blocksFrom n fuel l).outcome := by
  induction fuel generalizing l with
  | zero => cases l <;> rfl
  | succ fuel ih =>
    cases l with
    | none => rfl
    | node a =>
      simp only [blocksFrom, Attempt.outcome_seq, readNode_congr hr hmn, ih]

/-- What `Pool.blocks` gives depends on the words of the region alone. -/
theorem blocks_congr (hr : p.region.Fits) (hmn : Memory.SameOn (· ∈ p.region) m n) :
    (p.blocks m).outcome = (p.blocks n).outcome := blocksFrom_congr hr hmn _ _

end Pool

end Timeshare
