import Timeshare.Proofs.Checked.Basic
import Timeshare.Proofs.Storage.Confinement

namespace Timeshare

/-!
# The calculations of the pools

The operations of a pool with their calculations checked.  The list of a pool lies where programs may
write, and a program names the block that it releases: nothing is known of these words but what the
operations look at before they calculate.

* `Checked.allocate`, `Checked.release`, `Checked.blocks`, `Checked.freeWords`, `Checked.fill`.
* `Checked.allocate_eq` and its companions — if the pool lies in memory, no calculation aborts.
-/

namespace Checked

variable {σ : Type}

/-! ### Regions -/

/-- The number of words in a region. -/
def length (r : Region) : Checked σ UInt64 := do
  let stop ← size (r.last.toNat + 1)
  return if stop < r.start then 0 else stop - r.start

/-- Whether `count` words from `start` on all lie in the region.  The sum has no word if it does not
    fit. -/
def containsSpan (r : Region) (start count : Word) : Checked σ Bool := do
  if count < 1 || !r.contains start then
    return false
  let reach := start.toInt + (← word (count.toInt - 1)).toInt
  return reach ≤ Int64.maxValue.toInt && r.contains (Int64.ofInt reach)

/-! ### Free lists -/

/-- The number of free blocks that a region has room for. -/
def maxNodes (p : Pool) : Checked σ Nat := do
  return (← length p.region).toNat / 2

/-- The link and the size in a free block. -/
def readNode (p : Pool) (m : Memory) (node : Address) : Checked σ (Link × Word) := do
  let next ← ofExcept (Link.ofWord (m.read node))
  let size := m.read (← ofExcept (Pool.sizeAddress node))
  if size < minBlockSize || !(← containsSpan p.region node.toWord size) then
    throw .invalidMemoryAddress
  return (next, size)

/-- Makes the whole region one free block. -/
def fill (p : Pool) (m : Memory) : Checked σ (Pool × Memory) := do
  let some start := p.region.first? | throw .invalidMemoryAddress
  let size := (← length p.region).toInt64
  let m ← ofExcept (Pool.writeNode m start .none size)
  return ({ p with head := .node start }, m)

/-- The free blocks from a link on, if there are at most `fuel`. -/
def blocksFrom (p : Pool) (m : Memory) : Nat → Link → Checked σ (List FreeBlock)
  | _, .none => return []
  | 0, .node _ => throw .invalidMemoryAddress
  | fuel + 1, .node node => do
    let (next, size) ← readNode p m node
    let rest ← blocksFrom p m fuel next
    return ⟨node, size⟩ :: rest

/-- The free blocks in the order of the list. -/
def blocks (p : Pool) (m : Memory) : Checked σ (List FreeBlock) := do
  blocksFrom p m (← maxNodes p) p.head

/-- The number of free words. -/
def freeWords (p : Pool) (m : Memory) : Checked σ Word := do
  let bs ← blocks p m
  bs.foldlM (fun sum b => word (sum.toInt + b.size.toInt)) 0

/-! ### Allocation -/

/-- What a free block leaves in its place if `left` words of it are left. -/
def remainder? (m : Memory) (node : Address) (next : Link) (left size : Word) :
    Option (Except Fault (Link × Memory)) :=
  if left = 0 then
    some (.ok (next, m))
  else if minBlockSize ≤ left then
    some <| match node.offset size with
      | none => .error .invalidMemoryAddress
      | some rest => (Pool.writeNode m rest next left).map fun m => (.node rest, m)
  else
    none

/-- Takes the first block that fits among the nodes from `node` on, of which at most `fuel` are looked
    at.  It has looked at `visited` nodes so far. -/
def allocateFrom (p : Pool) (m : Memory) (size : Word) :
    Nat → Nat → Option Address → Address → Checked σ (Address × Pool × Memory)
  | 0, visited, _, _ => do
    let _ ← Checked.size (visited + 1)
    throw .invalidMemoryAddress
  | fuel + 1, visited, previous, node => do
    let _ ← Checked.size (visited + 1)
    let (next, blockSize) ← readNode p m node
    let left ← word (blockSize.toInt - size.toInt)
    match remainder? m node next left size with
    | some remainder =>
      let (rest, m) ← ofExcept remainder
      let (p, m) := p.relink m previous rest
      return (node, p, m.write node Link.endWord)
    | none =>
      match next with
      | .node following => allocateFrom p m size fuel (visited + 1) (some node) following
      | .none => throw .noFreeMemory

/-- Allocates a block of at least `requested` words. -/
def allocate (p : Pool) (m : Memory) (requested : Word) : Checked σ (Address × Pool × Memory) :=
  match p.head with
  | .none => throw .noFreeMemory
  | .node first => do
    if requested < 1 then
      throw .invalidMemorySize
    allocateFrom p m (max requested minBlockSize) (← maxNodes p) 0 none first

/-! ### Release -/

/-- Whether the words from `start` up to `stop` meet a free block. -/
def meets (start stop : Word) (b : FreeBlock) : Checked σ Bool := do
  let last ← word (b.address.toWord.toInt + b.size.toInt)
  return start < last && b.address.toWord < stop

/-- Takes a block back. -/
def release (p : Pool) (m : Memory) (start requested : Word) : Checked σ (Pool × Memory) := do
  if !p.region.contains start then
    throw .invalidMemoryAddress
  let size := if requested = 1 then minBlockSize else requested
  if size < 1 || !(← containsSpan p.region start size) then
    throw .invalidSizeOrMemoryAddress
  let stop ← word (start.toInt + size.toInt)
  if ← (← blocks p m).anyM (meets start stop) then
    throw .invalidSizeOrMemoryAddress
  let node ← ofExcept (Address.ofWord start)
  let m ← ofExcept (Pool.writeNode m node p.head size)
  return ({ p with head := .node node }, m)

/-! ### No calculation aborts -/

section Region

variable {r : Region}

/-- The length of a region that fits in memory is a size: `length r = pure r.length`. -/
theorem length_eq (h : r.Fits) : (length r : Checked σ UInt64) = pure r.length := by
  have hlast := h.last_lt
  simp only [memorySize] at hlast
  have hstop : UInt64.ofNat (r.last.toNat + 1) = r.last + 1 := by
    rw [UInt64.ofNat_add, UInt64.ofNat_toNat]
    rfl
  rw [length, size_eq (by omega), pure_bind, hstop]
  rfl

/-- The size of a span is at least one where one is subtracted from it. -/
theorem containsSpan_eq (start count : Word) :
    (containsSpan r start count : Checked σ Bool) = pure (r.containsSpan start count) := by
  have hcount := count.toInt_lt
  have hone : (1 : Word).toInt = 1 := rfl
  unfold containsSpan Region.containsSpan
  by_cases h : count < 1 || !r.contains start
  · rw [if_pos h]
    rw [Bool.or_eq_true, decide_eq_true_eq, Bool.not_eq_true'] at h
    rcases h with h | h
    · simp [show ¬ (1 : Word) ≤ count from Int64.not_le.mpr h]
    · simp [h]
  · rw [if_neg h]
    simp only [Bool.or_eq_true, decide_eq_true_eq, Bool.not_eq_true', not_or, Int64.not_lt,
      Bool.not_eq_false] at h
    obtain ⟨hle, hstart⟩ := h
    have hle' := Int64.le_iff_toInt_le.mp hle
    -- Only `count - 1` is calculated; whether the sum fits is what both ask for.
    rw [word_eq (by omega) (by omega), pure_bind, Int64.toInt_ofInt_of_le (by omega) (by omega)]
    simp only [hle, hstart, decide_true, Bool.true_and, Int.add_sub_assoc]

end Region

/-- What is read of a node is checked before it is relied on. -/
theorem readNode_eq (p : Pool) (m : Memory) (node : Address) :
    (readNode p m node : Checked σ (Link × Word)) = ofExcept (p.readNode m node).outcome := by
  simp only [readNode, Pool.readNode, containsSpan_eq, pure_bind, Attempt.outcome_ofExcept_bind,
    ofExcept_bind]
  congr 1
  funext next
  congr 1
  funext a
  split
  · rfl
  · rfl

section Pool

variable {p : Pool} (h : p.region.Fits) (m : Memory)
include h

/-- So is the number of free blocks that a pool has room for. -/
theorem maxNodes_eq : (maxNodes p : Checked σ Nat) = pure p.maxNodes := by
  rw [maxNodes, length_eq h, pure_bind]
  rfl

omit m in
/-- Memory has room for the nodes of a pool: `p.maxNodes ≤ memorySize`. -/
theorem maxNodes_le : p.maxNodes ≤ memorySize := by
  have hlength := h.length_toNat
  have hlast := h.last_lt
  have hmax : p.maxNodes = p.region.length.toNat / 2 := rfl
  omega

/-- To make the whole region one free block does not abort. -/
theorem fill_eq : (fill p m : Checked σ (Pool × Memory)) = ofExcept (p.fill m).outcome := by
  simp only [fill, Pool.fill, length_eq h]
  cases p.region.first? with
  | none => rfl
  | some start =>
    simp only [pure_bind, Attempt.outcome_ofExcept_bind, ofExcept_bind]
    rfl

omit h in
/-- The walk along the free list does not abort, whatever the links are: for each fuel it ends as
    `p.blocksFrom` does. -/
theorem blocksFrom_eq (fuel : Nat) (l : Link) :
    (blocksFrom p m fuel l : Checked σ (List FreeBlock)) = ofExcept (p.blocksFrom m fuel l).outcome := by
  induction fuel generalizing l with
  | zero => cases l <;> rfl
  | succ fuel ih =>
    cases l with
    | none => rfl
    | node node =>
      simp only [blocksFrom, Pool.blocksFrom, readNode_eq, ih, Attempt.outcome_seq, ofExcept_bind]
      rfl

/-- The free blocks are listed without an abort, or the list is refused as by `p.blocks`. -/
theorem blocks_eq : (blocks p m : Checked σ (List FreeBlock)) = ofExcept (p.blocks m).outcome := by
  rw [blocks, maxNodes_eq h, pure_bind, blocksFrom_eq]
  rfl

omit h in
/-- A free block of a pool that lies in memory ends where a word can say: `b.address + b.size` does
    not abort. -/
theorem meets_eq {r : Region} (hr : r.Fits) {b : FreeBlock} (hb : b.Within r) (start stop : Word) :
    (meets start stop b : Checked σ Bool) = pure (Pool.meets start stop b) := by
  have hlast := hr.last_lt
  have hstart := hb.start_le
  have hsize := hb.two_le
  have hend := hb.le_last
  simp only [memorySize] at hlast
  rw [meets, word_add (by rw [Address.toInt_toWord]; omega) (by rw [Address.toInt_toWord]; omega),
    pure_bind]
  rfl

omit h in
/-- The comparison with each free block does not abort, since each lies `Within` a region that
    fits. -/
theorem anyM_meets_eq {r : Region} (hr : r.Fits) {bs : List FreeBlock} (hbs : ∀ b ∈ bs, b.Within r)
    (start stop : Word) :
    (bs.anyM (meets start stop) : Checked σ Bool) = pure (bs.any (Pool.meets start stop)) := by
  induction bs with
  | nil => rfl
  | cons b bs ih =>
    rw [List.anyM, meets_eq hr (hbs b List.mem_cons_self), pure_bind,
      ih fun c hc => hbs c (List.mem_cons_of_mem _ hc), List.any_cons]
    cases Pool.meets start stop b <;> rfl

/-- To take a block back does not abort, whatever `start` and `requested` are: the end of the block
    is calculated once it is known to lie in the pool. -/
theorem release_eq (start requested : Word) :
    (release p m start requested : Checked σ (Pool × Memory))
      = ofExcept (p.release m start requested).outcome := by
  rw [Pool.outcome_release, release]
  simp only [containsSpan_eq, pure_bind]
  by_cases hin : !p.region.contains start
  · rw [if_pos hin, if_pos hin]
    rfl
  rw [if_neg hin, if_neg hin]
  change (if Pool.releasedSize requested < 1
      || !p.region.containsSpan start (Pool.releasedSize requested) then _ else _) = _
  by_cases hspan : Pool.releasedSize requested < 1
      || !p.region.containsSpan start (Pool.releasedSize requested)
  · rw [if_pos hspan, if_pos hspan]
    rfl
  rw [if_neg hspan, if_neg hspan]
  rw [Bool.not_eq_true', Bool.not_eq_false] at hin
  rw [Bool.or_eq_true, decide_eq_true_eq, Bool.not_eq_true', not_or, Bool.not_eq_false] at hspan
  obtain ⟨b, hb, ha, hz⟩ := (Pool.release_checks_iff h).mp ⟨hin, hspan⟩
  have hstart := ha ▸ Address.toInt_toWord b.address
  have hindex := b.address.index_lt
  have hsize := hb.two_le
  have hend := hb.le_last
  have hlast := h.last_lt
  simp only [memorySize] at hlast hindex
  -- The checks say that the block lies in the pool, so that its end is an index or one behind memory.
  rw [hz] at hsize hend
  change (word (start.toInt + (Pool.releasedSize requested).toInt) >>= _) = _
  rw [word_add (by omega) (by omega), pure_bind, blocks_eq h, ofExcept_bind]
  refine ofExcept_bind_congr fun bs hbs => ?_
  rw [anyM_meets_eq h ((Pool.blocks_eq_ok_iff h).mp hbs).1.within, pure_bind]
  by_cases hmeets : bs.any (Pool.meets start (start + Pool.releasedSize requested))
  · rw [if_pos hmeets, if_pos hmeets]
    rfl
  · rw [if_neg hmeets, if_neg hmeets]
    simp only [ofExcept_bind]
    rfl

/-- The search relies on the size that it has read of a node.  Its count of the nodes does not get beyond
    the room in the pool. -/
theorem allocateFrom_eq {size : Word} (hsize : 0 ≤ size.toInt) {fuel visited : Nat}
    (hvisited : visited + fuel + 1 < 18446744073709551616) (previous : Option Address) (node : Address) :
    (allocateFrom p m size fuel visited previous node : Checked σ (Address × Pool × Memory))
      = ofExcept (p.allocateFrom m size fuel previous node).outcome := by
  -- The fuel and the nodes that were visited make up a constant, which has room in a word.
  induction fuel generalizing visited previous node with
  | zero =>
    -- The count that is calculated last is at most `visited + fuel + 1`.
    rw [allocateFrom, size_eq (by omega), pure_bind, Pool.outcome_allocateFrom_zero]
    rfl
  | succ fuel ih =>
    rw [allocateFrom, size_eq (by omega), pure_bind, Pool.outcome_allocateFrom_succ, ofExcept_bind,
      readNode_eq]
    refine ofExcept_bind_congr fun x hx => ?_
    obtain ⟨next, blockSize⟩ := x
    -- Neither number is negative, so that the difference fits, whichever is larger.
    have hblock : 2 ≤ blockSize.toInt := ((Pool.readNode_eq_ok_iff h).mp hx).within.two_le
    have hle := blockSize.toInt_lt
    have hle' := size.toInt_lt
    simp only []
    rw [word_sub (by omega) (by omega), pure_bind]
    change (match Pool.remainder? m node next blockSize size with | some _ => _ | none => _) = _
    cases hleft : Pool.remainder? m node next blockSize size with
    | some left =>
      simp only [ofExcept_bind]
      rfl
    | none =>
      cases next with
      | node following =>
        exact ih (by omega) _ _
      | none => rfl

/-- To allocate does not abort, whatever `requested` is and whatever the free list holds. -/
theorem allocate_eq (requested : Word) :
    (allocate p m requested : Checked σ (Address × Pool × Memory))
      = ofExcept (p.allocate m requested).outcome := by
  rw [Pool.outcome_allocate, allocate]
  cases p.head with
  | none => rfl
  | node first =>
    simp only [maxNodes_eq h, pure_bind]
    by_cases hlow : requested < 1
    · rw [if_pos hlow, if_pos hlow]
      rfl
    rw [if_neg hlow, if_neg hlow]
    have hsize := Pool.two_le_max requested
    have hroom := maxNodes_le h
    exact allocateFrom_eq h m (by omega) (by simp only [memorySize] at hroom; omega) _ _

omit h in
/-- Adding up the sizes of blocks does not overflow, even if the blocks overlap. -/
theorem foldlM_size_eq {r : Region} (hr : r.Fits) {bs : List FreeBlock} (hbs : ∀ b ∈ bs, b.Within r)
    {sum : Word} (hsum : 0 ≤ sum.toInt)
    (hle : sum.toInt + bs.length * memorySize < 9223372036854775808) :
    (bs.foldlM (fun sum b => word (sum.toInt + b.size.toInt)) sum : Checked σ Word)
      = pure (bs.foldl (fun sum b => sum + b.size) sum) := by
  induction bs generalizing sum with
  | nil => rfl
  | cons b bs ih =>
    have hb := hbs b List.mem_cons_self
    have hsize := hb.two_le
    have hend := hb.le_last
    have hlast := hr.last_lt
    rw [List.length_cons] at hle
    simp only [memorySize] at hle hlast
    -- A block is not larger than memory, and its share of the bound is used up.
    have hadd : (sum + b.size).toInt = sum.toInt + b.size.toInt := Word.toInt_add (by omega) (by omega)
    rw [List.foldlM_cons, word_add (by omega) (by omega), pure_bind, List.foldl_cons]
    refine ih (fun c hc => hbs c (List.mem_cons_of_mem _ hc)) (by omega) ?_
    simp only [memorySize]
    omega

/-- The sum of the free words is calculated without an abort: there are at most `p.maxNodes` blocks,
    and none is larger than memory. -/
theorem freeWords_eq :
    (freeWords p m : Checked σ Word) = ofExcept (p.freeWords m).outcome := by
  rw [freeWords, blocks_eq h, Pool.freeWords, Attempt.outcome_seq, ofExcept_bind]
  refine ofExcept_bind_congr fun bs hbs => ?_
  obtain ⟨hchain, hlen⟩ := (Pool.blocks_eq_ok_iff h).mp hbs
  have hroom := maxNodes_le h
  have hzero : (0 : Word).toInt = 0 := rfl
  rw [foldlM_size_eq h hchain.within (by omega) (by simp only [memorySize] at *; omega)]
  rfl

end Pool

end Checked

end Timeshare
