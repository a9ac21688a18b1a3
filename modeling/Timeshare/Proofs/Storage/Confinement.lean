import Timeshare.Proofs.Storage.FreeList

namespace Timeshare

/-!
# Pools on any memory

A free list lives in memory that programs may write to.  This file says what the operations of
a pool do when nothing at all is known of that memory.

* `Pool.remainder?_cases` — what is left of a block of the pool from which words are taken.
* `Pool.allocate_confined`, `Pool.release_confined` — an operation that succeeds has changed words
  of the region only, and the block that it handed out or took back lies in the region.
* `Pool.allocate_congr`, `Pool.release_congr` — what an operation does depends on the words of the
  region alone.  A link that leads out of the region makes the pool read a word outside, but the
  node is refused before that word can matter (`Pool.readNode_congr`).
-/

/-- The larger of two words has the larger value: `(max a b).toInt = max a.toInt b.toInt`. -/
theorem Word.toInt_max (a b : Word) : (max a b).toInt = max a.toInt b.toInt := by
  show (if a ≤ b then b else a).toInt = _
  by_cases h : a ≤ b
  · rw [if_pos h, Int.max_eq_right (Int64.le_iff_toInt_le.mp h)]
  · rw [if_neg h, Int.max_eq_left]
    rw [Int64.le_iff_toInt_le] at h
    omega

/-- A request is served with `max requested minBlockSize` words, which are two at least. -/
theorem Pool.two_le_max (requested : Word) : 2 ≤ (max requested minBlockSize).toInt := by
  rw [Word.toInt_max, Pool.minBlockSize_toInt]
  omega

namespace FreeBlock

/-- A block can serve a request of `n` words: nothing or a block is left of it. -/
def Fits (b : FreeBlock) (n : Word) : Prop := b.size = n ∨ n.toInt + 2 ≤ b.size.toInt

instance (b : FreeBlock) (n : Word) : Decidable (b.Fits n) := inferInstanceAs (Decidable (_ ∨ _))

variable {b : FreeBlock} {r : Region} {n : Word}

/-- If `n` words of a block leave two or more, then the address `rest` behind them and the one
    behind `rest` are in the block, so that a node has room there. -/
theorem Within.exists_offset (hr : r.Fits) (hb : b.Within r) (hn : 0 ≤ n.toInt)
    (hlt : n.toInt + 2 ≤ b.size.toInt) :
    ∃ rest second, b.address.offset n = some rest ∧ rest.offset 1 = some second
      ∧ (rest.index : Int) = b.address.index + n.toInt ∧ rest ∈ b.span ∧ second ∈ b.span := by
  have hlast := hr.last_lt
  have hle := hb.le_last
  -- The node takes the first two words behind those that are asked for.
  have hspan : ∀ i h, (b.address.index ≤ i ∧ (i : Int) < b.address.index + b.size.toInt) →
      (⟨i, h⟩ : Address) ∈ b.span := by
    intro i h hi
    rw [Span.mem_iff]
    show b.address.index ≤ i ∧ i < b.address.index + b.size.toInt.toNat
    omega
  -- Both addresses are given by their indices; that these are in memory is `hr.last_lt`.
  refine ⟨⟨b.address.index + n.toInt.toNat, by omega⟩,
    ⟨b.address.index + n.toInt.toNat + 1, by omega⟩, ?_, ?_, ?_, ?_, ?_⟩
  · rw [Address.offset_eq_some_iff]
    show (b.address.index : Int) + n.toInt = ((b.address.index + n.toInt.toNat : Nat) : Int)
    omega
  · rw [Address.offset_one_eq_some_iff]
  · show ((b.address.index + n.toInt.toNat : Nat) : Int) = _
    omega
  · exact hspan _ _ (by omega)
  · exact hspan _ _ (by omega)

/-- A block of a region has a second word, `b.address.offset 1`. -/
theorem Within.exists_second (hr : r.Fits) (hb : b.Within r) :
    ∃ second, b.address.offset 1 = some second := by
  have := hr.last_lt
  have := hb.le_last
  have := hb.two_le
  exact ⟨⟨b.address.index + 1, by omega⟩, Address.offset_one_eq_some_iff.mpr rfl⟩

/-- Taking `n` words from a block is no overflow: `(b.size - n).toInt = b.size.toInt - n.toInt`. -/
theorem Within.toInt_sub (hr : r.Fits) (hb : b.Within r) (hn : 0 ≤ n.toInt) :
    (b.size - n).toInt = b.size.toInt - n.toInt := by
  have hlast := hr.last_lt
  simp only [memorySize] at hlast
  have := hb.le_last
  have := hb.two_le
  have hmax := Int64.toInt_lt n
  exact Word.toInt_sub (by omega) (by omega)

end FreeBlock

namespace Pool

variable {p : Pool} {m n : Memory}

/-- Making words a node succeeds if there is an address `second` behind the first: it writes the
    link to `node` and the size to `second`. -/
theorem writeNode_eq_ok {node second : Address} {next : Link} {size : Word}
    (h : node.offset 1 = some second) :
    writeNode m node next size = .ok ((m.write node next.toWord).write second size) := by
  rw [writeNode, sizeAddress_eq_ok_iff.mpr h]
  rfl

/-! ### What is left of a block -/

/-- What is left of a block of the pool from which `size` words are taken, in three cases: nothing
    if the sizes are equal, a smaller block behind them if two words or more are left, and otherwise
    the block does not fit (`¬ b.Fits size`) and is passed over. -/
theorem remainder?_cases (m : Memory) (next : Link) {b : FreeBlock} {size : Word}
    (hr : p.region.Fits) (hb : b.Within p.region) (hsize : 0 ≤ size.toInt) :
    (b.size = size ∧ remainder? m b.address next b.size size = some (.ok (next, m))) ∨
    (size.toInt + 2 ≤ b.size.toInt ∧ ∃ rest second, b.address.offset size = some rest
      ∧ rest.offset 1 = some second ∧ (rest.index : Int) = b.address.index + size.toInt
      ∧ rest ∈ b.span ∧ second ∈ b.span
      ∧ remainder? m b.address next b.size size
        = some (.ok (.node rest, (m.write rest next.toWord).write second (b.size - size)))) ∨
    (¬ b.Fits size ∧ remainder? m b.address next b.size size = none) := by
  have hleft := hb.toInt_sub hr hsize
  -- Both tests look at a difference of words, which does not overflow here.
  have hzero : b.size - size = 0 ↔ b.size = size := by
    rw [← Int64.toInt_inj, ← Int64.toInt_inj, hleft]
    show b.size.toInt - size.toInt = 0 ↔ _
    omega
  have htwo : minBlockSize ≤ b.size - size ↔ size.toInt + 2 ≤ b.size.toInt := by
    rw [Int64.le_iff_toInt_le, hleft, minBlockSize_toInt]
    omega
  unfold remainder?
  by_cases heq : b.size = size
  · exact .inl ⟨heq, if_pos (hzero.mpr heq)⟩
  -- The second test succeeds: `exists_offset` provides the two words of the new node.
  by_cases hlt : size.toInt + 2 ≤ b.size.toInt
  · obtain ⟨rest, second, hrest, hsecond, hindex, hmem, hmem'⟩ := hb.exists_offset hr hsize hlt
    refine .inr (.inl ⟨hlt, rest, second, hrest, hsecond, hindex, hmem, hmem', ?_⟩)
    rw [if_neg (hzero.not.mpr heq), if_pos (htwo.mpr hlt), hrest]
    simp only [writeNode_eq_ok hsecond, Except.map]
  · refine .inr (.inr ⟨fun h => h.elim heq hlt, ?_⟩)
    rw [if_neg (hzero.not.mpr heq), if_neg (htwo.not.mpr hlt)]

/-! ### One step of the search -/

/-- Takes what was asked for from a node: what is left of its block takes its place in the
    list. -/
def takeFrom (p : Pool) (previous : Option Address) (node : Address) (left : Link × Memory) :
    Address × Pool × Memory :=
  let (p, m) := p.relink left.2 previous left.1
  (node, p, m.write node Link.endWord)

/-- Without fuel the search gives up with `invalidMemoryAddress`. -/
theorem outcome_allocateFrom_zero {size : Word} {previous : Option Address} {node : Address} :
    (p.allocateFrom m size 0 previous node).outcome = .error .invalidMemoryAddress := by
  simp only [allocateFrom, Attempt.outcome_note_bind, Attempt.outcome_throw]

/-- One step of `allocateFrom`: the node is read; its block serves the request, or the search goes
    on at the next node, or the list is at its end and the fault is `noFreeMemory`. -/
theorem outcome_allocateFrom_succ {size : Word} {fuel : Nat} {previous : Option Address}
    {node : Address} :
    (p.allocateFrom m size (fuel + 1) previous node).outcome = (do
      let (next, blockSize) ← (p.readNode m node).outcome
      match remainder? m node next blockSize size with
      | some left => return p.takeFrom previous node (← left)
      | none =>
        match next with
        | .node following => (p.allocateFrom m size fuel (some node) following).outcome
        | .none => .error .noFreeMemory) := by
  rw [allocateFrom, Attempt.outcome_seq]
  congr 1
  funext r
  obtain ⟨next, blockSize⟩ := r
  cases hleft : remainder? m node next blockSize size with
  | some left =>
    simp only [hleft, Attempt.outcome_ofExcept_bind, Attempt.outcome_note_bind, Attempt.outcome_pure]
    rfl
  | none =>
    cases next with
    | node following => simp only [hleft]
    | none => simp only [hleft, Attempt.outcome_note_bind, Attempt.outcome_throw]

/-! ### Allocation -/

/-- If the node, the one before it and what is left of the block are in the region, then `takeFrom`
    changes no word outside and keeps the region and the owner. -/
theorem takeFrom_confined {previous : Option Address} {node : Address} {left : Link × Memory}
    (hprev : ∀ a ∈ previous, a ∈ p.region) (hnode : node ∈ p.region)
    (hleft : Memory.SameOn (· ∉ p.region) m left.2) :
    (p.takeFrom previous node left).2.1.region = p.region
      ∧ (p.takeFrom previous node left).2.1.owner = p.owner
      ∧ Memory.SameOn (· ∉ p.region) m (p.takeFrom previous node left).2.2 := by
  have hlast : ∀ m', Memory.SameOn (· ∉ p.region) m' (m'.write node Link.endWord) :=
    fun m' => Memory.sameOn_not_write hnode
  cases previous with
  | none => exact ⟨rfl, rfl, hleft.trans (hlast _)⟩
  | some a =>
    have ha : a ∈ p.region := hprev a rfl
    exact ⟨rfl, rfl, (hleft.trans (Memory.sameOn_not_write ha)).trans (hlast _)⟩

/-- What `remainder?` writes is in the block itself, so that no word outside the region changes, and
    `size` is at most that of the block. -/
theorem remainder?_confined (m : Memory) (next : Link) {b : FreeBlock} {size : Word}
    (hr : p.region.Fits) (hb : b.Within p.region) (hsize : 0 ≤ size.toInt) :
    (size.toInt ≤ b.size.toInt ∧ ∃ left, remainder? m b.address next b.size size = some (.ok left)
      ∧ Memory.SameOn (· ∉ p.region) m left.2) ∨
    remainder? m b.address next b.size size = none := by
  rcases remainder?_cases m next hr hb hsize with
    ⟨heq, hrem⟩ | ⟨hlt, rest, second, -, -, -, hmem, hmem', hrem⟩ | ⟨-, hrem⟩
  · exact .inl ⟨Int.le_of_eq (congrArg Int64.toInt heq.symm), _, hrem, Memory.SameOn.refl _ m⟩
  · have hrest := hb.mem_of_span hmem
    have hsecond := hb.mem_of_span hmem'
    exact .inl ⟨by omega, _, hrem,
      (Memory.sameOn_not_write hrest).trans (Memory.sameOn_not_write hsecond)⟩
  · exact .inr hrem

/-- If the search succeeds with the address `a`, then the `size` words from `a` on are in the
    region, and no word outside the region has changed, whatever memory holds. -/
theorem allocateFrom_confined (hr : p.region.Fits) {size : Word} (hsize : 2 ≤ size.toInt)
    {fuel : Nat} {previous : Option Address} (hprev : ∀ a ∈ previous, a ∈ p.region)
    {node a : Address} {p' : Pool} {m' : Memory}
    (h : (p.allocateFrom m size fuel previous node).outcome = .ok (a, p', m')) :
    FreeBlock.Within ⟨a, size⟩ p.region ∧ p'.region = p.region ∧ p'.owner = p.owner
      ∧ Memory.SameOn (· ∉ p.region) m m' := by
  have hpos : 0 ≤ size.toInt := by omega
  -- By induction on the fuel; the invariant is that the node before, if there is one, is in the
  -- region.
  induction fuel generalizing previous node with
  | zero =>
    rw [outcome_allocateFrom_zero] at h
    exact absurd h (by simp)
  | succ fuel ih =>
    rw [outcome_allocateFrom_succ] at h
    obtain ⟨⟨next, blockSize⟩, hread, h⟩ := bind_eq_ok_iff.mp h
    have hb := ((readNode_eq_ok_iff hr).mp hread).within
    rcases remainder?_confined m next hr hb hpos with
      ⟨hle, left, hrem, hleft⟩ | hrem <;> simp only at hrem <;> simp only [hrem] at h
    · -- The block at `node` serves the request.
      obtain ⟨left', hleft', h⟩ := bind_eq_ok_iff.mp h
      rw [Except.ok.injEq] at hleft'
      subst hleft'
      have htake := takeFrom_confined hprev hb.mem hleft
      rw [show p.takeFrom previous node left = (a, p', m') from Except.ok.inj h] at htake
      have ha : node = a := congrArg Prod.fst (Except.ok.inj h)
      subst ha
      have hend : (node.index : Int) + blockSize.toInt ≤ p.region.last.toNat + 1 := hb.le_last
      have hle' : size.toInt ≤ blockSize.toInt := hle
      exact ⟨⟨hsize, hb.start_le, by show (node.index : Int) + size.toInt ≤ _; omega⟩, htake⟩
    · -- The block is passed over.
      cases next with
      | none => exact absurd h (by simp)
      | node following =>
        exact ih (fun b hb' => (Option.mem_some.mp hb').symm ▸ hb.mem) h

/-- The outcome of `Pool.allocate`: an empty list is `noFreeMemory`, a request for less than one
    word is `invalidMemorySize`, and else the search starts at the head with the larger of the
    request and `minBlockSize`. -/
theorem outcome_allocate {requested : Word} :
    (p.allocate m requested).outcome =
      match p.head with
      | .none => .error .noFreeMemory
      | .node first =>
        if requested < 1 then .error .invalidMemorySize
        else (p.allocateFrom m (max requested minBlockSize) p.maxNodes none first).outcome := by
  unfold allocate
  cases p.head with
  | none => simp only [Attempt.outcome_note_bind, Attempt.outcome_throw]
  | node first =>
    by_cases h : requested < 1
    · simp only [h, if_true, Attempt.outcome_note_bind, Attempt.outcome_throw_bind]
    · simp only [h, if_false]

/-- A request that is granted is for one word at least. -/
theorem one_le_of_allocate {requested : Word} {a : Address} {p' : Pool} {m' : Memory}
    (h : (p.allocate m requested).outcome = .ok (a, p', m')) : 1 ≤ requested.toInt := by
  by_contra hlt
  have hlt' : requested < 1 := by
    rw [Int64.lt_iff_toInt_lt]
    show requested.toInt < 1
    omega
  rw [outcome_allocate] at h
  simp only [hlt', if_true] at h
  cases hhead : p.head <;> rw [hhead] at h <;> exact absurd h (by simp)

/-- **Allocation stays in the pool.**  On any memory, if `Pool.allocate` succeeds with the address
    `a`, then the `max requested minBlockSize` words from `a` on are in the region, and no word
    outside the region has changed. -/
theorem allocate_confined (hr : p.region.Fits) {requested : Word} {a : Address} {p' : Pool}
    {m' : Memory} (h : (p.allocate m requested).outcome = .ok (a, p', m')) :
    FreeBlock.Within ⟨a, max requested minBlockSize⟩ p.region ∧ p'.region = p.region
      ∧ p'.owner = p.owner ∧ Memory.SameOn (· ∉ p.region) m m' := by
  rw [outcome_allocate] at h
  split at h
  · exact absurd h (by simp)
  · split at h
    · exact absurd h (by simp)
    · exact allocateFrom_confined hr (two_le_max requested) (by simp) h

/-! ### Release -/

/-- The size of the block that is given back: a block of one word was handed out with two. -/
def releasedSize (requested : Word) : Word := if requested = 1 then minBlockSize else requested

/-- For a request of one word at least, `releasedSize requested = max requested minBlockSize`: a
    block is given back with the size with which it was handed out. -/
theorem releasedSize_eq {requested : Word} (h : 1 ≤ requested.toInt) :
    releasedSize requested = max requested minBlockSize := by
  refine Int64.toInt_inj.mp ?_
  rw [Word.toInt_max, minBlockSize_toInt, releasedSize]
  split
  · rename_i hone
    rw [hone]
    rfl
  · rename_i hne
    have : requested.toInt ≠ 1 := fun h => hne (Int64.toInt_inj.mp h)
    omega

/-- A block of a region whose size is `releasedSize requested` has the size
    `max requested minBlockSize`: a request for less than one word is about no block. -/
theorem size_eq_max {b : FreeBlock} {r : Region} {requested : Word} (hb : b.Within r)
    (hsize : b.size = releasedSize requested) : b.size = max requested minBlockSize := by
  have htwo := hb.two_le
  have hone : 1 ≤ requested.toInt := by
    rw [hsize, releasedSize] at htwo
    split at htwo
    · rename_i h
      rw [h]
      decide
    · omega
  rw [hsize, releasedSize_eq hone]

/-- The outcome of `Pool.release`: two checks of the block, one against the list, and the new
    node. -/
theorem outcome_release {start requested : Word} :
    (p.release m start requested).outcome =
      if !p.region.contains start then .error .invalidMemoryAddress
      else if releasedSize requested < 1
          || !p.region.containsSpan start (releasedSize requested) then
        .error .invalidSizeOrMemoryAddress
      else do
        let bs ← (p.blocks m).outcome
        if bs.any (meets start (start + releasedSize requested)) then
          .error .invalidSizeOrMemoryAddress
        else do
          let node ← Address.ofWord start
          let m ← writeNode m node p.head (releasedSize requested)
          return ({ p with head := .node node }, m) := by
  -- Each check is decided in the order in which it is made; the notices drop out on the way.
  unfold release releasedSize
  by_cases hin : !p.region.contains start
  · simp only [hin, if_true, Attempt.outcome_note_bind, Attempt.outcome_throw_bind]
  simp only [hin, Bool.false_eq_true, if_false]
  by_cases hspan : (if requested = 1 then minBlockSize else requested) < 1
      || !p.region.containsSpan start (if requested = 1 then minBlockSize else requested)
  · simp only [hspan, if_true, Attempt.outcome_note_bind, Attempt.outcome_throw_bind]
  simp only [hspan, Bool.false_eq_true, if_false]
  rw [Attempt.outcome_seq]
  congr 1
  funext bs
  by_cases hmeets : bs.any (meets start (start + if requested = 1 then minBlockSize else requested))
  · simp only [hmeets, if_true, Attempt.outcome_note_bind, Attempt.outcome_throw_bind]
  simp only [hmeets, Bool.false_eq_true, if_false, Attempt.outcome_ofExcept_bind,
    Attempt.outcome_note_bind, Attempt.outcome_pure]
  rfl

/-- Between two blocks of a region, the check `meets` is whether they share a word. -/
theorem meets_iff {r : Region} {b c : FreeBlock} (hr : r.Fits) (hb : b.Within r)
    (hc : c.Within r) :
    meets b.address.toWord (b.address.toWord + b.size) c = true ↔ ¬ b.span.Apart c.span := by
  have hlast := hr.last_lt
  simp only [memorySize] at hlast
  obtain ⟨hb2, hbs, hbl⟩ := hb
  obtain ⟨hc2, hcs, hcl⟩ := hc
  -- Blocks of a region end in memory, so that their ends are no overflow.
  have hend : ∀ d : FreeBlock, 2 ≤ d.size.toInt →
      (d.address.index : Int) + d.size.toInt ≤ r.last.toNat + 1 →
      (d.address.toWord + d.size).toInt = d.address.index + d.size.toInt := by
    intro d hd hl
    rw [Word.toInt_add, Address.toInt_toWord] <;> rw [Address.toInt_toWord] <;> omega
  simp only [meets, Bool.and_eq_true, decide_eq_true_eq, Int64.lt_iff_toInt_lt, hend b hb2 hbl,
    hend c hc2 hcl, Address.toInt_toWord]
  show _ ↔ ¬ (b.address.index + b.size.toInt.toNat ≤ c.address.index
    ∨ c.address.index + c.size.toInt.toNat ≤ b.address.index)
  omega

/-- The two checks that a release makes of the block alone succeed iff there is a block of the
    region with the address `start` and the size `releasedSize requested`. -/
theorem release_checks_iff (hr : p.region.Fits) {start requested : Word} :
    (p.region.contains start = true ∧ ¬ releasedSize requested < 1
      ∧ p.region.containsSpan start (releasedSize requested) = true) ↔
    ∃ b : FreeBlock, b.Within p.region ∧ b.address.toWord = start
      ∧ b.size = releasedSize requested := by
  have hone : ∀ w : Word, w < 1 ↔ w.toInt < 1 := fun w => Int64.lt_iff_toInt_lt
  -- One word counts as two, so that no size in between is left.
  have hsize : ¬ releasedSize requested < 1 ↔ 2 ≤ (releasedSize requested).toInt := by
    rw [hone]
    unfold releasedSize
    split
    · rw [minBlockSize_toInt]
      omega
    · rename_i hne
      have : requested.toInt ≠ 1 := fun h => hne (Int64.toInt_inj.mp h)
      omega
  rw [hsize, hr.containsSpan_iff]
  constructor
  · rintro ⟨hin, h2, -, hs, hl⟩
    obtain ⟨a, -, -, ha⟩ := hr.ofWord?_of_contains hin
    rw [← ha, Address.toInt_toWord] at hs hl
    refine ⟨⟨a, releasedSize requested⟩, ⟨h2, ?_, hl⟩, ha, rfl⟩
    show p.region.start.toNat ≤ a.index
    omega
  · rintro ⟨b, hb, ha, hz⟩
    rw [← ha, ← hz, hr.contains_toWord, Address.toInt_toWord]
    have := hb.two_le
    have := hb.start_le
    exact ⟨hb.mem, hb.two_le, by omega, by omega, hb.le_last⟩

/-- **Release.**  A pool takes a block back iff the block lies in the region and is apart from every
    free block; then `p'.head` is that block, and `m'` differs from `m` in its node, which links to
    what was the head. -/
theorem release_eq_ok_iff (hr : p.region.Fits) {start requested : Word} {p' : Pool}
    {m' : Memory} :
    (p.release m start requested).outcome = .ok (p', m') ↔
      ∃ (b : FreeBlock) (second : Address) (bs : List FreeBlock),
        b.Within p.region ∧ b.address.toWord = start ∧ b.size = releasedSize requested
        ∧ (p.blocks m).outcome = .ok bs ∧ (∀ c ∈ bs, b.span.Apart c.span)
        ∧ b.address.offset 1 = some second ∧ p' = { p with head := .node b.address }
        ∧ m' = (m.write b.address p.head.toWord).write second b.size := by
  rw [outcome_release]
  constructor
  · intro h
    split at h
    · exact absurd h (by simp)
    split at h
    · exact absurd h (by simp)
    rename_i hin hspan
    rw [Bool.not_eq_true', Bool.not_eq_false] at hin
    rw [Bool.or_eq_true, decide_eq_true_eq, Bool.not_eq_true', not_or, Bool.not_eq_false] at hspan
    obtain ⟨b, hb, ha, hz⟩ := (release_checks_iff hr).mp ⟨hin, hspan⟩
    obtain ⟨bs, hbs, h⟩ := bind_eq_ok_iff.mp h
    split at h
    · exact absurd h (by simp)
    rename_i hmeets
    -- Every block of the list lies in the region, where the check can be trusted.
    have hany : ∀ c ∈ bs, b.span.Apart c.span := by
      intro c hc
      have hcw := ((blocks_eq_ok_iff hr).mp hbs).1.within c hc
      by_contra hnot
      rw [← meets_iff hr hb hcw, ha, hz] at hnot
      exact hmeets (List.any_eq_true.mpr ⟨c, hc, hnot⟩)
    obtain ⟨second, hsecond⟩ := hb.exists_second hr
    rw [← ha, Address.ofWord, Address.ofWord?_toWord, ← hz] at h
    simp only [ok_bind, writeNode_eq_ok hsecond] at h
    have h' := Prod.mk.inj (Except.ok.inj h)
    exact ⟨b, second, bs, hb, ha, hz, hbs, hany, hsecond, h'.1.symm, h'.2.symm⟩
  -- Conversely, none of the three checks refuses such a block.
  · rintro ⟨b, second, bs, hb, ha, hz, hbs, hany, hsecond, rfl, rfl⟩
    obtain ⟨hin, hlt, hspan⟩ := (release_checks_iff hr).mpr ⟨b, hb, ha, hz⟩
    have hmeets : ¬ bs.any (meets start (start + releasedSize requested)) = true := by
      rw [List.any_eq_true]
      rintro ⟨c, hc, hcm⟩
      have hcw := ((blocks_eq_ok_iff hr).mp hbs).1.within c hc
      rw [← ha, ← hz, meets_iff hr hb hcw] at hcm
      exact hcm (hany c hc)
    rw [if_neg (by simp [hin]), if_neg (by simp [hlt, hspan]), hbs, ok_bind, if_neg hmeets, ← ha, ← hz,
      Address.ofWord, Address.ofWord?_toWord]
    simp only [ok_bind, writeNode_eq_ok hsecond]
    rfl

/-- **Release stays in the pool.**  On any memory, if `Pool.release` succeeds then no word outside
    the region has changed. -/
theorem release_confined (hr : p.region.Fits) {start requested : Word} {p' : Pool} {m' : Memory}
    (h : (p.release m start requested).outcome = .ok (p', m')) :
    p'.region = p.region ∧ p'.owner = p.owner ∧ Memory.SameOn (· ∉ p.region) m m' := by
  obtain ⟨b, second, bs, hb, -, -, -, -, hsecond, rfl, rfl⟩ := (release_eq_ok_iff hr).mp h
  have hmem := hb.mem_of_span (hb.second_mem_span hsecond)
  exact ⟨rfl, rfl, (Memory.sameOn_not_write hb.mem).trans (Memory.sameOn_not_write hmem)⟩

/-- With an empty result in front, a release succeeds as it does without. -/
theorem map_release_eq_ok_iff {start requested : Word} {u : Unit} {p' : Pool} {m' : Memory} :
    ((fun (p, m) => ((), p, m)) <$> p.release m start requested).outcome = .ok (u, p', m') ↔
      (p.release m start requested).outcome = .ok (p', m') := by
  rw [Attempt.outcome_map]
  rcases (p.release m start requested).outcome with e | ⟨p₁, m₁⟩ <;> simp [Except.map]

/-! ### Two memories -/

section Congruence

variable {inside : Address → Prop}

/-- Results of a pool operation on two memories: all is the same, as far as can be seen. -/
def SameResult {α : Type} (inside : Address → Prop) (x y : α × Pool × Memory) : Prop :=
  x.1 = y.1 ∧ x.2.1 = y.2.1 ∧ Memory.SameOn inside x.2.2 y.2.2

/-- On memories that agree, taking a block gives the same address and the same head, and memories
    that agree. -/
theorem takeFrom_congr {previous : Option Address} {node : Address} {left left' : Link × Memory}
    (hlink : left.1 = left'.1) (h : Memory.SameOn inside left.2 left'.2) :
    SameResult inside (p.takeFrom previous node left) (p.takeFrom previous node left') := by
  obtain ⟨l, m⟩ := left
  obtain ⟨l', m'⟩ := left'
  obtain rfl : l = l' := hlink
  cases previous with
  | none => exact ⟨rfl, rfl, h.write node _⟩
  | some a => exact ⟨rfl, rfl, (h.write a _).write node _⟩

/-- On memories that agree, making a node succeeds or fails alike. -/
theorem writeNode_congr {node : Address} {next : Link} {size : Word}
    (h : Memory.SameOn inside m n) :
    SameEnd (Memory.SameOn inside) (writeNode m node next size) (writeNode n node next size) := by
  cases hsecond : sizeAddress node with
  | error e =>
    simp only [writeNode, hsecond, Except.map]
    exact sameEnd_error e
  | ok second =>
    simp only [writeNode, hsecond, Except.map]
    exact (h.write node _).write second _

/-- On memories that agree, `remainder?` passes a block over in both or in neither, and leaves the
    same link. -/
theorem remainder?_congr (h : Memory.SameOn inside m n) (node : Address) (next : Link)
    (blockSize size : Word) :
    (remainder? m node next blockSize size = none ∧ remainder? n node next blockSize size = none) ∨
    ∃ x y, remainder? m node next blockSize size = some x
      ∧ remainder? n node next blockSize size = some y
      ∧ SameEnd (fun x y => x.1 = y.1 ∧ Memory.SameOn inside x.2 y.2) x y := by
  -- The block fits exactly, or with a remainder that can be a block, or not at all.
  by_cases hzero : blockSize - size = 0
  · simp only [remainder?, hzero, if_true]
    exact .inr ⟨_, _, rfl, rfl, rfl, h⟩
  by_cases htwo : minBlockSize ≤ blockSize - size
  · simp only [remainder?, hzero, htwo, if_false, if_true]
    refine .inr ⟨_, _, rfl, rfl, ?_⟩
    cases node.offset size with
    | none => exact sameEnd_error .invalidMemoryAddress
    | some rest =>
      exact (writeNode_congr h).bind fun m' n' h' => sameEnd_ok.mpr ⟨rfl, h'⟩
  · simp only [remainder?, hzero, htwo, if_false]
    exact .inl ⟨trivial, trivial⟩

/-- On memories that agree on the region, the search ends with the same result or the same fault,
    and the memories still agree. -/
theorem allocateFrom_congr (hr : p.region.Fits) (hin : ∀ a ∈ p.region, inside a)
    (h : Memory.SameOn inside m n) {size : Word} {fuel : Nat} {previous : Option Address}
    {node : Address} :
    SameEnd (SameResult inside) (p.allocateFrom m size fuel previous node).outcome
      (p.allocateFrom n size fuel previous node).outcome := by
  induction fuel generalizing previous node with
  | zero =>
    rw [outcome_allocateFrom_zero, outcome_allocateFrom_zero]
    exact sameEnd_error _
  | succ fuel ih =>
    rw [outcome_allocateFrom_succ, outcome_allocateFrom_succ,
      readNode_congr hr (h.mono hin) node]
    -- The node is read alike (`readNode_congr`), and from there on both searches do the same.
    refine SameEnd.bind_same _ fun r _ => ?_
    obtain ⟨next, blockSize⟩ := r
    rcases remainder?_congr h node next blockSize size with ⟨hx, hy⟩ | ⟨x, y, hx, hy, hxy⟩
    · simp only [hx, hy]
      cases next with
      | none => exact sameEnd_error .noFreeMemory
      | node following => exact ih
    · simp only [hx, hy]
      exact hxy.bind fun left left' hleft =>
        sameEnd_ok.mpr (takeFrom_congr hleft.1 hleft.2)

/-- **Allocation sees its pool only.**  On memories that agree on the region, `Pool.allocate` ends
    with the same result or the same fault, and the memories still agree. -/
theorem allocate_congr (hr : p.region.Fits) (hin : ∀ a ∈ p.region, inside a)
    (h : Memory.SameOn inside m n) (requested : Word) :
    SameEnd (SameResult inside) (p.allocate m requested).outcome
      (p.allocate n requested).outcome := by
  rw [outcome_allocate, outcome_allocate]
  cases p.head with
  | none => exact sameEnd_error _
  | node first =>
    by_cases hone : requested < 1
    · simp only [hone, if_true]
      exact sameEnd_error _
    · simp only [hone, if_false]
      exact allocateFrom_congr hr hin h

/-- **Release sees its pool only.**  On memories that agree on the region, `Pool.release` ends with
    the same pool or the same fault, and the memories still agree. -/
theorem release_congr (hr : p.region.Fits) (hin : ∀ a ∈ p.region, inside a)
    (h : Memory.SameOn inside m n) (start requested : Word) :
    SameEnd (fun x y => x.1 = y.1 ∧ Memory.SameOn inside x.2 y.2)
      (p.release m start requested).outcome (p.release n start requested).outcome := by
  rw [outcome_release, outcome_release, blocks_congr hr (h.mono hin)]
  -- The three checks look at the region and at the list, which are the same on both sides.
  by_cases hcontains : !p.region.contains start
  · simp only [hcontains, if_true]
    exact sameEnd_error _
  simp only [hcontains, Bool.false_eq_true, if_false]
  by_cases hspan : releasedSize requested < 1
      || !p.region.containsSpan start (releasedSize requested)
  · simp only [hspan, if_true]
    exact sameEnd_error _
  simp only [hspan, Bool.false_eq_true, if_false]
  refine SameEnd.bind_same _ fun bs _ => ?_
  by_cases hmeets : bs.any (meets start (start + releasedSize requested))
  · simp only [hmeets, if_true]
    exact sameEnd_error _
  simp only [hmeets, Bool.false_eq_true, if_false]
  refine SameEnd.bind_same _ fun node _ => ?_
  exact (writeNode_congr h).bind fun m' n' h' => sameEnd_ok.mpr ⟨rfl, h'⟩

end Congruence

end Pool

end Timeshare
