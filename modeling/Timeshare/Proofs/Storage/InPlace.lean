import Timeshare.Proofs.Storage.FirstFit

namespace Timeshare

/-!
# Pools in place

`Pool.allocate` and `Pool.release` say what memory becomes if they succeed.  A pool at work has no second
memory: it writes word after word, and what it has written stays when it fails later on.  Here the
operations are done in this way, and in the order in which they read and write.

* `Pool.Site` — a pool at work: the pool, its memory, and the number of nodes that it has read.
* `Pool.InPlace.allocate`, `Pool.InPlace.release`, `Pool.InPlace.blocks` — the operations, step by step.
* `Pool.Site.Mirrors` — an operation in place ends as the plain one does, with its pool and memory; where
  it fails, nothing has changed; and it has read no more nodes than a bound.
* `Pool.safe_on_any_memory` — nothing needs to be known of memory for all of this, nor for where the blocks
  lie and which words have changed.
-/

namespace Pool

/-- A pool at work: the pool, its memory, and the number of nodes that it has read. -/
structure Site where
  pool : Pool
  memory : Memory
  reads : Nat

namespace InPlace

/-- Reads a node, and counts it. -/
def readNode (node : Address) : Action Site (Link × Word) := do
  modify fun s => { s with reads := s.reads + 1 }
  let s ← get
  Action.attempt (s.pool.readNode s.memory node)

/-- Writes one word. -/
def write (a : Address) (w : Word) : Action Site Unit :=
  modify fun s => { s with memory := s.memory.write a w }

/-- Lets the list start at a link. -/
def setHead (l : Link) : Action Site Unit :=
  modify fun s => { s with pool := { s.pool with head := l } }

/-- Writes the link of a node, and then its size. -/
def writeNode (node : Address) (next : Link) (size : Word) : Action Site Unit := do
  let second ← Action.ofExcept (sizeAddress node)
  write node next.toWord
  write second size

/-- Lets the list go on at `next` behind `previous`, or start there. -/
def relink (previous : Option Address) (next : Link) : Action Site Unit :=
  match previous with
  | none => setHead next
  | some node => write node next.toWord

/-- Hands a node out, of whose block `rest` is the link that takes its place. -/
def handOut (previous : Option Address) (node : Address) (rest : Link) : Action Site Address := do
  relink previous rest
  write node Link.endWord
  return node

/-- Takes the first block that fits among the nodes from `node` on. -/
def allocateFrom (size : Word) : Nat → Option Address → Address → Action Site Address
  | 0, _, _ => throw .invalidMemoryAddress
  | fuel + 1, previous, node => do
    let (next, blockSize) ← readNode node
    let left := blockSize - size
    if left = 0 then
      handOut previous node next
    else if minBlockSize ≤ left then
      match node.offset size with
      | none => throw .invalidMemoryAddress
      | some rest => do
        writeNode rest next left
        handOut previous node (.node rest)
    else
      match next with
      | .node following => allocateFrom size fuel (some node) following
      | .none => throw .noFreeMemory

/-- Allocates a block of at least `requested` words. -/
def allocate (requested : Word) : Action Site Address := do
  let s ← get
  match s.pool.head with
  | .none => throw .noFreeMemory
  | .node first =>
    if requested < 1 then
      throw .invalidMemorySize
    else
      allocateFrom (max requested minBlockSize) s.pool.maxNodes none first

/-- The free blocks from a link on. -/
def blocksFrom : Nat → Link → Action Site (List FreeBlock)
  | _, .none => return []
  | 0, .node _ => throw .invalidMemoryAddress
  | fuel + 1, .node node => do
    let (next, size) ← readNode node
    let rest ← blocksFrom fuel next
    return ⟨node, size⟩ :: rest

/-- The free blocks in the order of the list. -/
def blocks : Action Site (List FreeBlock) := do
  let s ← get
  blocksFrom s.pool.maxNodes s.pool.head

/-- Takes a block back. -/
def release (start requested : Word) : Action Site Unit := do
  let s ← get
  if !s.pool.region.contains start then
    throw .invalidMemoryAddress
  else if releasedSize requested < 1
      || !s.pool.region.containsSpan start (releasedSize requested) then
    throw .invalidSizeOrMemoryAddress
  else do
    let bs ← blocks
    if bs.any (meets start (start + releasedSize requested)) then
      throw .invalidSizeOrMemoryAddress
    else do
      let node ← Action.ofExcept (Address.ofWord start)
      writeNode node s.pool.head (releasedSize requested)
      setHead (.node node)

end InPlace

/-! ### Operations that change all or nothing -/

/-- An operation in place ends as a plain one does.  If it succeeds, the pool and memory are those of the
    plain operation; if it fails, they are what they were.  It reads at most `k` nodes. -/
def Site.Mirrors {α : Type} (x : Action Site α) (s : Site) (out : Except Fault (α × Pool × Memory))
    (k : Nat) : Prop :=
  Action.Ends x s (fun a t => out = .ok (a, t.pool, t.memory) ∧ t.reads ≤ s.reads + k)
    (fun e t => out = .error e ∧ t.pool = s.pool ∧ t.memory = s.memory ∧ t.reads ≤ s.reads + k)

namespace Site

variable {α β : Type} {s : Site} {x : Action Site α} {f : α → Action Site β} {out : Except Fault α}
  {g : α → Except Fault (β × Pool × Memory)} {k l : Nat}

theorem mirrors_pure {a : α} : Mirrors (pure a) s (.ok (a, s.pool, s.memory)) 0 :=
  ⟨rfl, Nat.le_refl _⟩

theorem mirrors_throw {e : Fault} : Mirrors (throw e : Action Site α) s (.error e) 0 :=
  ⟨rfl, rfl, rfl, Nat.le_refl _⟩

theorem mirrors_ofExcept (s : Site) (out : Except Fault α) :
    Mirrors (Action.ofExcept out) s (out.map fun a => (a, s.pool, s.memory)) 0 := by
  cases out with
  | ok a => exact mirrors_pure
  | error e => exact mirrors_throw

/-- A bound `k` for the nodes that are read may be replaced by a larger one. -/
theorem Mirrors.mono {out : Except Fault (α × Pool × Memory)} (h : Mirrors x s out k) (hkl : k ≤ l) :
    Mirrors x s out l :=
  Action.Ends.mono h (fun _ _ h => ⟨h.1, by omega⟩) fun _ _ h => ⟨h.1, h.2.1, h.2.2.1, by omega⟩

/-- Looking at the pool reads no node. -/
theorem Mirrors.get_bind {f : Site → Action Site β} {out : Except Fault (β × Pool × Memory)}
    (h : Mirrors (f s) s out k) : Mirrors (get >>= f) s out k := Action.ends_bind.mpr h

/-- An operation that has changed nothing so far may go on: if `x` mirrors `out` without a change,
    and each `f a` mirrors `g a`, then `x >>= f` mirrors `out >>= g` and reads at most `k + l`
    nodes. -/
theorem Mirrors.bind (hx : Mirrors x s (out.map fun a => (a, s.pool, s.memory)) k)
    (hf : ∀ a t, t.pool = s.pool → t.memory = s.memory → Mirrors (f a) t (g a) l) :
    Mirrors (x >>= f) s (out >>= g) (k + l) := by
  refine Action.ends_bind.mpr (Action.Ends.mono hx ?_ ?_)
  · rintro a t ⟨hout, hreads⟩
    obtain ⟨b, rfl, hb⟩ := map_eq_ok_iff.mp hout
    simp only [Prod.mk.injEq] at hb
    obtain ⟨rfl, hpool, hmemory⟩ := hb
    refine Action.Ends.mono (hf b t hpool.symm hmemory.symm) ?_ ?_
    · rintro c u ⟨hg, hu⟩
      exact ⟨hg, by omega⟩
    -- A failure of the second part leaves what the first part has left, which is what was there
    -- before.
    · rintro e u ⟨hg, hupool, humemory, hu⟩
      exact ⟨hg, hupool.trans hpool.symm, humemory.trans hmemory.symm, by omega⟩
  · rintro e t ⟨hout, hpool, hmemory, hreads⟩
    obtain rfl := map_eq_error_iff.mp hout
    exact ⟨rfl, hpool, hmemory, by omega⟩

end Site

/-- What is done to the result of `x >>= f` is done to that of its second part. -/
theorem map_bind {α β γ : Type} (x : Except Fault α) (f : α → Except Fault β) (g : β → γ) :
    (x >>= f).map g = x >>= fun a => (f a).map g := by
  cases x <;> rfl

namespace InPlace

open Site

/-! ### Each operation mirrors the plain one -/

/-- Reading a node in place mirrors `Pool.readNode`, and is one read. -/
theorem readNode_mirrors (s : Site) (node : Address) :
    Mirrors (readNode node) s
      ((s.pool.readNode s.memory node).outcome.map fun r => (r, s.pool, s.memory)) 1 := by
  unfold readNode Mirrors
  simp only [Action.ends_bind, Action.ends_modify, Action.ends_get, Action.ends_attempt]
  constructor
  · intro r hr
    exact ⟨by rw [hr]; rfl, Nat.le_refl _⟩
  · intro e he
    exact ⟨by rw [he]; rfl, trivial, trivial, Nat.le_refl _⟩

/-- Handing out a node writes what `takeFrom` does, and cannot fail. -/
theorem handOut_mirrors (s : Site) (previous : Option Address) (node : Address) (rest : Link) :
    Mirrors (handOut previous node rest) s
      (.ok (s.pool.takeFrom previous node (rest, s.memory))) 0 := by
  cases previous <;> exact ⟨rfl, Nat.le_refl _⟩

/-- A node is written as a whole or not at all, so that `x`, which follows and cannot fail, sees the
    memory with the node. -/
theorem writeNode_mirrors {α : Type} (s : Site) (node : Address) (next : Link) (size : Word)
    {x : Action Site α} {g : Memory → α × Pool × Memory}
    (hx : ∀ m, Mirrors x { s with memory := m } (.ok (g m)) 0) :
    Mirrors (writeNode node next size >>= fun _ => x) s
      ((Pool.writeNode s.memory node next size).map g) 0 := by
  cases hsecond : sizeAddress node with
  | error e =>
    have hexec : Action.exec (writeNode node next size) s = (.error e, s) := by
      rw [writeNode, hsecond]
      rfl
    rw [Mirrors, Action.Ends, Action.exec_bind_error hexec, Pool.writeNode, hsecond]
    exact ⟨rfl, rfl, rfl, Nat.le_refl _⟩
  | ok second =>
    have hexec : Action.exec (writeNode node next size) s
        = (.ok (), { s with memory := (s.memory.write node next.toWord).write second size }) := by
      rw [writeNode, hsecond]
      rfl
    rw [Mirrors, Pool.writeNode, hsecond, Action.ends_bind, Action.ends_of_ok hexec]
    -- What follows starts from the memory with the node, and does not fail.
    refine Action.Ends.mono (hx _) (fun _ _ h => h) ?_
    rintro e t ⟨herror, -⟩
    exact absurd herror (by simp)

/-- The search in place mirrors `Pool.allocateFrom` and reads at most `fuel` nodes: what it writes
    comes after all that can fail. -/
theorem allocateFrom_mirrors (s : Site) (size : Word) (fuel : Nat) (previous : Option Address)
    (node : Address) :
    Mirrors (allocateFrom size fuel previous node) s
      (s.pool.allocateFrom s.memory size fuel previous node).outcome fuel := by
  induction fuel generalizing s previous node with
  | zero =>
    rw [outcome_allocateFrom_zero]
    exact mirrors_throw
  | succ fuel ih =>
    rw [outcome_allocateFrom_succ, allocateFrom]
    refine Mirrors.mono ?_ (Nat.le_of_eq (Nat.add_comm 1 fuel))
    refine (readNode_mirrors s node).bind fun r t hpool hmemory => ?_
    obtain ⟨next, blockSize⟩ := r
    rw [← hpool, ← hmemory]
    dsimp only
    unfold remainder?
    -- The three ends of a turn: the whole block is handed out, or its front, or the search goes on.
    by_cases hzero : blockSize - size = 0
    · simp only [hzero, if_true]
      exact (handOut_mirrors t previous node next).mono (Nat.zero_le _)
    by_cases htwo : minBlockSize ≤ blockSize - size
    · simp only [hzero, htwo, if_false, if_true]
      cases node.offset size with
      | none => exact mirrors_throw.mono (Nat.zero_le _)
      | some rest =>
        have hwrite := writeNode_mirrors t rest next (blockSize - size)
          (x := handOut previous node (.node rest)) fun m => handOut_mirrors _ previous node (.node rest)
        refine Mirrors.mono ?_ (Nat.zero_le fuel)
        dsimp only
        convert hwrite using 1
        cases Pool.writeNode t.memory rest next (blockSize - size) <;> rfl
    · simp only [hzero, htwo, if_false]
      cases next with
      | none => exact mirrors_throw.mono (Nat.zero_le _)
      | node following => exact ih t (some node) following

/-- **Allocation in place** mirrors `Pool.allocate` and reads at most `s.pool.maxNodes` nodes. -/
theorem allocate_mirrors (s : Site) (requested : Word) :
    Mirrors (allocate requested) s (s.pool.allocate s.memory requested).outcome s.pool.maxNodes := by
  rw [outcome_allocate]
  refine Mirrors.get_bind ?_
  cases s.pool.head with
  | none => exact mirrors_throw.mono (Nat.zero_le _)
  | node first =>
    by_cases hone : requested < 1
    · simp only [hone, if_true]
      exact mirrors_throw.mono (Nat.zero_le _)
    · simp only [hone, if_false]
      exact allocateFrom_mirrors s _ _ none first

/-- Reading the list in place, from a link on, mirrors `Pool.blocksFrom` and reads at most `fuel`
    nodes. -/
theorem blocksFrom_mirrors (s : Site) (fuel : Nat) (l : Link) :
    Mirrors (blocksFrom fuel l) s
      ((s.pool.blocksFrom s.memory fuel l).outcome.map fun bs => (bs, s.pool, s.memory)) fuel := by
  induction fuel generalizing s l with
  | zero =>
    cases l with
    | none => exact mirrors_pure
    | node a => exact mirrors_throw
  | succ fuel ih =>
    cases l with
    | none => exact mirrors_pure.mono (Nat.zero_le _)
    | node a =>
      -- One turn of the plain reading, in the form of one turn in place.
      have hout : (s.pool.blocksFrom s.memory (fuel + 1) (.node a)).outcome.map
            (fun bs => (bs, s.pool, s.memory))
          = (s.pool.readNode s.memory a).outcome >>= fun r =>
            (s.pool.blocksFrom s.memory fuel r.1).outcome >>= fun rest =>
              .ok (⟨a, r.2⟩ :: rest, s.pool, s.memory) := by
        rw [Pool.blocksFrom, Attempt.outcome_seq]
        cases (s.pool.readNode s.memory a).outcome with
        | error e => rfl
        | ok r =>
          rw [ok_bind, ok_bind, Attempt.outcome_seq]
          cases (s.pool.blocksFrom s.memory fuel r.1).outcome <;> rfl
      rw [hout, blocksFrom]
      refine Mirrors.mono ?_ (Nat.le_of_eq (Nat.add_comm 1 fuel))
      refine (readNode_mirrors s a).bind fun r t hpool hmemory => ?_
      obtain ⟨next, size⟩ := r
      rw [← hpool, ← hmemory]
      refine (ih t next).bind (l := 0) fun rest u hpool hmemory => ?_
      rw [← hpool, ← hmemory]
      exact mirrors_pure

/-- **Reading the list in place** mirrors `Pool.blocks`, and changes nothing. -/
theorem blocks_mirrors (s : Site) :
    Mirrors blocks s ((s.pool.blocks s.memory).outcome.map fun bs => (bs, s.pool, s.memory))
      s.pool.maxNodes := Mirrors.get_bind (blocksFrom_mirrors s _ _)

/-- **Release in place** mirrors `Pool.release` and reads at most `s.pool.maxNodes` nodes. -/
theorem release_mirrors (s : Site) (start requested : Word) :
    Mirrors (release start requested) s
      ((s.pool.release s.memory start requested).outcome.map fun (p, m) => ((), p, m))
      s.pool.maxNodes := by
  rw [outcome_release]
  refine Mirrors.get_bind ?_
  by_cases hin : !s.pool.region.contains start
  · simp only [hin, if_true]
    exact mirrors_throw.mono (Nat.zero_le _)
  simp only [hin, Bool.false_eq_true, if_false]
  by_cases hspan : releasedSize requested < 1
      || !s.pool.region.containsSpan start (releasedSize requested)
  · simp only [hspan, if_true]
    exact mirrors_throw.mono (Nat.zero_le _)
  simp only [hspan, Bool.false_eq_true, if_false]
  rw [map_bind]
  refine (blocks_mirrors s).bind (l := 0) fun bs t hpool hmemory => ?_
  by_cases hmeets : bs.any (meets start (start + releasedSize requested))
  · simp only [hmeets, if_true]
    exact mirrors_throw
  simp only [hmeets, Bool.false_eq_true, if_false]
  rw [map_bind]
  refine (mirrors_ofExcept t (Address.ofWord start)).bind (l := 0) fun node u hpool' hmemory' => ?_
  rw [← hpool, ← hpool', ← hmemory, ← hmemory']
  -- Only the head is left to be set when the node has been written.
  have hwrite := writeNode_mirrors u node u.pool.head (releasedSize requested)
    (x := setHead (.node node)) (g := fun m => ((), { u.pool with head := .node node }, m))
    fun m => ⟨rfl, Nat.le_refl _⟩
  convert hwrite using 1
  cases Pool.writeNode u.memory node u.pool.head (releasedSize requested) <;> rfl

end InPlace

/-! ### Any memory -/

variable {p p' : Pool} {m m' : Memory} {requested : Word}

/-- A pool over a region without words serves no request: the fault is `noFreeMemory` if its list is
    empty, and else `invalidMemoryAddress`. -/
theorem allocate_of_lt (hr : p.region.InMemory) (hlt : p.region.last.toNat < p.region.start.toNat)
    (hreq : 1 ≤ requested.toInt) :
    (p.allocate m requested).outcome
      = if p.head = .none then .error .noFreeMemory else .error .invalidMemoryAddress := by
  have hone : ¬ requested < 1 := by
    rw [Int64.lt_iff_toInt_lt, Int.not_lt]
    exact hreq
  have hmax : p.maxNodes = 0 := by rw [maxNodes, hr.length_eq_zero hlt]
  rw [outcome_allocate]
  cases p.head with
  | none => rfl
  | node first =>
    simp only [hone, hmax, if_false, reduceCtorEq]
    exact outcome_allocateFrom_zero

/-- The list of a pool over a region without words can be read only if it is empty. -/
theorem blocks_of_lt (hr : p.region.InMemory) (hlt : p.region.last.toNat < p.region.start.toNat) :
    (p.blocks m).outcome = if p.head = .none then .ok [] else .error .invalidMemoryAddress := by
  have hmax : p.maxNodes = 0 := by rw [maxNodes, hr.length_eq_zero hlt]
  rw [blocks, hmax]
  cases p.head with
  | none => rfl
  | node first => rfl

/-- A pool that hands out a block has words. -/
theorem fits_of_allocate (hr : p.region.InMemory) {a : Address}
    (hok : (p.allocate m requested).outcome = .ok (a, p', m')) : p.region.Fits := by
  rcases hr.fits_or_lt with hfits | hlt
  · exact hfits
  · rw [allocate_of_lt hr hlt (one_le_of_allocate hok)] at hok
    split at hok <;> exact absurd hok (by simp)

/-- A pool that takes a block back has words. -/
theorem fits_of_release (hr : p.region.InMemory) {start : Word}
    (hok : (p.release m start requested).outcome = .ok (p', m')) : p.region.Fits := by
  rcases hr.fits_or_lt with hfits | hlt
  · exact hfits
  · rw [outcome_release, hr.contains_eq_false hlt, if_pos (by decide)] at hok
    exact absurd hok (by simp)

/-- **No free memory.**  Of a list that has a first block, a request for one or more words reports
    `noFreeMemory` iff the list can be read and no block of it fits. -/
theorem allocate_noFreeMemory_iff (hr : p.region.InMemory) (hhead : p.head ≠ .none)
    (hreq : 1 ≤ requested.toInt) :
    (p.allocate m requested).outcome = .error .noFreeMemory ↔
      ∃ bs, (p.blocks m).outcome = .ok bs ∧ ∀ b ∈ bs, ¬ b.Fits (max requested minBlockSize) := by
  rcases hr.fits_or_lt with hfits | hlt
  · constructor
    · intro herror
      rcases allocate_error hfits hreq herror with ⟨-, hbs⟩ | ⟨he, -⟩
      · exact hbs
      · exact absurd he (by simp)
    · rintro ⟨bs, hbs, hnone⟩
      obtain ⟨hchain, hlen⟩ := (blocks_eq_ok_iff hfits).mp hbs
      have hone : ¬ requested < 1 := by
        rw [Int64.lt_iff_toInt_lt, Int.not_lt]
        exact hreq
      have htwo := two_le_max requested
      rw [outcome_allocate]
      cases hfirst : p.head with
      | none => exact absurd hfirst hhead
      | node first =>
        rw [hfirst] at hchain
        simp only [hone, if_false]
        have hpos : 0 ≤ (max requested minBlockSize).toInt := by omega
        -- The search takes no block that does not fit.
        rcases allocateFrom_search none hfits hpos hchain hlen with
          ⟨-, hout⟩ | ⟨skipped, b, rest, next, left, rfl, -, hb, hleft, -⟩
        · exact hout
        · obtain ⟨left', hsplits, -⟩ := remainder?_splits hfits hb.within htwo hleft
          exact absurd hsplits.fits (hnone b (by simp))
  · rw [allocate_of_lt hr hlt hreq, blocks_of_lt hr hlt, if_neg hhead, if_neg hhead]
    constructor
    · intro h
      exact absurd h (by simp)
    · rintro ⟨bs, hbs, -⟩
      exact absurd hbs (by simp)

/-- **Any other failure** of an allocation is `invalidMemoryAddress`, and the list cannot be
    read. -/
theorem allocate_damaged (hr : p.region.InMemory) (hhead : p.head ≠ .none)
    (hreq : 1 ≤ requested.toInt) {e : Fault} (herror : (p.allocate m requested).outcome = .error e)
    (hne : e ≠ .noFreeMemory) :
    e = .invalidMemoryAddress ∧ (p.blocks m).outcome = .error .invalidMemoryAddress := by
  rcases hr.fits_or_lt with hfits | hlt
  · rcases allocate_error hfits hreq herror with ⟨he, -⟩ | ⟨rfl, hblocks⟩
    · exact absurd he hne
    · exact ⟨rfl, hblocks⟩
  · rw [allocate_of_lt hr hlt hreq, if_neg hhead] at herror
    rw [blocks_of_lt hr hlt, if_neg hhead]
    exact ⟨(Except.error.inj herror).symm, rfl⟩

/-- **A damaged list takes no block back:** if `Pool.blocks` fails then `Pool.release` does. -/
theorem release_damaged (hr : p.region.InMemory) {e : Fault} (hblocks : (p.blocks m).outcome = .error e)
    (start requested : Word) : ∃ e', (p.release m start requested).outcome = .error e' := by
  cases hout : (p.release m start requested).outcome with
  | error e' => exact ⟨e', rfl⟩
  | ok r =>
    obtain ⟨b, second, bs, -, -, -, hbs, -⟩ := (release_eq_ok_iff (fits_of_release hr hout)).mp hout
    rw [hbs] at hblocks
    exact absurd hblocks (by simp)

/-- **Pools are safe on any memory.**  Take any memory, whatever stands in it, and any pool over a
    region in memory, wherever its list starts.  Each operation, done in place, ends as the plain
    one does and reads at most `p.region.length / 2` nodes.  If it fails, pool and memory are what
    they were.  If an allocation or a release succeeds, its block of at least two words lies in the
    region, and so does every word that has changed.  Of a list that has a first block, an
    allocation of one or more words reports `noFreeMemory` iff the list can be read and no block of
    it fits; any other failure means that the list is damaged, and a damaged list takes no block
    back. -/
theorem safe_on_any_memory (p : Pool) (m : Memory) (hr : p.region.InMemory) :
    (∀ n : Word, Action.Ends (InPlace.allocate n) ⟨p, m, 0⟩
      (fun a s => (p.allocate m n).outcome = .ok (a, s.pool, s.memory)
        ∧ s.reads ≤ p.region.length.toNat / 2
        ∧ FreeBlock.Within ⟨a, max n minBlockSize⟩ p.region
        ∧ Memory.SameOn (· ∉ p.region) m s.memory)
      (fun e s => (p.allocate m n).outcome = .error e ∧ s.reads ≤ p.region.length.toNat / 2
        ∧ s.pool = p ∧ s.memory = m)) ∧
    (∀ a n : Word, Action.Ends (InPlace.release a n) ⟨p, m, 0⟩
      (fun _ s => (p.release m a n).outcome = .ok (s.pool, s.memory)
        ∧ s.reads ≤ p.region.length.toNat / 2
        ∧ (∃ b : FreeBlock, b.Within p.region ∧ b.address.toWord = a ∧ b.size = max n minBlockSize)
        ∧ Memory.SameOn (· ∉ p.region) m s.memory)
      (fun e s => (p.release m a n).outcome = .error e ∧ s.reads ≤ p.region.length.toNat / 2
        ∧ s.pool = p ∧ s.memory = m)) ∧
    (∃ s : Site, Action.exec InPlace.blocks ⟨p, m, 0⟩ = ((p.blocks m).outcome, s)
      ∧ s.reads ≤ p.region.length.toNat / 2 ∧ s.pool = p ∧ s.memory = m) ∧
    (∀ n : Word, p.head ≠ .none → 1 ≤ n.toInt →
      ((p.allocate m n).outcome = .error .noFreeMemory ↔
        ∃ bs, (p.blocks m).outcome = .ok bs ∧ ∀ b ∈ bs, ¬ b.Fits (max n minBlockSize))
      ∧ ∀ e, (p.allocate m n).outcome = .error e → e ≠ .noFreeMemory →
        e = .invalidMemoryAddress ∧ (p.blocks m).outcome = .error .invalidMemoryAddress) ∧
    ∀ e, (p.blocks m).outcome = .error e → ∀ a n, ∃ e', (p.release m a n).outcome = .error e' := by
  -- The number of nodes that are read is bounded by `maxNodes`, which is half the words of the
  -- region.
  have hbound : ∀ k : Nat, k ≤ 0 + p.maxNodes → k ≤ p.region.length.toNat / 2 := by
    intro k hk
    rwa [Nat.zero_add] at hk
  refine ⟨fun n => ?_, fun a n => ?_, ?_, fun n hhead hn => ⟨allocate_noFreeMemory_iff hr hhead hn, fun e =>
    allocate_damaged hr hhead hn⟩, fun e he => release_damaged hr he⟩
  · refine Action.Ends.mono (InPlace.allocate_mirrors ⟨p, m, 0⟩ n) ?_ ?_
    · rintro a s ⟨hok, hreads⟩
      obtain ⟨hwithin, -, -, hsame⟩ := allocate_confined (fits_of_allocate hr hok) hok
      exact ⟨hok, hbound _ hreads, hwithin, hsame⟩
    · rintro e s ⟨herror, hpool, hmemory, hreads⟩
      exact ⟨herror, hbound _ hreads, hpool, hmemory⟩
  · refine Action.Ends.mono (InPlace.release_mirrors ⟨p, m, 0⟩ a n) ?_ ?_
    · rintro u s ⟨hok, hreads⟩
      rw [← Attempt.outcome_map, map_release_eq_ok_iff] at hok
      have hfits := fits_of_release hr hok
      obtain ⟨b, second, bs, hb, ha, hsize, -⟩ := (release_eq_ok_iff hfits).mp hok
      obtain ⟨-, -, hsame⟩ := release_confined hfits hok
      exact ⟨hok, hbound _ hreads, ⟨b, hb, ha, size_eq_max hb hsize⟩, hsame⟩
    · rintro e s ⟨herror, hpool, hmemory, hreads⟩
      exact ⟨map_eq_error_iff.mp herror, hbound _ hreads, hpool, hmemory⟩
  · have hmirrors := InPlace.blocks_mirrors ⟨p, m, 0⟩
    rcases hexec : Action.exec InPlace.blocks ⟨p, m, 0⟩ with ⟨e | bs, s⟩
    · rw [Site.Mirrors, Action.ends_of_error hexec] at hmirrors
      obtain ⟨hout, hpool, hmemory, hreads⟩ := hmirrors
      rw [map_eq_error_iff.mp hout]
      exact ⟨s, rfl, hbound _ hreads, hpool, hmemory⟩
    · rw [Site.Mirrors, Action.ends_of_ok hexec] at hmirrors
      obtain ⟨hout, hreads⟩ := hmirrors
      obtain ⟨bs', hblocks, hb⟩ := map_eq_ok_iff.mp hout
      simp only [Prod.mk.injEq] at hb
      obtain ⟨rfl, hpool, hmemory⟩ := hb
      rw [hblocks]
      exact ⟨s, rfl, hbound _ hreads, hpool.symm, hmemory.symm⟩

/-- A node that links to itself, and a request for five words, which do not fit there: over a region
    of six words the search gives up after three nodes, and nothing has changed. -/
theorem safe_on_any_memory_loop :
    ∃ (p : Pool) (m : Memory), p.region.InMemory ∧ p.region.length.toNat = 6
      ∧ (∃ e s, Action.exec (InPlace.allocate 5) ⟨p, m, 0⟩ = (.error e, s) ∧ s.reads ≤ 3
        ∧ s.pool = p ∧ s.memory = m)
      ∧ ∃ e, (p.release m 6 2).outcome = .error e := by
  have hr : (Region.mk 4 9).InMemory := ⟨by decide, by decide⟩
  obtain ⟨hallocate, -, -, -, hrelease⟩ := safe_on_any_memory ⟨.user, ⟨4, 9⟩, .node ⟨4, by decide⟩⟩
    ((Memory.zero.write ⟨4, by decide⟩ 4).write ⟨5, by decide⟩ 2) hr
  refine ⟨_, _, hr, by decide, ?_, hrelease .invalidMemoryAddress (by decide +kernel) 6 2⟩
  have hfails : (Pool.allocate ⟨.user, ⟨4, 9⟩, .node ⟨4, by decide⟩⟩
      ((Memory.zero.write ⟨4, by decide⟩ 4).write ⟨5, by decide⟩ 2) 5).outcome.isOk = false := by
    decide +kernel
  have hends := hallocate 5
  rcases hexec : Action.exec (InPlace.allocate 5) ⟨⟨.user, ⟨4, 9⟩, .node ⟨4, by decide⟩⟩,
    (Memory.zero.write ⟨4, by decide⟩ 4).write ⟨5, by decide⟩ 2, 0⟩ with ⟨e | a, s⟩
  · rw [Action.ends_of_error hexec] at hends
    obtain ⟨-, hreads, hpool, hmemory⟩ := hends
    exact ⟨e, s, rfl, hreads, hpool, hmemory⟩
  · rw [Action.ends_of_ok hexec] at hends
    rw [hends.1] at hfails
    exact absurd hfails (by simp [Except.isOk, Except.toBool])

end Pool

end Timeshare
