import Timeshare.Logged
import Timeshare.Machine.Memory

namespace Timeshare

/-!
# Memory pools

A pool hands out blocks of its region and takes them back.  Its free blocks form a list that
is threaded through the blocks themselves: the first word of a free block links to the next
one, the second holds its size.

* `Pool.allocate` takes the first block that fits, either all of it or its front;
* `Pool.release` puts a block in front of the list and refuses one with words that are free;
* `Pool.blocks` is the list.

The list lives in memory that programs may write to, so nothing read from it is trusted: a node
that describes no block of the pool, or a list longer than the pool can hold, is a fault.  An
operation that fails changes nothing, and its result says what memory becomes if it does not.
-/

/-- A pool: whom it serves, its region, and its first free block. -/
structure Pool where
  owner : PoolOwner
  region : Region
  head : Link
  deriving DecidableEq, Repr

namespace Pool

/-- A pool over a region, without any free block yet. -/
def empty (owner : PoolOwner) (region : Region) : Pool := ⟨owner, region, .none⟩

/-- Whether the free list has no block. -/
def isEmpty (p : Pool) : Bool := p.head.isEnd

/-- The number of free blocks that a region has room for. -/
def maxNodes (p : Pool) : Nat := p.region.length.toNat / 2

/-- The address of the word that holds the size of a free block. -/
def sizeAddress (node : Address) : Except Fault Address :=
  match node.offset 1 with
  | some a => .ok a
  | none => .error .invalidMemoryAddress

/-- Makes the words at an address a free block of the given size. -/
def writeNode (m : Memory) (node : Address) (next : Link) (size : Word) : Except Fault Memory :=
  (sizeAddress node).map fun a => (m.write node next.toWord).write a size

/-- The link and the size in a free block, which has to lie in the pool. -/
def readNode (p : Pool) (m : Memory) (node : Address) : Attempt (Link × Word) := do
  let next ← Attempt.ofExcept (Link.ofWord (m.read node))
  let size := m.read (← Attempt.ofExcept (sizeAddress node))
  if size < minBlockSize || !p.region.containsSpan node.toWord size then
    Attempt.note (.corruptNode p.owner node size)
    throw .invalidMemoryAddress
  return (next, size)

/-- Makes the whole region one free block. -/
def fill (p : Pool) (m : Memory) : Attempt (Pool × Memory) := do
  let some start := p.region.first? | throw .invalidMemoryAddress
  let size := p.region.length.toInt64
  let m ← Attempt.ofExcept (writeNode m start .none size)
  Attempt.note (.poolOpened p.owner size start)
  return ({ p with head := .node start }, m)

/-- The free blocks from a link on, if there are at most `fuel`. -/
def blocksFrom (p : Pool) (m : Memory) : Nat → Link → Attempt (List FreeBlock)
  | _, .none => return []
  | 0, .node _ => throw .invalidMemoryAddress
  | fuel + 1, .node node => do
    let (next, size) ← p.readNode m node
    let rest ← p.blocksFrom m fuel next
    return ⟨node, size⟩ :: rest

/-- The free blocks in the order of the list. -/
def blocks (p : Pool) (m : Memory) : Attempt (List FreeBlock) := p.blocksFrom m p.maxNodes p.head

/-- The number of free words. -/
def freeWords (p : Pool) (m : Memory) : Attempt Word := do
  let bs ← p.blocks m
  return bs.foldl (fun sum b => sum + b.size) 0

/-! ### Allocation -/

/-- Lets the list go on at `next` behind `previous`, or start there. -/
def relink (p : Pool) (m : Memory) (previous : Option Address) (next : Link) : Pool × Memory :=
  match previous with
  | none => ({ p with head := next }, m)
  | some node => (p, m.write node next.toWord)

/-- What a free block leaves in its place when its first `size` words are taken: its successor
    if nothing is left, or else a smaller block.  One word is too little for a block, so a free
    block that is larger by one word does not fit. -/
def remainder? (m : Memory) (node : Address) (next : Link) (blockSize size : Word) :
    Option (Except Fault (Link × Memory)) :=
  let left := blockSize - size
  if left = 0 then
    some (.ok (next, m))
  else if minBlockSize ≤ left then
    some <| match node.offset size with
      | none => .error .invalidMemoryAddress
      | some rest => (writeNode m rest next left).map fun m => (.node rest, m)
  else
    none

/-- Takes the first block that fits among the nodes from `node` on, of which at most `fuel` are
    looked at. -/
def allocateFrom (p : Pool) (m : Memory) (size : Word) :
    Nat → Option Address → Address → Attempt (Address × Pool × Memory)
  | 0, _, _ => do
    Attempt.note (.endlessList p.owner)
    throw .invalidMemoryAddress
  | fuel + 1, previous, node => do
    let (next, blockSize) ← p.readNode m node
    match remainder? m node next blockSize size with
    | some remainder =>
      let (rest, m) ← Attempt.ofExcept remainder
      let (p, m) := p.relink m previous rest
      Attempt.note (.blockTaken p.owner size node (blockSize = size))
      return (node, p, m.write node Link.endWord)
    | none =>
      match next with
      | .node following => p.allocateFrom m size fuel (some node) following
      | .none =>
        Attempt.note (.noFit p.owner size)
        throw .noFreeMemory

/-- Allocates a block of at least `requested` words: the front of the first free block that
    fits. -/
def allocate (p : Pool) (m : Memory) (requested : Word) : Attempt (Address × Pool × Memory) :=
  match p.head with
  | .none => do
    Attempt.note (.poolExhausted p.owner)
    throw .noFreeMemory
  | .node first => do
    if requested < 1 then
      Attempt.note (.badRequest p.owner requested)
      throw .invalidMemorySize
    p.allocateFrom m (max requested minBlockSize) p.maxNodes none first

/-! ### Release -/

/-- Whether the words from `start` up to `stop` meet a free block. -/
def meets (start stop : Word) (b : FreeBlock) : Bool :=
  start < b.address.toWord + b.size && b.address.toWord < stop

/-- Takes a block back: it becomes the first of the list.  A block of one word was allocated
    with two. -/
def release (p : Pool) (m : Memory) (start requested : Word) : Attempt (Pool × Memory) := do
  if !p.region.contains start then
    Attempt.note (.releaseOutside p.owner start)
    throw .invalidMemoryAddress
  let size := if requested = 1 then minBlockSize else requested
  if size < 1 || !p.region.containsSpan start size then
    Attempt.note (.badRelease p.owner size start)
    throw .invalidSizeOrMemoryAddress
  let bs ← p.blocks m
  if bs.any (meets start (start + size)) then
    Attempt.note (.alreadyFree p.owner size start)
    throw .invalidSizeOrMemoryAddress
  let node ← Attempt.ofExcept (Address.ofWord start)
  let m ← Attempt.ofExcept (writeNode m node p.head size)
  Attempt.note (.blockReleased p.owner size node)
  return ({ p with head := .node node }, m)

end Pool

end Timeshare
