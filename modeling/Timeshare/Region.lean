import Timeshare.Address

namespace Timeshare

/-!
# Regions and the memory layout

* `Region` is an inclusive range of memory words.  Its bounds are unsigned; a word is compared
  with them as with signed words, so a bound of `2 ^ 63` or more counts as negative.
* `Layout` splits memory into the program area, the pool that processes allocate from, and
  the pool that holds the process records.
-/

/-- An inclusive range of memory words, empty if `last < start`. -/
structure Region where
  start : UInt64
  last : UInt64
  deriving DecidableEq, Repr

namespace Region

/-- The number of words in a region.  The sum wraps, so a region that reaches up to
    `2 ^ 64 - 1` counts as empty. -/
def length (r : Region) : UInt64 :=
  if r.last + 1 < r.start then 0 else r.last + 1 - r.start

/-- Whether a region has no words. -/
def isEmpty (r : Region) : Bool := r.last < r.start

/-- Whether a word lies between the bounds. -/
def contains (r : Region) (w : Word) : Bool :=
  r.start.toInt64 ≤ w && w ≤ r.last.toInt64

/-- Whether `count` words from `start` on all lie in the region.  A span without words, or one
    that runs beyond the largest word, lies in no region. -/
def containsSpan (r : Region) (start count : Word) : Bool :=
  let reach := start.toInt + count.toInt - 1
  1 ≤ count && r.contains start && reach ≤ Int64.maxValue.toInt && r.contains (Int64.ofInt reach)

/-- The address of the first word, if it is inside memory. -/
def first? (r : Region) : Option Address := Address.ofWord? r.start.toInt64

end Region

/-- How memory is split between the programs and the two pools. -/
structure Layout where
  /-- Where programs are loaded and run. -/
  userProgram : Region := ⟨0, 2499⟩
  /-- Where stacks and the memory that programs ask for come from. -/
  userPool : Region := ⟨2500, 4499⟩
  /-- Where the process records are kept. -/
  osPool : Region := ⟨4500, 9999⟩
  deriving DecidableEq, Repr

namespace Layout

instance : Inhabited Layout := ⟨{}⟩

/-- The words that a program may reach through its operands: the program area and the user
    pool, with what lies between them. -/
def operandRange (l : Layout) : Region := ⟨l.userProgram.start, l.userPool.last⟩

/-- Whether a region has words and ends inside memory. -/
def fits (r : Region) : Bool := !r.isEmpty && r.last.toNat < memorySize

/-- Accepts a layout whose regions have words, end inside memory and follow each other without
    overlap, and whose pools can hold a free block. -/
def validate (l : Layout) : Except Fault Unit :=
  if !(fits l.userProgram && fits l.userPool && fits l.osPool) then
    .error .invalidAddress
  else if l.userProgram.last ≥ l.userPool.start || l.userPool.last ≥ l.osPool.start then
    .error .invalidAddress
  else if l.userPool.length < 2 || l.osPool.length < 2 then
    .error .invalidMemorySize
  else
    .ok ()

end Layout

end Timeshare
