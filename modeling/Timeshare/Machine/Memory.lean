import Timeshare.Address

namespace Timeshare

/-!
# Memory

A flat array of `memorySize` words.  Programs, free blocks, stacks and process records all
live in it.

* `Memory.read` and `Memory.write` work on an `Address` and cannot fail;
* `Memory.load` and `Memory.store` take a word that may name no address;
* `Memory.writeBlock` and `Memory.slice?` work on several words at once.
-/

/-- The words of memory. -/
structure Memory where
  words : Vector Word memorySize

namespace Memory

/-- Memory with zero in every word. -/
def zero : Memory := ⟨Vector.replicate memorySize 0⟩

/-- The word at an address. -/
def read (m : Memory) (a : Address) : Word := getElem m.words a.index a.index_lt

/-- Memory with another word at one address. -/
def write (m : Memory) (a : Address) (w : Word) : Memory :=
  ⟨m.words.set a.index w a.index_lt⟩

/-- The word at the address that a word names. -/
def load (m : Memory) (address : Word) : Except Fault Word :=
  (Address.ofWord address).map m.read

/-- Memory with another word at the address that a word names. -/
def store (m : Memory) (address value : Word) : Except Fault Memory :=
  (Address.ofWord address).map (m.write · value)

/-- Memory with a word put at an index; an index outside memory changes nothing. -/
def writeIndex (m : Memory) (i : Nat) (w : Word) : Memory := ⟨m.words.setIfInBounds i w⟩

/-- Memory with consecutive words from an index on. -/
def writeWords (m : Memory) : Nat → List Word → Memory
  | _, [] => m
  | i, w :: ws => (m.writeIndex i w).writeWords (i + 1) ws

/-- Memory with consecutive words from an address on, if they all fit. -/
def writeBlock (m : Memory) (start : Address) (words : List Word) : Except Fault Memory :=
  if start.index + words.length > memorySize then
    .error .invalidMemoryAddress
  else
    .ok (m.writeWords start.index words)

/-- `count` consecutive words from an address on, if there are that many. -/
def slice? (m : Memory) (start : Address) (count : Nat) : Option (List Word) :=
  if start.index + count ≤ memorySize then
    some (m.words.toList.drop start.index |>.take count)
  else
    none

/-- The number of words that are not zero. -/
def nonZero (m : Memory) : Nat := m.words.toList.countP (· ≠ 0)

/-- A one-line description of a memory. -/
def summary (m : Memory) : String :=
  s!"Memory \x7b size: {memorySize}, non_zero: {m.nonZero} \x7d"

/-- A word that has just been written is read back. -/
@[simp] theorem read_write_self (m : Memory) (a : Address) (w : Word) :
    (m.write a w).read a = w := by simp [read, write]

/-- A write to `a` leaves the word at any other address `b`. -/
theorem read_write_of_ne (m : Memory) {a b : Address} (w : Word) (h : a ≠ b) :
    (m.write a w).read b = m.read b := by
  have : a.index ≠ b.index := fun e => h (Address.ext e)
  simp [read, write, this]

/-- Two memories are equal if they hold the same word at every address. -/
@[ext] theorem ext {m n : Memory} (h : ∀ a, m.read a = n.read a) : m = n := by
  obtain ⟨m⟩ := m
  obtain ⟨n⟩ := n
  congr 1
  ext i hi
  simpa [read] using h ⟨i, hi⟩

end Memory

end Timeshare
