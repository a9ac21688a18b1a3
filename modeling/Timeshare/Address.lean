import Timeshare.Fault

namespace Timeshare

/-!
# Addresses and links

* `Address` is the index of a word of memory.  It carries the proof that it is inside
  memory, so that reading and writing through it cannot fail.
* `Link` is what list nodes in memory point with: the end of the list, or an address.

Words that come from registers or from memory become addresses by `Address.ofWord?` and
links by `Link.ofWord`, and nowhere else.
-/

/-- The number of words in memory. -/
def memorySize : Nat := 10000

/-- The index of a word of memory. -/
@[ext] structure Address where
  index : Nat
  index_lt : index < memorySize
  deriving DecidableEq

namespace Address

/-- The address with a given index, if that index is inside memory. -/
def ofInt? (i : Int) : Option Address :=
  if h : 0 ≤ i ∧ i.toNat < memorySize then some ⟨i.toNat, h.2⟩ else none

/-- The address that a word names, if it names one. -/
def ofWord? (w : Word) : Option Address := ofInt? w.toInt

/-- The address that a word names, or the fault of a word that names none. -/
def ofWord (w : Word) : Except Fault Address :=
  match ofWord? w with
  | some a => .ok a
  | none => .error .invalidMemoryAddress

/-- The word that names an address. -/
def toWord (a : Address) : Word := Int64.ofNat a.index

/-- The address `distance` words further on, if it is still inside memory. -/
def offset (a : Address) (distance : Word) : Option Address :=
  ofInt? (a.index + distance.toInt)

instance : ToString Address := ⟨fun a => toString a.index⟩

/-- Where an address has to be told from a number, there is a sign in front of it. -/
instance : Repr Address := ⟨fun a _ => "@" ++ toString a⟩

/-- An integer names the address `a` iff it is the index of `a`. -/
theorem ofInt?_eq_some_iff {i : Int} {a : Address} : ofInt? i = some a ↔ i = a.index := by
  obtain ⟨n, hn⟩ := a
  simp only [ofInt?, Option.dite_none_right_eq_some, Option.some.injEq, Address.mk.injEq]
  constructor
  · rintro ⟨_, h⟩; omega
  · rintro rfl; exact ⟨by omega, by omega⟩

/-- The word of an address is its index; no address is too large for a word. -/
theorem toInt_toWord (a : Address) : a.toWord.toInt = a.index := by
  have h := a.index_lt
  simp only [memorySize] at h
  exact Int64.toInt_ofNat_of_lt (by omega)

/-- Reading back the word of an address gives the address. -/
@[simp] theorem ofWord?_toWord (a : Address) : ofWord? a.toWord = some a := by
  simp [ofWord?, ofInt?_eq_some_iff, toInt_toWord]

/-- A word names the address `a` iff its value is the index of `a`. -/
theorem ofWord?_eq_some_iff {w : Word} {a : Address} :
    ofWord? w = some a ↔ w.toInt = a.index := ofInt?_eq_some_iff

end Address

/-- What a list node in memory points with. -/
inductive Link where
  /-- There is no next node. -/
  | none
  /-- The next node is at this address. -/
  | node (a : Address)
  deriving DecidableEq, Repr

namespace Link

/-- The word that marks the end of a list. -/
def endWord : Word := -1

/-- The link that a stored word means.  A word that is neither the end marker nor an address
    means none. -/
def ofWord (w : Word) : Except Fault Link :=
  if w = endWord then .ok none else (Address.ofWord w).map node

/-- The word that stores a link. -/
def toWord : Link → Word
  | none => endWord
  | node a => a.toWord

/-- The address that a link points to. -/
def address? : Link → Option Address
  | none => Option.none
  | node a => some a

/-- The link that points to an optional address. -/
def ofAddress? : Option Address → Link
  | Option.none => none
  | some a => node a

/-- Whether a link ends its list. -/
def isEnd : Link → Bool
  | none => true
  | node _ => false

instance : ToString Link where
  toString
    | none => "END"
    | node a => toString a

/-- Reading back the address of a link gives the link: without an address it is the end,
    `ofAddress? l.address? = l`. -/
@[simp] theorem ofAddress?_address? (l : Link) : ofAddress? l.address? = l := by
  cases l <;> rfl

/-- Reading back the word of a link gives the link: `-1`, the end, is the word of no address. -/
@[simp] theorem ofWord_toWord (l : Link) : ofWord l.toWord = .ok l := by
  cases l with
  | none => rfl
  | node a =>
    have h : a.toWord ≠ endWord := by
      intro h
      have := congrArg Int64.toInt h
      rw [Address.toInt_toWord] at this
      have he : endWord.toInt = -1 := by decide
      omega
    simp [ofWord, toWord, h, Address.ofWord, Except.map]

end Link

end Timeshare
