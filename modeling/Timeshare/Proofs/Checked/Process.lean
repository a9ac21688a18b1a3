import Timeshare.Proofs.Checked.Storage
import Timeshare.Proofs.Process.Queue

namespace Timeshare

/-!
# The calculations of process records and queues

The words of a record are found by their index, which has to be one of memory.  A record that is taken
from a word lies in the pool of process records, and with it all its words lie in memory.

* `Checked.slot`, `Checked.setSlot` and what is built of them, and the operations of the queues.
* `Checked.slot_eq` and its companions — no access to a record in memory aborts.
* `Checked.stackBounds_eq` — nor does the calculation of the window of a stack.
* `Checked.insert_eq` and its companions — nor does an operation of a queue whose region lies in memory,
  whatever the links are.
-/

namespace Checked

variable {σ : Type}

/-! ### Records -/

/-- The address of a word of a record. -/
def field (r : Record) (i : Nat) : Checked σ Address := index (r.address.index + i)

/-- The content of a slot. -/
def slot (r : Record) (m : Memory) (s : Slot) : Checked σ Word := do
  return m.read (← field r s.offset)

/-- Writes the word `i` of a record. -/
def setWord (r : Record) (m : Memory) (i : Nat) (w : Word) : Checked σ Memory := do
  return m.write (← field r i) w

/-- Writes a slot. -/
def setSlot (r : Record) (m : Memory) (s : Slot) (w : Word) : Checked σ Memory := setWord r m s.offset w

/-- The record at an address, if it lies in the region. -/
def recordAt (a : Address) (region : Region) : Checked σ Record := do
  if ← containsSpan region a.toWord recordSize then
    ofExcept ((Address.ofWord a.toWord).map Record.mk)
  else
    throw .invalidMemoryAddress

/-- The link to the next record in the queue. -/
def next (r : Record) (m : Memory) : Checked σ Link := do
  ofExcept (Link.ofWord (← slot r m .next))

/-- Writes the link to the next record. -/
def setNext (r : Record) (m : Memory) (l : Link) : Checked σ Memory := setSlot r m .next l.toWord

/-- Writes the state of the process. -/
def setState (r : Record) (m : Memory) (s : ProcessState) : Checked σ Memory := setSlot r m .state s.code

/-- Writes the reason for which the process waits. -/
def setReason (r : Record) (m : Memory) (w : WaitReason) : Checked σ Memory := setSlot r m .reason w.code

/-- Writes where the stack of the process is. -/
def setStack (r : Record) (m : Memory) (start : Address) (size : Word) : Checked σ Memory := do
  let m ← setSlot r m .stackStart start.toWord
  setSlot r m .stackSize size

/-- Makes a record that of a new process. -/
def init (r : Record) (m : Memory) (pid priority : Word) : Checked σ Memory := do
  let m ← (List.range 22).foldlM (setWord r · · 0) m
  let m ← setNext r m .none
  let m ← setSlot r m .pid pid
  let m ← setState r m .ready
  let m ← setReason r m .none
  setSlot r m .priority priority

/-- Saves the registers of the processor that belong to the process. -/
def saveRegisters (r : Record) (m : Memory) (c : Cpu) : Checked σ Memory := do
  let m ← Register.all.foldlM (fun m i => setSlot r m (.gpr i) (c.registers.get i)) m
  let m ← setSlot r m .sp c.registers.sp
  let m ← setSlot r m .pc c.registers.pc
  setSlot r m .psr c.registers.privilege.code

/-- The window of a stack of `size` words from `start` on. -/
def stackBounds (start size : Word) : Checked σ StackBounds := do
  let stop ← word (start.toInt + size.toInt)
  return ⟨start, ← word (stop.toInt - (1 : Word).toInt)⟩

/-- Restores the registers of the process, and the bounds of its stack. -/
def restoreContext (r : Record) (m : Memory) (c : Cpu) : Checked σ Cpu := do
  let gpr ← Vector.ofFnM fun i => slot r m (.gpr i)
  let sp ← slot r m .sp
  let pc ← slot r m .pc
  let bounds ← stackBounds (← slot r m .stackStart) (← slot r m .stackSize)
  return { c with
    registers := { c.registers with gpr, sp, pc, privilege := .user }
    stack := some bounds }

/-! ### Queues -/

/-- Refuses a record that does not lie in the region of a queue. -/
def checkMember (region : Region) (r : Record) : Checked σ Unit := do
  let _ ← recordAt r.address region

/-- Detaches the first record of a chain, if there is one, and gives the link to the rest. -/
def detachFirst (region : Region) (head : Link) (m : Memory) :
    Checked σ (Option (Record × Link × Memory)) :=
  match head with
  | .none => return none
  | .node a => do
    let r ← recordAt a region
    let rest ← next r m
    return some (r, rest, ← setNext r m .none)

/-- Where a process of the given priority belongs in the chain from a link on.  As for
    `ReadyQueue.position`, the fault at the end of the fuel stands for a walk that never ends. -/
def position (region : Region) (m : Memory) (priority : Word) :
    Nat → Option Record → Link → Checked σ (Option Record × Link)
  | _, previous, .none => return (previous, .none)
  | 0, _, .node _ => throw .invalidMemoryAddress
  | fuel + 1, previous, .node a => do
    let r ← recordAt a region
    if (← slot r m .priority) < priority then
      return (previous, .node a)
    position region m priority fuel (some r) (← next r m)

/-- Makes a process ready. -/
def insertReady (q : ReadyQueue) (m : Memory) (r : Record) : Checked σ (ReadyQueue × Memory) := do
  checkMember q.region r
  let (previous, following) ← position q.region m (← slot r m .priority) memorySize none q.head
  let m ← setNext r (← setState r m .ready) following
  let (q, m) ← match previous with
    | none => pure ({ q with head := .node r.address }, m)
    | some p => do pure (q, ← setNext p m (.node r.address))
  -- A notice shows the number.
  let _ ← slot r m .pid
  return (q, m)

/-- Takes the first process off the ready queue, if there is one. -/
def popReadyQueue (q : ReadyQueue) (m : Memory) : Checked σ (Option (Record × ReadyQueue × Memory)) := do
  return (← detachFirst q.region q.head m).map fun (r, head, m) => (r, { q with head }, m)

/-- Lets a process wait. -/
def insertWaiting (q : WaitQueue) (m : Memory) (r : Record) : Checked σ (WaitQueue × Memory) := do
  checkMember q.region r
  let m ← setNext r (← setState r m .waiting) q.head
  let _ ← slot r m .pid
  return ({ q with head := .node r.address }, m)

/-- The first record with a process number in the chain from a link on, with the record before it and the
    link behind it.  As for `WaitQueue.find`, the fault at the end of the fuel stands for a walk that never
    ends. -/
def find (region : Region) (m : Memory) (pid : Word) :
    Nat → Option Record → Link → Checked σ (Option Record × Record × Link)
  | _, _, .none => throw .pidNotFound
  | 0, _, .node _ => throw .invalidMemoryAddress
  | fuel + 1, previous, .node a => do
    let r ← recordAt a region
    let following ← next r m
    if (← slot r m .pid) = pid then
      return (previous, r, following)
    find region m pid fuel (some r) following

/-- Takes the process with a number off the wait queue. -/
def removeWaitingQueue (q : WaitQueue) (m : Memory) (pid : Word) :
    Checked σ (Record × WaitQueue × Memory) := do
  let (previous, r, following) ← find q.region m pid memorySize none q.head
  match previous with
  | none => return (r, { q with head := following }, ← setNext r m .none)
  | some p => return (r, q, ← setNext r (← setNext p m following) .none)

/-- Takes the newest process off the wait queue, if there is one. -/
def popWaitingQueue (q : WaitQueue) (m : Memory) :
    Checked σ (Option (Record × WaitQueue × Memory)) := do
  return (← detachFirst q.region q.head m).map fun (r, head, m) => (r, { q with head }, m)

/-! ### No access to a record aborts -/

section Record

variable {r : Record} (h : r.InMemory) (m : Memory)
include h

omit m in
/-- The first `22` words of a record in memory are in memory: `field r i` is `pure a` for the
    address `a` of the word `i`. -/
theorem field_eq {i : Nat} (hi : i < 22) :
    ∃ a, r.wordAddress i = some a ∧ (field r i : Checked σ Address) = pure a := by
  have hlt : r.address.index + i < memorySize := by
    unfold Record.InMemory at h
    omega
  exact ⟨⟨_, hlt⟩, Record.wordAddress_eq_some_iff.mpr rfl, index_eq hlt⟩

/-- To read a slot of a record in memory does not abort: `slot r m s = pure (r.get m s)`. -/
theorem slot_eq (s : Slot) : (slot r m s : Checked σ Word) = pure (r.get m s) := by
  obtain ⟨a, ha, hfield⟩ := field_eq (σ := σ) h s.offset_lt
  rw [slot, hfield, pure_bind, Record.get, ha]
  rfl

/-- To write one of the `22` words does not abort either:
    `setWord r m i w = pure (r.setWord m i w)`. -/
theorem setWord_eq {i : Nat} (hi : i < 22) (w : Word) :
    (setWord r m i w : Checked σ Memory) = pure (r.setWord m i w) := by
  -- The same address as in the plain version, whose `none` branch is therefore not taken.
  obtain ⟨a, ha, hfield⟩ := field_eq (σ := σ) h hi
  rw [setWord, hfield, pure_bind, Record.setWord, ha]

/-- To write a slot is to write the word at its offset, which is below `22`:
    `setSlot r m s w = pure (r.set m s w)`. -/
theorem setSlot_eq (s : Slot) (w : Word) : (setSlot r m s w : Checked σ Memory) = pure (r.set m s w) :=
  setWord_eq h m s.offset_lt w

/-- The link to the next record is read without an abort; it may be no link, which is a fault of
    `r.next m`. -/
theorem next_eq : (next r m : Checked σ Link) = ofExcept (r.next m) := by
  rw [next, slot_eq h, pure_bind]
  rfl

/-- The link to the next record is written without an abort:
    `setNext r m l = pure (r.setNext m l)`. -/
theorem setNext_eq (l : Link) : (setNext r m l : Checked σ Memory) = pure (r.setNext m l) :=
  setSlot_eq h m .next _

/-- The state is written without an abort: `setState r m s = pure (r.setState m s)`. -/
theorem setState_eq (s : ProcessState) : (setState r m s : Checked σ Memory) = pure (r.setState m s) :=
  setSlot_eq h m .state _

/-- The reason to wait is written without an abort: `setReason r m w = pure (r.setReason m w)`. -/
theorem setReason_eq (w : WaitReason) : (setReason r m w : Checked σ Memory) = pure (r.setReason m w) :=
  setSlot_eq h m .reason _

/-- The two words of the stack are written without an abort:
    `setStack r m start size = pure (r.setStack m start size)`. -/
theorem setStack_eq (start : Address) (size : Word) :
    (setStack r m start size : Checked σ Memory) = pure (r.setStack m start size) := by
  rw [setStack, setSlot_eq h, pure_bind, setSlot_eq h]
  rfl

/-- The record of a new process is made without an abort:
    `init r m pid priority = pure (r.init m pid priority)`. -/
theorem init_eq (pid priority : Word) :
    (init r m pid priority : Checked σ Memory) = pure (r.init m pid priority) := by
  -- The fold clears the words `0 … 21`, each of which is in memory.
  have hclear : ((List.range 22).foldlM (setWord r · · 0) m : Checked σ Memory) = pure (r.clear m) :=
    foldlM_eq (fun m i hi => setWord_eq h m (List.mem_range.mp hi) 0) m
  simp only [init, hclear, pure_bind, setNext_eq h, setSlot_eq h, setState_eq h, setReason_eq h]
  rfl

/-- The registers are saved without an abort: `saveRegisters r m c = pure (r.saveContext m c)`. -/
theorem saveRegisters_eq (c : Cpu) :
    (saveRegisters r m c : Checked σ Memory) = pure (r.saveContext m c) := by
  simp only [saveRegisters, setSlot_eq h, List.foldlM_pure, pure_bind]
  rfl

omit h m in
/-- A stack that starts in memory and is not larger than memory has bounds that are words: neither
    `start + size` nor the `- 1` leaves them. -/
theorem stackBounds_eq {start size : Word} (hstart : 0 ≤ start.toInt ∧ start.toInt ≤ memorySize)
    (hsize : 0 ≤ size.toInt ∧ size.toInt ≤ memorySize) :
    (stackBounds start size : Checked σ StackBounds) = pure (.ofSize start size) := by
  have hone : (1 : Word).toInt = 1 := rfl
  simp only [memorySize] at hstart hsize
  have hadd : (start + size).toInt = start.toInt + size.toInt := Word.toInt_add (by omega) (by omega)
  rw [stackBounds, word_add (by omega) (by omega), pure_bind, word_sub (by omega) (by omega), pure_bind]
  rfl

/-- The registers are restored without an abort, where the start and the size of the stack in the
    record are between `0` and `memorySize`. -/
theorem restoreContext_eq {start size : Word} (hstart : r.get m .stackStart = start)
    (hstart' : 0 ≤ start.toInt ∧ start.toInt ≤ memorySize) (hsize : r.get m .stackSize = size)
    (hsize' : 0 ≤ size.toInt ∧ size.toInt ≤ memorySize) (c : Cpu) :
    (restoreContext r m c : Checked σ Cpu) = pure (r.restoreContext m c) := by
  simp only [restoreContext, slot_eq h, Vector.ofFnM_pure, pure_bind]
  rw [hstart, hsize, stackBounds_eq hstart' hsize', pure_bind, ← hstart, ← hsize]
  rfl

end Record

/-! ### No operation of a queue aborts -/

section Queue

variable {region : Region} (hr : region.Fits) (m : Memory)
include hr

omit hr m in
/-- The record at an address is found without an abort, whatever the region: the end of the span is
    only compared. -/
theorem recordAt_eq (a : Address) :
    (recordAt a region : Checked σ Record) = ofExcept (Record.ofAddress a region) := by
  rw [recordAt, containsSpan_eq, pure_bind, Record.ofAddress, Record.ofWord]
  split <;> rfl

omit hr m in
/-- A record that does not lie in the region is refused without an abort. -/
theorem checkMember_eq (r : Record) :
    (checkMember region r : Checked σ Unit) = ofExcept (Timeshare.checkMember region r).outcome := by
  rw [checkMember, recordAt_eq, Timeshare.checkMember]
  cases Record.ofAddress r.address region <;> rfl

omit hr m in
/-- A queue takes nothing in that has not all its words in memory: an accepted record lies in
    `region`, and `region` fits in memory. -/
theorem inMemory_of_checkMember (hr : region.Fits) {r : Record}
    (h : (Timeshare.checkMember region r).outcome = .ok ()) : r.InMemory := by
  rw [Timeshare.checkMember] at h
  cases hat : Record.ofAddress r.address region with
  | ok q =>
    obtain ⟨hq, hwithin⟩ := (Record.ofAddress_eq_ok_iff hr).mp hat
    obtain rfl : q = r := congrArg Record.mk hq
    exact hwithin.inMemory hr
  | error e =>
    rw [hat] at h
    exact absurd h (by simp)

/-- The first record of a chain is detached without an abort: it was found in `region`, so its link
    is in memory. -/
theorem detachFirst_eq (head : Link) :
    (detachFirst region head m : Checked σ (Option (Record × Link × Memory)))
      = ofExcept (Timeshare.detachFirst region head m) := by
  cases head with
  | none => rfl
  | node a =>
    simp only [detachFirst, Timeshare.detachFirst, recordAt_eq, ofExcept_bind]
    refine ofExcept_bind_congr fun r h => ?_
    have hin := Record.InMemory.of_ofAddress hr h
    simp only [next_eq hin, setNext_eq hin, pure_bind]
    rfl

/-- The walk to the place of a process does not abort, whatever the links are: for each fuel it ends
    as `ReadyQueue.position` does. -/
theorem position_eq (priority : Word) (fuel : Nat) (previous : Option Record) (l : Link) :
    (position region m priority fuel previous l : Checked σ (Option Record × Link))
      = ofExcept (ReadyQueue.position region m priority fuel previous l) := by
  -- Induction on the fuel, with the place of the walk general.
  induction fuel generalizing previous l with
  | zero => cases l <;> rfl
  | succ fuel ih =>
    cases l with
    | none => rfl
    | node a =>
      simp only [position, ReadyQueue.position, recordAt_eq, ofExcept_bind]
      refine ofExcept_bind_congr fun r h => ?_
      -- The record was found in `region`, so its words are in memory.
      have hin := Record.InMemory.of_ofAddress hr h
      simp only [next_eq hin, slot_eq hin, pure_bind]
      change (if r.priority m < priority then _ else _) = _
      split
      · rfl
      · simp only [ih, ofExcept_bind]

/-- The walk to the process with a number does not abort, whatever the links are: for each fuel it
    ends as `WaitQueue.find` does. -/
theorem find_eq (pid : Word) (fuel : Nat) (previous : Option Record) (l : Link) :
    (find region m pid fuel previous l : Checked σ (Option Record × Record × Link))
      = ofExcept (WaitQueue.find region m pid fuel previous l) := by
  induction fuel generalizing previous l with
  | zero => cases l <;> rfl
  | succ fuel ih =>
    cases l with
    | none => rfl
    | node a =>
      simp only [find, WaitQueue.find, recordAt_eq, ofExcept_bind]
      refine ofExcept_bind_congr fun r h => ?_
      have hin := Record.InMemory.of_ofAddress hr h
      simp only [next_eq hin, slot_eq hin, pure_bind]
      refine ofExcept_bind_congr fun following _ => ?_
      -- Both compare the same word, once the reads are gone.
      change (if r.pid m = pid then _ else _) = _
      split
      · rfl
      · exact ih _ _

/-- The record behind which a process belongs is one of the chain, so that it is in memory: it is
    `previous`, or the walk went over it. -/
theorem inMemory_of_position {priority : Word} {fuel : Nat} {previous previous' : Option Record}
    {l l' : Link} (h : ReadyQueue.position region m priority fuel previous l = .ok (previous', l'))
    (hprevious : ∀ p ∈ previous, p.InMemory) : ∀ p ∈ previous', p.InMemory := by
  induction fuel generalizing previous l with
  | zero =>
    cases l with
    | none =>
      obtain ⟨rfl, -⟩ := Prod.mk.inj (Except.ok.inj h)
      exact hprevious
    | node a => exact absurd h (by simp [ReadyQueue.position])
  | succ fuel ih =>
    cases l with
    | none =>
      obtain ⟨rfl, -⟩ := Prod.mk.inj (Except.ok.inj h)
      exact hprevious
    | node a =>
      obtain ⟨r, hat, h⟩ := bind_eq_ok_iff.mp h
      split at h
      · obtain ⟨rfl, -⟩ := Prod.mk.inj (Except.ok.inj h)
        exact hprevious
      · obtain ⟨l, -, h⟩ := bind_eq_ok_iff.mp h
        -- The walk goes on behind a record that was found in `region`.
        exact ih h fun p hp => Option.mem_some.mp hp ▸ Record.InMemory.of_ofAddress hr hat

/-- The record `r` with a number and the one before it, if any, are of the chain, and therefore in
    memory. -/
theorem inMemory_of_find {pid : Word} {fuel : Nat} {previous previous' : Option Record} {l l' : Link}
    {r : Record} (h : WaitQueue.find region m pid fuel previous l = .ok (previous', r, l'))
    (hprevious : ∀ p ∈ previous, p.InMemory) : (∀ p ∈ previous', p.InMemory) ∧ r.InMemory := by
  induction fuel generalizing previous l with
  | zero => cases l <;> exact absurd h (by simp [WaitQueue.find])
  | succ fuel ih =>
    cases l with
    | none => exact absurd h (by simp [WaitQueue.find])
    | node a =>
      obtain ⟨q, hat, h⟩ := bind_eq_ok_iff.mp h
      obtain ⟨following, -, h⟩ := bind_eq_ok_iff.mp h
      have hin := Record.InMemory.of_ofAddress hr hat
      split at h
      · obtain ⟨rfl, hrest⟩ := Prod.mk.inj (Except.ok.inj h)
        obtain ⟨rfl, -⟩ := Prod.mk.inj hrest
        exact ⟨hprevious, hin⟩
      · exact ih h fun p hp => Option.mem_some.mp hp ▸ hin

omit hr m in
/-- What is detached is a record in memory, since it was found in a region that fits. -/
theorem inMemory_of_detachFirst (hr : region.Fits) {m m' : Memory} {r : Record} {head rest : Link}
    (h : Timeshare.detachFirst region head m = .ok (some (r, rest, m'))) : r.InMemory := by
  cases head with
  | none => exact absurd h (by simp [Timeshare.detachFirst])
  | node a =>
    obtain ⟨q, hat, h⟩ := bind_eq_ok_iff.mp h
    obtain ⟨l, -, h⟩ := bind_eq_ok_iff.mp h
    obtain ⟨rfl, -⟩ := Prod.mk.inj (Option.some.inj (Except.ok.inj h))
    exact Record.InMemory.of_ofAddress hr hat

end Queue

section Queues

variable (m : Memory)

/-- To make a process ready does not abort, whatever the links of the queue and whatever the record:
    the end is that of `q.insert m r`. -/
theorem insertReady_eq {q : ReadyQueue} (hr : q.region.Fits) (r : Record) :
    (insertReady q m r : Checked σ (ReadyQueue × Memory)) = ofExcept (q.insert m r).outcome := by
  simp only [insertReady, ReadyQueue.insert, checkMember_eq, position_eq hr, Attempt.outcome_seq,
    Attempt.outcome_ofExcept, ofExcept_bind]
  refine ofExcept_bind_congr fun _ hmember => ?_
  -- Two records are touched: the one that comes in, and the one before it if there is one.
  have hin := inMemory_of_checkMember hr hmember
  rw [slot_eq hin, pure_bind]
  refine ofExcept_bind_congr fun x hpos => ?_
  obtain ⟨previous, following⟩ := x
  have hprevious := inMemory_of_position hr m hpos (by simp)
  simp only [setState_eq hin, setNext_eq hin, pure_bind]
  cases previous with
  | none =>
    simp only [slot_eq hin, pure_bind]
    rfl
  | some p =>
    simp only [setNext_eq (hprevious p rfl), slot_eq hin, pure_bind]
    rfl

/-- To take the first process off the ready queue does not abort: the end is that of `q.pop m`. -/
theorem popReadyQueue_eq {q : ReadyQueue} (hr : q.region.Fits) :
    (popReadyQueue q m : Checked σ (Option (Record × ReadyQueue × Memory))) = ofExcept (q.pop m) := by
  rw [popReadyQueue, detachFirst_eq hr, ReadyQueue.pop, ofExcept_bind]
  rfl

/-- To let a process wait does not abort: the end is that of `q.insert m r`. -/
theorem insertWaiting_eq {q : WaitQueue} (hr : q.region.Fits) (r : Record) :
    (insertWaiting q m r : Checked σ (WaitQueue × Memory)) = ofExcept (q.insert m r).outcome := by
  simp only [insertWaiting, WaitQueue.insert, checkMember_eq, Attempt.outcome_seq, ofExcept_bind]
  refine ofExcept_bind_congr fun _ hmember => ?_
  have hin := inMemory_of_checkMember hr hmember
  simp only [setState_eq hin, setNext_eq hin, slot_eq hin, pure_bind]
  rfl

/-- To take the process with a number off the wait queue does not abort: the end is that of
    `q.remove m pid`. -/
theorem removeWaitingQueue_eq {q : WaitQueue} (hr : q.region.Fits) (pid : Word) :
    (removeWaitingQueue q m pid : Checked σ (Record × WaitQueue × Memory))
      = ofExcept (q.remove m pid) := by
  simp only [removeWaitingQueue, WaitQueue.remove, find_eq hr, ofExcept_bind]
  refine ofExcept_bind_congr fun x hfind => ?_
  obtain ⟨previous, r, following⟩ := x
  -- Both records that are written were found on the walk.
  obtain ⟨hprevious, hin⟩ := inMemory_of_find hr m hfind (by simp)
  cases previous with
  | none =>
    simp only [setNext_eq hin, pure_bind]
    rfl
  | some p =>
    simp only [setNext_eq (hprevious p rfl), setNext_eq hin, pure_bind]
    rfl

/-- To take the newest process off the wait queue does not abort: the end is that of `q.pop m`. -/
theorem popWaitingQueue_eq {q : WaitQueue} (hr : q.region.Fits) :
    (popWaitingQueue q m : Checked σ (Option (Record × WaitQueue × Memory))) = ofExcept (q.pop m) := by
  rw [popWaitingQueue, detachFirst_eq hr, WaitQueue.pop, ofExcept_bind]
  rfl

end Queues

/-! ### What the queues hand out -/

section Results

variable {m m' : Memory} {r : Record}

/-- A queue stays in its region: `q'.region = q.region` after a process was made ready. -/
theorem region_of_insertReady {q q' : ReadyQueue} (h : (q.insert m r).outcome = .ok (q', m')) :
    q'.region = q.region := by
  simp only [ReadyQueue.insert, Attempt.outcome_seq, bind_eq_ok_iff, Attempt.outcome_pure,
    Except.ok.injEq, Prod.mk.injEq] at h
  obtain ⟨-, -, ⟨previous, following⟩, -, -, -, hq, -⟩ := h
  cases previous with
  | none => exact hq ▸ rfl
  | some p => exact hq ▸ rfl

/-- So does the wait queue after a process was let wait: only the head changes. -/
theorem region_of_insertWaiting {q q' : WaitQueue} (h : (q.insert m r).outcome = .ok (q', m')) :
    q'.region = q.region := by
  simp only [WaitQueue.insert, Attempt.outcome_seq, bind_eq_ok_iff, Attempt.outcome_pure,
    Except.ok.injEq, Prod.mk.injEq] at h
  obtain ⟨-, -, -, -, h, -⟩ := h
  exact h ▸ rfl

/-- What `q.pop` hands out is a record in memory, and the queue stays in its region. -/
theorem of_popReady {q q' : ReadyQueue} (hr : q.region.Fits) (h : q.pop m = .ok (some (r, q', m'))) :
    q'.region = q.region ∧ r.InMemory := by
  obtain ⟨x, hdetach, h⟩ := bind_eq_ok_iff.mp h
  obtain ⟨⟨r', l, m₁⟩, rfl, hx⟩ := Option.map_eq_some_iff.mp (Except.ok.inj h)
  simp only [Prod.mk.injEq] at hx
  obtain ⟨rfl, rfl, -⟩ := hx
  exact ⟨rfl, inMemory_of_detachFirst hr hdetach⟩

/-- The same of the wait queue: a record in memory, and `q'.region = q.region`. -/
theorem of_popWaiting {q q' : WaitQueue} (hr : q.region.Fits) (h : q.pop m = .ok (some (r, q', m'))) :
    q'.region = q.region ∧ r.InMemory := by
  obtain ⟨x, hdetach, h⟩ := bind_eq_ok_iff.mp h
  obtain ⟨⟨r', l, m₁⟩, rfl, hx⟩ := Option.map_eq_some_iff.mp (Except.ok.inj h)
  simp only [Prod.mk.injEq] at hx
  obtain ⟨rfl, rfl, -⟩ := hx
  exact ⟨rfl, inMemory_of_detachFirst hr hdetach⟩

/-- A process that is taken off by its number has its record in memory, and the queue stays in its
    region. -/
theorem of_removeWaiting {q q' : WaitQueue} (hr : q.region.Fits) {pid : Word}
    (h : q.remove m pid = .ok (r, q', m')) : q'.region = q.region ∧ r.InMemory := by
  obtain ⟨⟨previous, r', following⟩, hfind, h⟩ := bind_eq_ok_iff.mp h
  obtain ⟨-, hin⟩ := inMemory_of_find hr m hfind (by simp)
  cases previous with
  | none =>
    obtain ⟨rfl, hx⟩ := Prod.mk.inj (Except.ok.inj h)
    obtain ⟨rfl, -⟩ := Prod.mk.inj hx
    exact ⟨rfl, hin⟩
  | some p =>
    obtain ⟨rfl, hx⟩ := Prod.mk.inj (Except.ok.inj h)
    obtain ⟨rfl, -⟩ := Prod.mk.inj hx
    exact ⟨rfl, hin⟩

end Results

end Checked

end Timeshare
