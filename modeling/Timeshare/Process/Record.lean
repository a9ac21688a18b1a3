import Timeshare.Machine.Cpu
import Timeshare.Process.State

namespace Timeshare

/-!
# Process records

The kernel keeps what it knows of a process in a record of `recordSize` words of memory.

* `Record` names a record by its first word, and `Record.ofAddress` only names records that lie in
  the region they are looked for in;
* `Slot` names the words of a record, `Record.get` and `Record.set` read and write them;
* `Record.saveContext` and `Record.restoreContext` exchange the registers of the processor with
  those in a record.

A record that ends inside memory has all its words there (`isSome_wordAddress`).  Where a region
that reaches beyond memory lets a record stick out, the words outside read as zero and cannot be
written.
-/

/-- The number of words of a process record. -/
def recordSize : Word := 22

/-- The words of a process record that have a meaning. -/
inductive Slot where
  /-- The next record in the queue. -/
  | next
  /-- The number of the process. -/
  | pid
  | state
  | reason
  | priority
  | stackStart
  | stackSize
  /-- A general register. -/
  | gpr (r : Register)
  | sp
  | pc
  /-- The privilege level. -/
  | psr
  deriving DecidableEq, Repr

/-- Where in a record a slot is.  The words 7 to 10 are kept for messages and not in use. -/
def Slot.offset : Slot → Nat
  | next => 0
  | pid => 1
  | state => 2
  | reason => 3
  | priority => 4
  | stackStart => 5
  | stackSize => 6
  | gpr r => 11 + r.val
  | sp => 19
  | pc => 20
  | psr => 21

/-- Every slot is one of the `22` words of a record. -/
theorem Slot.offset_lt (s : Slot) : s.offset < 22 := by
  cases s with
  | gpr r => simp only [offset]; omega
  | _ => decide

/-- A process record, named by the address of its first word. -/
structure Record where
  address : Address
  deriving DecidableEq, Repr

namespace Record

/-- The record that starts at the address that a word names, if it lies in the region. -/
def ofWord (w : Word) (region : Region) : Except Fault Record :=
  if region.containsSpan w recordSize then (Address.ofWord w).map Record.mk
  else .error .invalidMemoryAddress

/-- The record at an address, if it lies in the region. -/
def ofAddress (a : Address) (region : Region) : Except Fault Record := ofWord a.toWord region

/-- The address of a word of a record, if it is inside memory. -/
def wordAddress (r : Record) (i : Nat) : Option Address := Address.ofInt? (r.address.index + i)

/-- The content of a slot. -/
def get (r : Record) (m : Memory) (s : Slot) : Word := ((r.wordAddress s.offset).map m.read).getD 0

/-- Writes the word `i` of a record. -/
def setWord (r : Record) (m : Memory) (i : Nat) (w : Word) : Memory :=
  match r.wordAddress i with
  | some a => m.write a w
  | none => m

/-- Writes a slot. -/
def set (r : Record) (m : Memory) (s : Slot) (w : Word) : Memory := r.setWord m s.offset w

/-- The link to the next record in the queue. -/
def next (r : Record) (m : Memory) : Except Fault Link := Link.ofWord (r.get m .next)

/-- Writes the link to the next record. -/
def setNext (r : Record) (m : Memory) (l : Link) : Memory := r.set m .next l.toWord

/-- The number of the process. -/
def pid (r : Record) (m : Memory) : Word := r.get m .pid

/-- The priority of the process; larger is more urgent. -/
def priority (r : Record) (m : Memory) : Word := r.get m .priority

/-- The state of the process, if the record holds one. -/
def state? (r : Record) (m : Memory) : Option ProcessState := ProcessState.ofCode? (r.get m .state)

/-- Writes the state of the process. -/
def setState (r : Record) (m : Memory) (s : ProcessState) : Memory := r.set m .state s.code

/-- The reason for which the process waits, if the record holds one. -/
def reason? (r : Record) (m : Memory) : Option WaitReason := WaitReason.ofCode? (r.get m .reason)

/-- Writes the reason for which the process waits. -/
def setReason (r : Record) (m : Memory) (w : WaitReason) : Memory := r.set m .reason w.code

/-- Writes where the stack of the process is. -/
def setStack (r : Record) (m : Memory) (start : Address) (size : Word) : Memory :=
  r.set (r.set m .stackStart start.toWord) .stackSize size

/-- The saved general registers. -/
def gprs (r : Record) (m : Memory) : Vector Word 8 := Vector.ofFn fun i => r.get m (.gpr i)

/-- Zeroes the words of a record. -/
def clear (r : Record) (m : Memory) : Memory := (List.range 22).foldl (r.setWord · · 0) m

/-- Makes a record that of a new process. -/
def init (r : Record) (m : Memory) (pid priority : Word) : Memory :=
  let m := r.setNext (r.clear m) .none
  let m := r.set m .pid pid
  let m := r.setState m .ready
  let m := r.setReason m .none
  r.set m .priority priority

/-! ### Context switches -/

/-- Saves the registers of the processor that belong to the process. -/
def saveContext (r : Record) (m : Memory) (c : Cpu) : Memory :=
  let m := Register.all.foldl (fun m i => r.set m (.gpr i) (c.registers.get i)) m
  let m := r.set m .sp c.registers.sp
  let m := r.set m .pc c.registers.pc
  r.set m .psr c.registers.privilege.code

/-- Restores the registers of the process, with the privilege level of programs and the bounds
    of the process's stack. -/
def restoreContext (r : Record) (m : Memory) (c : Cpu) : Cpu :=
  { c with
    registers :=
      { c.registers with
        gpr := r.gprs m, sp := r.get m .sp, pc := r.get m .pc, privilege := .user }
    stack := some (.ofSize (r.get m .stackStart) (r.get m .stackSize)) }

/-! ### Copies of records -/

end Record

/-- A copy of what a record says. -/
structure RecordCopy where
  address : Address
  pid : Word
  state : Option ProcessState
  reason : Option WaitReason
  priority : Word
  next : Word
  stackStart : Word
  stackSize : Word
  gpr : Vector Word 8
  sp : Word
  pc : Word
  psr : Word
  deriving DecidableEq

/-- Copies a record. -/
def Record.copy (r : Record) (m : Memory) : RecordCopy where
  address := r.address
  pid := r.pid m
  state := r.state? m
  reason := r.reason? m
  priority := r.priority m
  next := r.get m .next
  stackStart := r.get m .stackStart
  stackSize := r.get m .stackSize
  gpr := r.gprs m
  sp := r.get m .sp
  pc := r.get m .pc
  psr := r.get m .psr

/-- A record that ends inside memory has all its words there: `r.wordAddress i` exists for
    `i < 22`. -/
theorem Record.isSome_wordAddress {r : Record} (h : r.address.index + 22 ≤ memorySize) {i : Nat}
    (hi : i < 22) : (r.wordAddress i).isSome := by
  simp only [wordAddress, Address.ofInt?]
  split
  · rfl
  · omega

end Timeshare
