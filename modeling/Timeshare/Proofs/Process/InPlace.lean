import Timeshare.Process.Queue
import Timeshare.Proofs.Action

namespace Timeshare

/-!
# Queues in place

The operations of the queues say what memory becomes if they succeed.  A queue at work has no second
memory: it writes word after word, and what it has written stays when it fails later on.  Here the
operations are done in this way, and in the order in which they read and write.

* `QueueSite` — a queue at work: its region, where it starts, and memory.
* `QueueSite.makeReady`, `QueueSite.makeWaiting`, `QueueSite.removeWaiting`, `QueueSite.detach` — the
  operations, step by step.
* `QueueSite.Performs` — an operation in place does what a plain one says, as a whole or not at all.
* `QueueSite.makeReady_performs` and its companions — every operation of a queue is such a one.  Nothing
  needs to be known of memory for this.
-/

/-- A queue at work: its region, where it starts, and memory. -/
@[ext] structure QueueSite where
  region : Region
  head : Link
  memory : Memory

namespace QueueSite

variable {α : Type}

/-! ### Steps -/

/-- Finds the record at an address. -/
def recordAt (a : Address) : Action QueueSite Record := do
  let s ← get
  Action.ofExcept (Record.ofAddress a s.region)

/-- Reads the link of a record. -/
def nextOf (r : Record) : Action QueueSite Link := do
  let s ← get
  Action.ofExcept (r.next s.memory)

/-- Refuses a record that does not lie in the region. -/
def check (r : Record) : Action QueueSite Unit := do
  let s ← get
  Action.attempt (checkMember s.region r)

/-- Writes the state of a record. -/
def setState (r : Record) (state : ProcessState) : Action QueueSite Unit :=
  modify fun s => { s with memory := r.setState s.memory state }

/-- Writes the link of a record. -/
def setNext (r : Record) (l : Link) : Action QueueSite Unit :=
  modify fun s => { s with memory := r.setNext s.memory l }

/-- Lets the queue start at a link. -/
def setHead (l : Link) : Action QueueSite Unit :=
  modify fun s => { s with head := l }

/-- Lets the queue go on at a link behind `previous`, or start there. -/
def relink (previous : Option Record) (l : Link) : Action QueueSite Unit :=
  match previous with
  | none => setHead l
  | some p => setNext p l

/-! ### Operations -/

/-- Where a process of the given priority belongs in the chain from a link on.  As for
    `ReadyQueue.position`, the fault at the end of the fuel stands for a walk that never ends. -/
def position (priority : Word) : Nat → Option Record → Link → Action QueueSite (Option Record × Link)
  | _, previous, .none => return (previous, .none)
  | 0, _, .node _ => throw .invalidMemoryAddress
  | fuel + 1, previous, .node a => do
    let r ← recordAt a
    let s ← get
    if r.priority s.memory < priority then
      return (previous, .node a)
    else
      let next ← nextOf r
      position priority fuel (some r) next

/-- Makes a process ready. -/
def makeReady (r : Record) : Action QueueSite Unit := do
  check r
  let s ← get
  let (previous, following) ← position (r.priority s.memory) memorySize none s.head
  setState r .ready
  setNext r following
  relink previous (.node r.address)

/-- Lets a process wait. -/
def makeWaiting (r : Record) : Action QueueSite Unit := do
  check r
  setState r .waiting
  let s ← get
  setNext r s.head
  setHead (.node r.address)

/-- The first record with a process number in the chain from a link on.  As for `WaitQueue.find`, the
    fault at the end of the fuel stands for a walk that never ends. -/
def find (pid : Word) : Nat → Option Record → Link → Action QueueSite (Option Record × Record × Link)
  | _, _, .none => throw .pidNotFound
  | 0, _, .node _ => throw .invalidMemoryAddress
  | fuel + 1, previous, .node a => do
    let r ← recordAt a
    let following ← nextOf r
    let s ← get
    if r.pid s.memory = pid then
      return (previous, r, following)
    else
      find pid fuel (some r) following

/-- Takes the process with a number off the queue. -/
def removeWaiting (pid : Word) : Action QueueSite Record := do
  let s ← get
  let (previous, r, following) ← find pid memorySize none s.head
  relink previous following
  setNext r .none
  return r

/-- Takes the first process off the queue, if there is one. -/
def detach : Action QueueSite (Option Record) := do
  let s ← get
  match s.head with
  | .none => return none
  | .node a => do
    let r ← recordAt a
    let next ← nextOf r
    setHead next
    setNext r .none
    return some r

/-! ### All or nothing -/

/-- The end of an operation that is done as a whole or not at all: if it succeeds, the queue starts
    where it is said, with the memory that is said; if it fails, nothing has changed. -/
def commit (s : QueueSite) : Except Fault (α × Link × Memory) → Except Fault α × QueueSite
  | .ok (a, head, memory) => (.ok a, { s with head, memory })
  | .error e => (.error e, s)

/-- An operation in place does what a plain one says, and where it fails, nothing has changed. -/
structure Performs (x : Action QueueSite α) (s : QueueSite)
    (out : Except Fault (α × Link × Memory)) : Prop where
  exec : Action.exec x s = s.commit out
  unchanged : ∀ e t, Action.exec x s = (.error e, t) → t = s

/-- An operation that ends as `commit` says performs the plain one: where that fails, `commit`
    leaves the queue as it is. -/
theorem Performs.of_exec {x : Action QueueSite α} {s : QueueSite}
    {out : Except Fault (α × Link × Memory)} (h : Action.exec x s = s.commit out) :
    Performs x s out := by
  refine ⟨h, fun e t herror => ?_⟩
  rw [h] at herror
  cases out with
  | ok r => exact absurd (Prod.mk.inj herror).1 (by simp)
  | error e' => exact (Prod.mk.inj herror).2.symm

@[simp] theorem exec_recordAt (a : Address) (s : QueueSite) :
    Action.exec (recordAt a) s = (Record.ofAddress a s.region, s) := rfl

@[simp] theorem exec_nextOf (r : Record) (s : QueueSite) :
    Action.exec (nextOf r) s = (r.next s.memory, s) := rfl

@[simp] theorem exec_check (r : Record) (s : QueueSite) :
    Action.exec (check r) s = ((checkMember s.region r).outcome, s) := rfl

/-- The search for a place only reads: it ends as `ReadyQueue.position` does, in the same state. -/
theorem exec_position (s : QueueSite) (priority : Word) (fuel : Nat) (previous : Option Record)
    (l : Link) :
    Action.exec (position priority fuel previous l) s
      = (ReadyQueue.position s.region s.memory priority fuel previous l, s) := by
  induction fuel generalizing previous l with
  | zero => cases l <;> rfl
  | succ fuel ih =>
    cases l with
    | none => rfl
    | node a =>
      rw [position, ReadyQueue.position, Action.exec_bind, exec_recordAt]
      cases Record.ofAddress a s.region with
      | error e => rfl
      | ok r =>
        rw [ok_bind]
        dsimp only
        rw [Action.exec_bind_ok (Action.exec_get s)]
        -- The walk stops here without a look at the link of the record.
        by_cases hlt : r.priority s.memory < priority
        · rw [if_pos hlt, if_pos hlt]
          rfl
        · rw [if_neg hlt, if_neg hlt, Action.exec_bind, exec_nextOf]
          cases r.next s.memory with
          | error e => rfl
          | ok next => exact ih (some r) next

/-- **Insertion by priority in place** does what `ReadyQueue.insert` says, as a whole or not at
    all. -/
theorem makeReady_performs (s : QueueSite) (r : Record) :
    Performs (makeReady r) s
      ((ReadyQueue.insert ⟨s.region, s.head⟩ s.memory r).outcome.map fun x =>
        ((), x.1.head, x.2)) := by
  refine .of_exec ?_
  rw [makeReady, ReadyQueue.insert, Action.exec_bind, exec_check, Attempt.outcome_seq]
  -- The two things that can fail, the check and the search, come before the first write.
  cases (checkMember s.region r).outcome with
  | error e => rfl
  | ok u =>
    rw [ok_bind]
    dsimp only
    rw [Action.exec_bind_ok (Action.exec_get s), Action.exec_bind, exec_position,
      Attempt.outcome_ofExcept_bind]
    cases ReadyQueue.position s.region s.memory (r.priority s.memory) memorySize none s.head with
    | error e => rfl
    | ok place =>
      obtain ⟨previous, following⟩ := place
      cases previous <;> rfl

/-- **Insertion in front in place** does what `WaitQueue.insert` says, as a whole or not at all. -/
theorem makeWaiting_performs (s : QueueSite) (r : Record) :
    Performs (makeWaiting r) s
      ((WaitQueue.insert ⟨s.region, s.head⟩ s.memory r).outcome.map fun x =>
        ((), x.1.head, x.2)) := by
  refine .of_exec ?_
  rw [makeWaiting, WaitQueue.insert, Action.exec_bind, exec_check, Attempt.outcome_seq]
  cases (checkMember s.region r).outcome <;> rfl

/-- The search for a number only reads: it ends as `WaitQueue.find` does, in the same state. -/
theorem exec_find (s : QueueSite) (pid : Word) (fuel : Nat) (previous : Option Record) (l : Link) :
    Action.exec (find pid fuel previous l) s
      = (WaitQueue.find s.region s.memory pid fuel previous l, s) := by
  -- Along the fuel, since both walks use up the same amount in each turn.
  induction fuel generalizing previous l with
  | zero => cases l <;> rfl
  | succ fuel ih =>
    cases l with
    | none => rfl
    | node a =>
      rw [find, WaitQueue.find, Action.exec_bind, exec_recordAt]
      cases Record.ofAddress a s.region with
      | error e => rfl
      | ok r =>
        rw [ok_bind]
        dsimp only
        rw [Action.exec_bind, exec_nextOf]
        cases r.next s.memory with
        | error e => rfl
        | ok following =>
          rw [ok_bind]
          dsimp only
          rw [Action.exec_bind_ok (Action.exec_get s)]
          by_cases hpid : r.pid s.memory = pid
          · rw [if_pos hpid, if_pos hpid]
            rfl
          · rw [if_neg hpid, if_neg hpid]
            exact ih (some r) following

/-- **Removal by number in place** does what `WaitQueue.remove` says, as a whole or not at all. -/
theorem removeWaiting_performs (s : QueueSite) (pid : Word) :
    Performs (removeWaiting pid) s
      ((WaitQueue.remove ⟨s.region, s.head⟩ s.memory pid).map fun x =>
        (x.1, x.2.1.head, x.2.2)) := by
  refine .of_exec ?_
  rw [removeWaiting, WaitQueue.remove, Action.exec_bind_ok (Action.exec_get s), Action.exec_bind,
    exec_find]
  cases WaitQueue.find s.region s.memory pid memorySize none s.head with
  | error e => rfl
  | ok found =>
    obtain ⟨previous, r, following⟩ := found
    cases previous <;> rfl

/-- **Taking the first record in place** does what `detachFirst` says; where there is none, nothing
    changes. -/
theorem detach_performs (s : QueueSite) :
    Performs detach s
      ((detachFirst s.region s.head s.memory).map fun x => match x with
        | none => (none, s.head, s.memory)
        | some (r, head, m) => (some r, head, m)) := by
  refine .of_exec ?_
  obtain ⟨region, head, m⟩ := s
  rw [detach, Action.exec_bind_ok (Action.exec_get _)]
  cases head with
  | none => rfl
  | node a =>
    dsimp only
    rw [detachFirst, Action.exec_bind, exec_recordAt]
    cases Record.ofAddress a region with
    | error e => rfl
    | ok r =>
      rw [ok_bind]
      dsimp only
      rw [Action.exec_bind, exec_nextOf]
      -- Only a link that was read is ended.
      cases r.next m <;> rfl

end QueueSite

end Timeshare
