import Timeshare.Process.Record

namespace Timeshare

/-!
# Process queues

Both queues link their records through the records themselves.

* `ReadyQueue` holds the processes that could run, by falling priority, and among equals in
  the order in which they came;
* `WaitQueue` holds the processes that wait, the newest first, and gives them up by number.

An operation that fails changes nothing.

`ReadyQueue.position` and `WaitQueue.find` follow a chain with nothing that bounds them but the chain
itself, so that on a chain that comes back to itself the kernel would follow it for ever.  Here they get
`memorySize` as fuel, which no chain of different records uses up, and end with `invalidMemoryAddress`
when it is used up.  This fault then stands for a call that does not return; the same fault from a
record outside the region, or from a link that is no address, is one that the kernel reports.
-/

/-- The records from a link on, if there are at most `fuel` and all lie in the region. -/
def recordsFrom (region : Region) (m : Memory) : Nat → Link → Except Fault (List Record)
  | _, .none => .ok []
  | 0, .node _ => .error .invalidMemoryAddress
  | fuel + 1, .node a => do
    let r ← Record.ofAddress a region
    let rest ← recordsFrom region m fuel (← r.next m)
    return r :: rest

/-- The records of a chain, if there are not more than the region has room for. -/
def records (region : Region) (m : Memory) (head : Link) : Except Fault (List Record) :=
  recordsFrom region m (region.length.toNat / 22) head

/-- Refuses a record that does not lie in the region of a queue. -/
def checkMember (region : Region) (r : Record) : Attempt Unit :=
  match Record.ofAddress r.address region with
  | .ok _ => return
  | .error fault => do
    Attempt.note (.recordRefused r.address region)
    throw fault

/-- Detaches the first record of a chain, if there is one, and gives the link to the rest. -/
def detachFirst (region : Region) (head : Link) (m : Memory) :
    Except Fault (Option (Record × Link × Memory)) :=
  match head with
  | .none => .ok none
  | .node a => do
    let r ← Record.ofAddress a region
    let rest ← r.next m
    return some (r, rest, r.setNext m .none)

/-! ### The ready queue -/

/-- The processes that could run. -/
structure ReadyQueue where
  region : Region
  head : Link := .none
  deriving DecidableEq, Repr

namespace ReadyQueue

/-- Whether no process is ready. -/
def isEmpty (q : ReadyQueue) : Bool := q.head.isEnd

/-- The records of the queue, first to last. -/
def records (q : ReadyQueue) (m : Memory) : Except Fault (List Record) :=
  Timeshare.records q.region m q.head

/-- Where a process of the given priority belongs in the chain from a link on: behind which
    record and before which.  With `fuel` used up the result is `invalidMemoryAddress`, which here
    stands for a walk that never ends. -/
def position (region : Region) (m : Memory) (priority : Word) :
    Nat → Option Record → Link → Except Fault (Option Record × Link)
  | _, previous, .none => .ok (previous, .none)
  -- The chain is cyclic: no fault that the kernel finds, and no other value to give.
  | 0, _, .node _ => .error .invalidMemoryAddress
  | fuel + 1, previous, .node a => do
    let r ← Record.ofAddress a region
    if r.priority m < priority then
      return (previous, .node a)
    position region m priority fuel (some r) (← r.next m)

/-- Makes a process ready: it enters the queue before the first process of lower priority. -/
def insert (q : ReadyQueue) (m : Memory) (r : Record) : Attempt (ReadyQueue × Memory) := do
  checkMember q.region r
  let priority := r.priority m
  let (previous, following) ←
    Attempt.ofExcept (position q.region m priority memorySize none q.head)
  let m := r.setNext (r.setState m .ready) following
  let (q, m) := match previous with
    | none => ({ q with head := .node r.address }, m)
    | some p => (q, p.setNext m (.node r.address))
  Attempt.note (.readied (r.pid m) priority)
  return (q, m)

/-- Takes the first process off the queue, if there is one. -/
def pop (q : ReadyQueue) (m : Memory) : Except Fault (Option (Record × ReadyQueue × Memory)) :=
  return (← detachFirst q.region q.head m).map fun (r, head, m) => (r, { q with head }, m)

end ReadyQueue

/-! ### The wait queue -/

/-- The processes that wait. -/
structure WaitQueue where
  region : Region
  head : Link := .none
  deriving DecidableEq, Repr

namespace WaitQueue

/-- Whether no process waits. -/
def isEmpty (q : WaitQueue) : Bool := q.head.isEnd

/-- The records of the queue, newest first. -/
def records (q : WaitQueue) (m : Memory) : Except Fault (List Record) :=
  Timeshare.records q.region m q.head

/-- Lets a process wait: it enters the queue in front. -/
def insert (q : WaitQueue) (m : Memory) (r : Record) : Attempt (WaitQueue × Memory) := do
  checkMember q.region r
  let m := r.setNext (r.setState m .waiting) q.head
  Attempt.note (.parked (r.pid m))
  return ({ q with head := .node r.address }, m)

/-- The first record with a process number in the chain from a link on, with the record before
    it and the link behind it.  With `fuel` used up the result is `invalidMemoryAddress`, which here
    stands for a walk that never ends. -/
def find (region : Region) (m : Memory) (pid : Word) :
    Nat → Option Record → Link → Except Fault (Option Record × Record × Link)
  | _, _, .none => .error .pidNotFound
  -- As in `ReadyQueue.position`: the chain is cyclic.
  | 0, _, .node _ => .error .invalidMemoryAddress
  | fuel + 1, previous, .node a => do
    let r ← Record.ofAddress a region
    let following ← r.next m
    if r.pid m = pid then
      return (previous, r, following)
    find region m pid fuel (some r) following

/-- Takes the process with a number off the queue. -/
def remove (q : WaitQueue) (m : Memory) (pid : Word) :
    Except Fault (Record × WaitQueue × Memory) := do
  let (previous, r, following) ← find q.region m pid memorySize none q.head
  let (q, m) := match previous with
    | none => ({ q with head := following }, m)
    | some p => (q, p.setNext m following)
  return (r, q, r.setNext m .none)

/-- Takes the newest process off the queue, if there is one. -/
def pop (q : WaitQueue) (m : Memory) : Except Fault (Option (Record × WaitQueue × Memory)) :=
  return (← detachFirst q.region q.head m).map fun (r, head, m) => (r, { q with head }, m)

end WaitQueue

end Timeshare
