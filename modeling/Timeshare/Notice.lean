import Timeshare.Region
import Timeshare.Machine.Instruction
import Timeshare.Process.State
import Timeshare.Storage.Block
import Timeshare.Text.Integer
import Timeshare.Text.Quoted

namespace Timeshare

/-!
# Notices

A notice is one remark of the machine or the kernel on what it does, with its data.  Notices
never influence what happens.  Each has

* a level, which says how urgent it is (`Notice.level`);
* a topic, which says what part of the system speaks (`Notice.topic`);
* a text (`Notice.text`).
-/

/-- How urgent a notice is, from the most to the least urgent. -/
inductive Level where
  | error
  | warn
  | info
  | debug
  | trace
  deriving DecidableEq, Repr

namespace Level

/-- All levels, the most urgent first. -/
def all : List Level := [error, warn, info, debug, trace]

/-- The position of a level; more urgent levels have lower ones. -/
def rank : Level → Nat
  | error => 0
  | warn => 1
  | info => 2
  | debug => 3
  | trace => 4

/-- Whether notices of level `l` are shown to somebody who asked for `threshold`. -/
def shows (threshold l : Level) : Bool := l.rank ≤ threshold.rank

/-- The name of a level in reports. -/
def name : Level → String
  | error => "ERROR"
  | warn => "WARN"
  | info => "INFO"
  | debug => "DEBUG"
  | trace => "TRACE"

/-- The level to show when it was asked `count` times for more. -/
def ofVerbosity : Nat → Level
  | 0 => warn
  | 1 => info
  | 2 => debug
  | _ => trace

end Level

/-- The part of the system that a notice comes from. -/
inductive Topic where
  | processor
  | execution
  | machine
  | pool
  | queue
  | image
  | boot
  | launch
  | cycle
  | interrupt
  | service
  | allocation
  | control
  | file
  deriving DecidableEq, Repr

/-- The label of a topic on the console. -/
def Topic.label : Topic → String
  | processor => "vm::cpu"
  | execution => "vm::exe"
  | machine => "vm::vm"
  | pool => "kernel::allocator"
  | queue => "kernel::queue"
  | image => "kernel::loader"
  | boot => "kernel::kernel"
  | launch => "kernel::task::launch"
  | cycle => "kernel::task::run"
  | interrupt => "kernel::interrupt"
  | service => "kernel::syscall"
  | allocation => "kernel::syscall::alloc"
  | control => "os::control"
  | file => "os::loader"

/-- One remark on what happens. -/
inductive Notice where
  /-- An instruction was fetched and decoded. -/
  | fetched (pc ir : Word) (instruction : Instruction)
  /-- The time slice is used up. -/
  | sliceExpired (pc : Word)
  /-- A program calls the operating system. -/
  | trapped (call pc : Word)
  /-- A program was put into memory by hand. -/
  | codeWritten (count : Nat) (start : Address)
  /-- A pool was made one free block. -/
  | poolOpened (owner : PoolOwner) (size : Word) (start : Address)
  /-- A pool has no free block at all. -/
  | poolExhausted (owner : PoolOwner)
  /-- The size of a block to allocate is not positive. -/
  | badRequest (owner : PoolOwner) (size : Word)
  /-- The free list of a pool has more nodes than the pool can hold. -/
  | endlessList (owner : PoolOwner)
  /-- A block was allocated: a whole free block, or the front of one. -/
  | blockTaken (owner : PoolOwner) (size : Word) (start : Address) (whole : Bool)
  /-- No free block fits. -/
  | noFit (owner : PoolOwner) (size : Word)
  /-- A block to release starts outside the pool. -/
  | releaseOutside (owner : PoolOwner) (start : Word)
  /-- A block to release does not lie in the pool. -/
  | badRelease (owner : PoolOwner) (size start : Word)
  /-- A block to release has words that are free. -/
  | alreadyFree (owner : PoolOwner) (size start : Word)
  /-- A block was released. -/
  | blockReleased (owner : PoolOwner) (size : Word) (start : Address)
  /-- A node of a free list describes no block of the pool. -/
  | corruptNode (owner : PoolOwner) (node : Address) (size : Word)
  /-- A queue refused a process record. -/
  | recordRefused (record : Address) (region : Region)
  /-- A process entered the ready queue. -/
  | readied (pid priority : Word)
  /-- A process entered the wait queue. -/
  | parked (pid : Word)
  /-- A line of a program text is no pair of numbers. -/
  | badProgramLine (line : Nat) (content : String)
  /-- A word of a program lies outside the program area. -/
  | wordOutside (address : Word)
  /-- The entry point of a program lies outside the program area. -/
  | entryOutside (entry : Word)
  /-- A program was put into memory. -/
  | imageLoaded (count : Nat) (entry : Address)
  /-- There is no program of that name. -/
  | unknownProgram (name : String)
  /-- A program file could not be read. -/
  | unreadableFile (path reason : String)
  /-- A program file was read. -/
  | fileRead (path : String) (bytes : Nat)
  /-- The kernel is up. -/
  | booted (timeSlice : UInt64) (stackSize : Word) (osWords userWords : UInt64)
  /-- A process was not created, since its program could not be loaded. -/
  | loadFailed (program : String) (fault : Fault)
  /-- A process was not created, since there is no room for its stack. -/
  | stackMissing (program : String) (fault : Fault)
  /-- A process was created. -/
  | created (pid : Word) (program : String) (priority : Word) (entry stack : Address) (size : Word)
  /-- The user pool refused the stack of a process that ended. -/
  | stackRefused (pid start : Word) (fault : Fault)
  /-- A process ended. -/
  | ended (pid : Word)
  /-- No process is ready. -/
  | idle
  /-- A process got the processor. -/
  | dispatched (pid pc : Word)
  /-- A process halted. -/
  | halted (pid : Word)
  /-- A process did something that is not allowed. -/
  | faulted (pid pc : Word) (fault : Fault)
  /-- A process got the character that it waited for. -/
  | inputDelivered (pid : Word) (input : Char)
  /-- The output of a process was shown. -/
  | outputShown (pid value : Word)
  /-- A process was released by another event than it waited for. -/
  | unexpectedRelease (pid : Word) (reason : Option WaitReason) (event : WaitReason)
  /-- No waiting process has the number. -/
  | nobodyWaiting (pid : Word)
  /-- The kernel was shut down, which ended these processes. -/
  | shutDown (pids : List Word)
  /-- A system call, with the general registers. -/
  | called (call : Word) (gpr : List Word)
  /-- A system call that does nothing. -/
  | callMissing (call : Word)
  /-- A system call number that stands for nothing. -/
  | callUnknown (call : Word)
  /-- A program asked for a block whose size is not positive. -/
  | sizeRefused (size : Word)
  /-- A program got a block. -/
  | blockGranted (size : Word) (start : Address)
  /-- A program gave a block back. -/
  | blockReturned (size start : Word)
  /-- An interrupt was not handled. -/
  | interruptFailed (number : Word) (fault : Fault)
  /-- A turn on the processor is over. -/
  | turnOver (number : Nat) (report : CycleReport)
  /-- The limit on the number of cycles is reached. -/
  | limitReached (cycles : Nat)
  /-- A run is over. -/
  | finished (cycles endings faults : Nat)

namespace Notice

/-- How urgent a notice is. -/
def level : Notice → Level
  | interruptFailed .. => .error
  | poolExhausted .. | badRequest .. | endlessList .. | noFit .. | releaseOutside ..
  | badRelease .. | alreadyFree .. | corruptNode .. | recordRefused .. | badProgramLine ..
  | wordOutside .. | entryOutside .. | unknownProgram .. | unreadableFile .. | loadFailed ..
  | stackMissing .. | stackRefused .. | faulted .. | unexpectedRelease .. | nobodyWaiting ..
  | callMissing .. | callUnknown .. | limitReached .. => .warn
  | booted .. | created .. | ended .. | halted .. | inputDelivered .. | outputShown ..
  | shutDown .. | finished .. => .info
  | trapped .. | codeWritten .. | poolOpened .. | blockTaken .. | blockReleased .. | readied ..
  | parked .. | imageLoaded .. | fileRead .. | idle | dispatched .. | called .. | sizeRefused ..
  | blockGranted .. | blockReturned .. | turnOver .. => .debug
  | fetched .. | sliceExpired .. => .trace

/-- The part of the system that a notice comes from. -/
def topic : Notice → Topic
  | fetched .. | sliceExpired .. => .processor
  | trapped .. => .execution
  | codeWritten .. => .machine
  | poolOpened .. | poolExhausted .. | badRequest .. | endlessList .. | blockTaken .. | noFit ..
  | releaseOutside .. | badRelease .. | alreadyFree .. | blockReleased .. | corruptNode .. => .pool
  | recordRefused .. | readied .. | parked .. => .queue
  | badProgramLine .. | wordOutside .. | entryOutside .. | imageLoaded ..
  | unknownProgram .. => .image
  | unreadableFile .. | fileRead .. => .file
  | booted .. => .boot
  | loadFailed .. | stackMissing .. | created .. | stackRefused .. | ended .. => .launch
  | idle | dispatched .. | halted .. | faulted .. => .cycle
  | inputDelivered .. | outputShown .. | unexpectedRelease .. | nobodyWaiting ..
  | shutDown .. => .interrupt
  | called .. | callMissing .. | callUnknown .. => .service
  | sizeRefused .. | blockGranted .. | blockReturned .. => .allocation
  | interruptFailed .. | turnOver .. | limitReached .. | finished .. => .control

/-- Numbers in brackets. -/
def bracketed (ws : List Word) : String := "[" ++ ", ".intercalate (ws.map toString) ++ "]"

/-- A region with its bounds. -/
def regionText (r : Region) : String := s!"Region \x7b start: {r.start}, end: {r.last} \x7d"

/-- A reason that may be unknown. -/
def reasonText : Option WaitReason → String
  | some r => s!"Some({r.name})"
  | none => "None"

/-- A character code: the character in quotes, or the number if there is no such character. -/
def characterText (value : Word) : String :=
  match Word.toChar? value with
  | some c => Text.quoteChar c
  | none => toString value

/-- What a notice says. -/
def text : Notice → String
  | fetched pc ir instruction =>
    "pc=" ++ Text.padded 4 pc.toNatClampNeg ++ " ir=" ++ Text.padded 6 ir.toNatClampNeg ++ " "
      ++ instruction.text
  | sliceExpired pc => s!"time slice expired at pc={pc}"
  | trapped call pc => s!"system call {call} from pc={pc}"
  | codeWritten count start => s!"loaded {count} words at {start}"
  | poolOpened owner size start => s!"{owner.name} pool: {size} words at {start}"
  | poolExhausted owner => s!"{owner.name} pool: no free memory"
  | badRequest owner size => s!"{owner.name} pool: invalid allocation size {size}"
  | endlessList owner => s!"{owner.name} pool: free list does not end"
  | blockTaken owner size start whole =>
    s!"{owner.name} pool: allocated {size} words at {start} "
      ++ if whole then "(exact)" else "(split)"
  | noFit owner size => s!"{owner.name} pool: no block fits {size} words"
  | releaseOutside owner start => s!"{owner.name} pool: free of {start} outside pool"
  | badRelease owner size start => s!"{owner.name} pool: invalid free of {size} words at {start}"
  | alreadyFree owner size start =>
    s!"{owner.name} pool: {size} words at {start} are already free"
  | blockReleased owner size start => s!"{owner.name} pool: freed {size} words at {start}"
  | corruptNode owner node size =>
    s!"{owner.name} pool: corrupted node at {node} (size {size})"
  | recordRefused record region => s!"rejected PCB at {record} outside {regionText region}"
  | readied pid priority => s!"ready queue: pid {pid} priority {priority}"
  | parked pid => s!"wait queue: pid {pid}"
  | badProgramLine line content =>
    s!"program line {line}: expected \x60address content\x60, got " ++ Text.quote content
  | wordOutside address => s!"program word at {address} outside program area"
  | entryOutside entry => s!"program entry {entry} outside program area"
  | imageLoaded count entry => s!"loaded {count} words, entry {entry}"
  | unknownProgram name => "no program named " ++ Text.quote name
  | unreadableFile path reason => s!"cannot open {path}: {reason}"
  | fileRead path bytes => s!"read {path} ({bytes} bytes)"
  | booted timeSlice stackSize osWords userWords =>
    s!"boot: time slice {timeSlice}, stack {stackSize} words, OS pool {osWords} words, "
      ++ s!"user pool {userWords} words"
  | loadFailed program fault => s!"create {Text.quote program}: load failed: {fault.message}"
  | stackMissing program fault => s!"create {Text.quote program}: no stack: {fault.message}"
  | created pid program priority entry stack size =>
    s!"created pid {pid} from {Text.quote program}: priority {priority}, entry {entry}, "
      ++ s!"stack {stack}+{size}"
  | stackRefused pid start fault =>
    s!"pid {pid}: stack at {start} not returned to the user pool: {fault.message}"
  | ended pid => s!"terminated pid {pid}"
  | idle => "ready queue empty, idle cycle"
  | dispatched pid pc => s!"dispatched pid {pid} at pc {pc}"
  | halted pid => s!"pid {pid} halted"
  | faulted pid pc fault => s!"pid {pid} faulted at pc {pc}: {fault.message}"
  | inputDelivered pid input => s!"pid {pid} received input {Text.quoteChar input}"
  | outputShown pid value => s!"pid {pid} output {characterText value}"
  | unexpectedRelease pid reason event =>
    s!"pid {pid} was waiting for {reasonText reason}, got {event.name}"
  | nobodyWaiting pid => s!"no waiting process with pid {pid}"
  | shutDown pids => s!"shutdown: terminated {bracketed pids}"
  | called call gpr => s!"syscall {call} gpr={bracketed gpr}"
  | callMissing call => s!"syscall {call}: not implemented"
  | callUnknown call => s!"unknown syscall id {call}"
  | sizeRefused size => s!"sys_mem_alloc: invalid size {size}"
  | blockGranted size start => s!"sys_mem_alloc: size={size} addr={start}"
  | blockReturned size start => s!"sys_mem_free: size={size} addr={start}"
  | interruptFailed number fault => s!"interrupt {number} failed: {fault.message}"
  | turnOver number report => s!"cycle {number}: {report.text}"
  | limitReached cycles => s!"stopping after {cycles} cycles"
  | finished cycles endings faults =>
    s!"run finished: {cycles} cycles, {endings} terminated, {faults} faulted"

/-- A notice as a line on the console, without the line feed. -/
def consoleLine (n : Notice) : String :=
  let tag := n.level.name
  tag ++ String.ofList (List.replicate (5 - tag.length) ' ') ++ s!" {n.topic.label} {n.text}"

end Notice

end Timeshare
