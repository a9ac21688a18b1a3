import Timeshare.Json.Parser
import Timeshare.Kernel.Config
import Timeshare.Kernel.Snapshot
import Timeshare.Session.Control

namespace Timeshare

/-!
# The JSON form of configurations and reports

* A structure is read from an object or from an array of its fields in order.  Fields that are
  not known are passed over, and a known one must not occur twice.  No key of the object itself
  may be broken, but what is in a field that is passed over does not matter.  Regions and
  registers need all of their fields; layouts and configurations have a value for each that is
  missing.
* One of several names is read from a string, or from an object whose only field has that name
  and the value `null`.
* An integer is read from an integer literal in range.
-/

namespace Json

/-! ### Reading -/

/-- The word that a value denotes. -/
def toWord? : Json → Option Word
  | integer i =>
    if Int64.minValue.toInt ≤ i ∧ i ≤ Int64.maxValue.toInt then some (.ofInt i) else none
  | _ => none

/-- The unsigned 64-bit number that a value denotes. -/
def toUnsigned? : Json → Option UInt64
  | integer i => if 0 ≤ i ∧ i < UInt64.size then some (UInt64.ofNat i.toNat) else none
  | _ => none

/-- The one among some things whose name a value holds. -/
def toNamed? {α : Type} (all : List α) (name : α → String) : Json → Option α
  | text s => all.find? (name · == s)
  | object [(s, null)] => all.find? (name · == s)
  | _ => none

/-- The values of some fields of a structure, none for a field that is missing. -/
def toFields? (names : List String) : Json → Option (List (Option Json))
  | object fields =>
    names.mapM fun name =>
      match fields.filter (·.1 == name) with
      | [] => some none
      | [(_, value)] => some (some value)
      | _ => none
  | array items =>
    if items.length ≤ names.length then
      some ((items.map some) ++ List.replicate (names.length - items.length) none)
    else
      none
  | _ => none

/-- A field that has to be there. -/
def required {α : Type} (read : Json → Option α) (field : Option Json) : Option α := field.bind read

/-- A field that has a value also if it is missing. -/
def optional {α : Type} (read : Json → Option α) (default : α) : Option Json → Option α
  | none => some default
  | some value => read value

/-- The items of an array with a fixed number of words. -/
def toWords? (n : Nat) : Json → Option (Vector Word n)
  | array items => do
    let words ← items.mapM toWord?
    if h : words.length = n then some ⟨words.toArray, by simpa using h⟩ else none
  | _ => none

/-! ### Writing -/

/-- A word. -/
def ofWord (w : Word) : Json := integer w.toInt

/-- An unsigned number. -/
def ofUnsigned (n : UInt64) : Json := integer n.toNat

/-- A natural number. -/
def ofNat (n : Nat) : Json := integer n

/-- An array. -/
def ofList {α : Type} (write : α → Json) (as : List α) : Json := array (as.map write)

/-- A value that may be missing. -/
def ofOption {α : Type} (write : α → Json) (a : Option α) : Json := (a.map write).getD null

end Json

/-! ### Structures that are read and written -/

/-- Reads a region. -/
def Region.ofJson? (j : Json) : Option Region := do
  match (← j.toFields? ["start", "end"]) with
  | [start, last] =>
    return ⟨← Json.required Json.toUnsigned? start, ← Json.required Json.toUnsigned? last⟩
  | _ => none

/-- Writes a region. -/
def Region.toJson (r : Region) : Json :=
  .object [("start", .ofUnsigned r.start), ("end", .ofUnsigned r.last)]

/-- Reads a layout. -/
def Layout.ofJson? (j : Json) : Option Layout := do
  let standard : Layout := {}
  match (← j.toFields? ["user_program", "user_pool", "os_pool"]) with
  | [userProgram, userPool, osPool] =>
    return {
      userProgram := ← Json.optional Region.ofJson? standard.userProgram userProgram
      userPool := ← Json.optional Region.ofJson? standard.userPool userPool
      osPool := ← Json.optional Region.ofJson? standard.osPool osPool }
  | _ => none

/-- Writes a layout. -/
def Layout.toJson (l : Layout) : Json :=
  .object [("user_program", l.userProgram.toJson), ("user_pool", l.userPool.toJson),
    ("os_pool", l.osPool.toJson)]

/-- Reads a configuration. -/
def Config.ofJson? (j : Json) : Option Config := do
  let standard : Config := {}
  match (← j.toFields? ["layout", "time_slice", "stack_size", "default_priority"]) with
  | [layout, timeSlice, stackSize, defaultPriority] =>
    return {
      layout := ← Json.optional Layout.ofJson? standard.layout layout
      timeSlice := ← Json.optional Json.toUnsigned? standard.timeSlice timeSlice
      stackSize := ← Json.optional Json.toWord? standard.stackSize stackSize
      defaultPriority := ← Json.optional Json.toWord? standard.defaultPriority defaultPriority }
  | _ => none

/-- Writes a configuration. -/
def Config.toJson (c : Config) : Json :=
  .object [("layout", c.layout.toJson), ("time_slice", .ofUnsigned c.timeSlice),
    ("stack_size", .ofWord c.stackSize), ("default_priority", .ofWord c.defaultPriority)]

/-- Reads an address. -/
def Address.ofJson? (j : Json) : Option Address := j.toWord?.bind Address.ofWord?

/-- Writes an address. -/
def Address.toJson (a : Address) : Json := .ofNat a.index

/-- Reads the registers. -/
def Registers.ofJson? (j : Json) : Option Registers := do
  match (← j.toFields? ["gpr", "pc", "sp", "psr", "mar", "mbr", "ir", "clock"]) with
  | [gpr, pc, sp, psr, mar, mbr, ir, clock] =>
    return {
      gpr := ← Json.required (Json.toWords? 8) gpr
      pc := ← Json.required Json.toWord? pc
      sp := ← Json.required Json.toWord? sp
      privilege := ← Json.required (Json.toNamed? Privilege.all Privilege.name) psr
      mar := ← Json.required Json.toWord? mar
      mbr := ← Json.required Json.toWord? mbr
      ir := ← Json.required Json.toWord? ir
      clock := ← Json.required Json.toUnsigned? clock }
  | _ => none

/-- Writes the registers. -/
def Registers.toJson (r : Registers) : Json :=
  .object [("gpr", .ofList .ofWord r.gpr.toList), ("pc", .ofWord r.pc), ("sp", .ofWord r.sp),
    ("psr", .text r.privilege.name), ("mar", .ofWord r.mar), ("mbr", .ofWord r.mbr),
    ("ir", .ofWord r.ir), ("clock", .ofUnsigned r.clock)]

/-! ### Structures that are written -/

/-- Writes the copy of a process record. -/
def RecordCopy.toJson (c : RecordCopy) : Json :=
  .object [("address", c.address.toJson), ("pid", .ofWord c.pid),
    ("state", .ofOption (.text ·.name) c.state), ("reason", .ofOption (.text ·.name) c.reason),
    ("priority", .ofWord c.priority), ("next", .ofWord c.next),
    ("stack_start", .ofWord c.stackStart), ("stack_size", .ofWord c.stackSize),
    ("gpr", .ofList .ofWord c.gpr.toList), ("sp", .ofWord c.sp), ("pc", .ofWord c.pc),
    ("psr", .ofWord c.psr)]

/-- Writes a free block. -/
def FreeBlock.toJson (b : FreeBlock) : Json :=
  .object [("address", b.address.toJson), ("size", .ofWord b.size)]

/-- Writes a snapshot. -/
def Snapshot.toJson (s : Snapshot) : Json :=
  .object [("clock", .ofUnsigned s.clock), ("next_pid", .ofWord s.nextPid),
    ("shut_down", .bool s.isShutDown), ("registers", s.registers.toJson),
    ("running", .ofOption RecordCopy.toJson s.running),
    ("ready", .ofList RecordCopy.toJson s.ready), ("waiting", .ofList RecordCopy.toJson s.waiting),
    ("os_free", .ofList FreeBlock.toJson s.osFree),
    ("user_free", .ofList FreeBlock.toJson s.userFree)]

/-- Writes an output of a process. -/
def ProcessOutput.toJson (o : ProcessOutput) : Json :=
  .object [("pid", .ofWord o.pid), ("value", .ofWord o.value)]

/-- Writes a summary. -/
def Summary.toJson (s : Summary) : Json :=
  .object [("cycles", .ofNat s.cycles), ("idle_cycles", .ofNat s.idleCycles),
    ("created", .ofList .ofWord s.created), ("terminated", .ofList .ofWord s.terminated),
    ("faulted", .ofList (fun (pid, fault) => .array [.ofWord pid, .text fault.name]) s.faulted),
    ("outputs", .ofList ProcessOutput.toJson s.outputs), ("failed_events", .ofNat s.failedEvents)]

end Timeshare
