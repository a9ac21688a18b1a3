import Timeshare.Proofs.Kernel.Cycle
import Timeshare.Proofs.Kernel.Interrupt

namespace Timeshare

/-!
# The kernels that come about

* `Kernel.boot_sound`, `Kernel.boot_nobody` — a new kernel is in order.
* `Kernel.exists_boot` — what is computed of a new kernel holds of it.
* `Kernel.Reachable k` — the kernel `k` comes about from a new one by the creation of processes,
  scheduling cycles and interrupts, in any order and with any programs.
* `Kernel.Reachable.atRest` — all of these kernels are in order.
* `Kernel.Operation`, `Kernel.after k ops` — the kernel after the operations of a history.
* `Kernel.Reachable.partition` — the free blocks of the pool of process records and the records in the
  two queues cover the pool, every word once.
-/

namespace Kernel

open Timeshare.Action

variable {k : Kernel} {free : List FreeBlock} {ready waiting held : List Record} {r : Record}

/-! ### New kernels -/

/-- **A new kernel** is in order.  It has no process, and its pool of process records is one free
    block `b`. -/
theorem boot_sound {c : Config} (catalog : Catalog) (hc : c.validate = .ok ()) :
    ∃ k b, (boot c catalog).outcome = .ok k ∧ k.config = c ∧ k.catalog = catalog
      ∧ Sound k [b] [] [] [] := by
  have hvalid := Config.validate_eq_ok_iff.mp hc
  have hL := hvalid.layout
  obtain ⟨b, m, hos, hspan, hchain, -⟩ :=
    Pool.fill_whole (p := Pool.empty .os c.layout.osPool) (m := Memory.zero) hL.osPool hL.two_le_osPool
  obtain ⟨b', m', huser, -, -, hframe⟩ :=
    Pool.fill_whole (p := Pool.empty .user c.layout.userPool) (m := m) hL.userPool hL.two_le_userPool
  -- The user pool is filled last, and leaves the node of the other pool alone.
  have hapart : ∀ a ∈ c.layout.osPool, a ∉ c.layout.userPool := fun a ha huser =>
    hL.not_mem_operandRange ha (hL.mem_operandRange huser)
  have hboot : (boot c catalog).outcome = .ok
      { config := c, catalog
        machine := { Machine.boot c.layout
            { Pool.empty .user c.layout.userPool with head := .node b'.address } with memory := m' }
        osPool := { Pool.empty .os c.layout.osPool with head := .node b.address }
        ready := { region := c.layout.osPool }
        waiting := { region := c.layout.osPool }
        running := none, nextPid := 1, isShutDown := false } := by
    simp only [boot, Attempt.outcome_seq, Attempt.outcome_ofExcept, hc, ok_bind, hos, huser,
      Attempt.outcome_note, Attempt.outcome_pure]
  refine ⟨_, b, hboot, rfl, rfl, ⟨⟨hvalid, rfl, rfl, rfl, rfl, rfl⟩,
    ⟨?_, rfl, rfl, ?_, Tidy.singleton recordSize b⟩, Standing.nil m'⟩⟩
  · exact hchain.congr_blocks fun c hc => hframe.mono fun a ha =>
      hapart a ((hchain.within c hc).mem_of_span ha)
  · show Tiles [b.span] c.layout.osPool.span
    rw [hspan]
    exact tiles_self _

/-- **Trying a new kernel out.**  What is computed to hold of the kernel that starts holds of it: the
    start and `P` are evaluated together. -/
theorem exists_boot {c : Config} {catalog : Catalog} {P : Kernel → Prop} [DecidablePred P]
    (h : (match (boot c catalog).outcome with
      | .ok k => decide (P k)
      | .error _ => false) = true) :
    ∃ k, (boot c catalog).outcome = .ok k ∧ P k := by
  split at h
  · rename_i k hboot
    exact ⟨k, hboot, of_decide_eq_true h⟩
  · exact absurd h Bool.false_ne_true

/-- There is no new kernel without a valid configuration, and nobody lives in it:
    `Sound k [b] [] [] []`. -/
theorem boot_nobody {c : Config} {catalog : Catalog} (h : (boot c catalog).outcome = .ok k) :
    k.config = c ∧ k.catalog = catalog ∧ ∃ b, Sound k [b] [] [] [] := by
  cases hc : c.validate with
  | ok u =>
    obtain ⟨k', b, hboot, hconfig, hcatalog, h'⟩ := boot_sound catalog hc
    obtain rfl := Except.ok.inj (hboot.symm.trans h)
    exact ⟨hconfig, hcatalog, b, h'⟩
  | error e =>
    rw [boot, Attempt.outcome_ofExcept_bind, hc, error_bind] at h
    exact absurd h (by simp)

/-- A new kernel is up, the first process gets the number 1, and nobody has the processor:
    `k.running = none`. -/
theorem boot_fresh {c : Config} {catalog : Catalog} (h : (boot c catalog).outcome = .ok k) :
    k.isShutDown = false ∧ k.nextPid = 1 ∧ k.running = none := by
  simp only [boot, Attempt.outcome_seq, bind_eq_ok_iff] at h
  obtain ⟨-, -, ⟨osPool, m⟩, -, ⟨userPool, m'⟩, -, -, -, h⟩ := h
  obtain rfl := Except.ok.inj h
  exact ⟨rfl, rfl, rfl⟩

/-! ### Reachable kernels -/

/-- A kernel comes about from a new one, with the configuration `config` and the programs of
    `catalog`, by operations in any order.  A creation or an interrupt that fails is an operation,
    too. -/
inductive Reachable (config : Config) (catalog : Catalog) : Kernel → Prop where
  | boot {k : Kernel} (h : (Kernel.boot config catalog).outcome = .ok k) : Reachable config catalog k
  | create {k : Kernel} (h : Reachable config catalog k) (program : String) (priority : Word) :
    Reachable config catalog (exec (Kernel.create program priority) k).2
  | cycle {k : Kernel} (h : Reachable config catalog k) :
    Reachable config catalog (exec Kernel.cycle k).2
  | interrupt {k : Kernel} (h : Reachable config catalog k) (i : Interrupt) :
    Reachable config catalog (exec (Kernel.interrupt i) k).2

/-- A kernel at rest, as it is between two operations: it is in order (`Sound`), and no record is
    held. -/
def AtRest (config : Config) (catalog : Catalog) (k : Kernel) : Prop :=
  k.config = config ∧ k.catalog = catalog ∧ ∃ free ready waiting, Sound k free ready waiting []

variable {config : Config} {catalog : Catalog}

/-- A creation, whether it succeeds or not, leaves a kernel `AtRest`. -/
theorem AtRest.create (h : AtRest config catalog k) (program : String) (priority : Word) :
    AtRest config catalog (exec (Kernel.create program priority) k).2 := by
  obtain ⟨rfl, rfl, free, ready, waiting, h⟩ := h
  obtain ⟨k', hexec, hconfig, hcatalog, -, -, h'⟩ := h.create program priority
  rw [hexec]
  rcases h' with ⟨-, _, -, -, h'⟩ | ⟨_, _, _, _, -, -, -, h'⟩
  · exact ⟨hconfig, hcatalog, _, _, _, h'⟩
  · exact ⟨hconfig, hcatalog, _, _, _, h'⟩

/-- A cycle leaves a kernel `AtRest`, whatever the program does in it. -/
theorem AtRest.cycle (h : AtRest config catalog k) :
    AtRest config catalog (exec Kernel.cycle k).2 := by
  obtain ⟨rfl, rfl, free, ready, waiting, h⟩ := h
  rcases h.cycle with ⟨-, hexec⟩ | ⟨_, _, _, _, _, _, _, -, hexec, hsame, -, -, h', -⟩
  · rw [hexec]
    exact ⟨rfl, rfl, _, _, _, h⟩
  · rw [hexec]
    exact ⟨hsame.config, hsame.catalog, _, _, _, h'⟩

/-- The kernel that an interrupt leaves that asks for a program is that of the creation. -/
theorem exec_interrupt_runProgram (program : String) (priority : Word) :
    (exec (Kernel.interrupt (.runProgram program priority)) k).2
      = (exec (Kernel.create program priority) k).2 := by
  rcases hcreate : exec (Kernel.create program priority) k with ⟨e | r, k'⟩
  · rw [Kernel.interrupt, exec_bind_error hcreate]
  · rw [Kernel.interrupt, exec_bind_ok hcreate]
    rfl

/-- An interrupt, whether it succeeds or not, leaves a kernel `AtRest`. -/
theorem AtRest.interrupt (h : AtRest config catalog k) (i : Interrupt) :
    AtRest config catalog (exec (Kernel.interrupt i) k).2 := by
  by_cases hi : ∃ program priority, i = .runProgram program priority
  · obtain ⟨program, priority, rfl⟩ := hi
    rw [exec_interrupt_runProgram]
    exact h.create program priority
  · obtain ⟨rfl, rfl, free, ready, waiting, h⟩ := h
    obtain ⟨_, _, _, _, k', hexec, hconfig, hcatalog, h'⟩ := h.interrupt fun program priority hi' =>
      hi ⟨program, priority, hi'⟩
    rw [hexec]
    exact ⟨hconfig, hcatalog, _, _, _, h'⟩

/-- **Every kernel that comes about is at rest**, by induction on how it comes about. -/
theorem Reachable.atRest (h : Reachable config catalog k) : AtRest config catalog k := by
  induction h with
  | boot h =>
    obtain ⟨hconfig, hcatalog, b, h'⟩ := boot_nobody h
    exact ⟨hconfig, hcatalog, _, _, _, h'⟩
  | create _ program priority ih => exact ih.create program priority
  | cycle _ ih => exact ih.cycle
  | interrupt _ i ih => exact ih.interrupt i

/-! ### Histories -/

/-- What can happen to a kernel at rest. -/
inductive Operation where
  | create (program : String) (priority : Word)
  | cycle
  | interrupt (i : Interrupt)

/-- The kernel after an operation on `k`, whether the operation has failed or not. -/
def Operation.apply (k : Kernel) : Operation → Kernel
  | .create program priority => (exec (Kernel.create program priority) k).2
  | .cycle => (exec Kernel.cycle k).2
  | .interrupt i => (exec (Kernel.interrupt i) k).2

/-- The kernel after the history `ops`. -/
def after (k : Kernel) (ops : List Operation) : Kernel := ops.foldl Operation.apply k

/-- A history after a history: `k.after (ops ++ ops') = (k.after ops).after ops'`. -/
theorem after_append (k : Kernel) (ops ops' : List Operation) :
    k.after (ops ++ ops') = (k.after ops).after ops' := List.foldl_append

/-- An operation on a kernel that comes about gives one that does, `op.apply k`. -/
theorem Reachable.apply (h : Reachable config catalog k) (op : Operation) :
    Reachable config catalog (op.apply k) := by
  cases op with
  | create program priority => exact h.create program priority
  | cycle => exact h.cycle
  | interrupt i => exact h.interrupt i

/-- So does a history: `k.after ops`. -/
theorem Reachable.after (h : Reachable config catalog k) (ops : List Operation) :
    Reachable config catalog (k.after ops) := by
  induction ops generalizing k with
  | nil => exact h
  | cons op ops ih => exact ih (h.apply op)

/-! ### The pool of process records -/

/-- **Partition.**  In every kernel that comes about, the free `blocks` of the pool of process
    records and the records in the two queues cover the region of the pool (`Tiles`), every word
    exactly once.  So no record is lost, in two places of the queues, or free while it is in a
    queue, and the free words and 22 for each process add up to the length of the region. -/
theorem Reachable.partition (h : Reachable config catalog k) :
    ∃ blocks ready waiting, (k.osPool.blocks k.memory).outcome = .ok blocks
      ∧ k.readyRecords = .ok ready ∧ k.waitingRecords = .ok waiting ∧
      let pieces := blocks.map FreeBlock.span ++ (ready ++ waiting).map Record.span
      Tiles pieces config.layout.osPool.span ∧ pieces.Pairwise Span.Apart
        ∧ (ready ++ waiting).Nodup
        ∧ ∃ w, (k.osPool.freeWords k.memory).outcome = .ok w
          ∧ w.toInt + 22 * (ready.length + waiting.length) = config.layout.osPool.length.toNat := by
  obtain ⟨rfl, -, free, ready, waiting, hk⟩ := h.atRest
  obtain ⟨w, hw, hcount⟩ := hk.freeWords
  have htiles := hk.ledger.tiles
  have hapart := hk.ledger.pieces_apart
  have hnodup := hk.ledger.nodup
  rw [List.append_nil] at htiles hapart hnodup
  exact ⟨free, ready, waiting, hk.osBlocks, hk.readyRecords, hk.waitingRecords, htiles, hapart, hnodup,
    w, hw, by simpa using hcount⟩

/-- A kernel with two processes of which the first had a turn and waits for a character, while the
    second is ready: the blocks that are free and the two records tile the pool of `60` words. -/
theorem Reachable.partition_turn :
    let config : Config := { layout := ⟨⟨0, 9⟩, ⟨10, 29⟩, ⟨30, 89⟩⟩, stackSize := 2 }
    let catalog := Catalog.ofList
      [("ask", ⟨[(0, 126000), (1, 8), (2, 0)], 0⟩), ("halt", ⟨[(3, 0)], 3⟩)]
    let first : Record := ⟨⟨30, by decide⟩⟩
    let second : Record := ⟨⟨52, by decide⟩⟩
    ∃ k, (Kernel.boot config catalog).outcome = .ok k ∧
      let k' := k.after [.create "ask" 2, .create "halt" 1, .cycle]
      k'.readyRecords = .ok [second] ∧ k'.waitingRecords = .ok [first]
        ∧ ∃ blocks, (k'.osPool.blocks k'.memory).outcome = .ok blocks
          ∧ Tiles (blocks.map FreeBlock.span ++ [second.span, first.span]) config.layout.osPool.span
          ∧ ∃ w, (k'.osPool.freeWords k'.memory).outcome = .ok w ∧ w.toInt + 22 * 2 = 60 := by
  intro config catalog first second
  obtain ⟨k, hboot, hone, hother⟩ : ∃ k, (Kernel.boot config catalog).outcome = .ok k ∧
      let k' := k.after [.create "ask" 2, .create "halt" 1, .cycle]
      k'.readyRecords = .ok [second] ∧ k'.waitingRecords = .ok [first] :=
    exists_boot (by decide +kernel)
  obtain ⟨blocks, ready, waiting, hblocks, hready, hwaiting, htiles, -, -, w, hw, hcount⟩ :=
    Reachable.partition ((((Reachable.boot hboot).create "ask" 2).create "halt" 1).cycle)
  -- The queues are the two lists that the run has shown.
  obtain rfl := Except.ok.inj (hready.symm.trans hone)
  obtain rfl := Except.ok.inj (hwaiting.symm.trans hother)
  have hlength : config.layout.osPool.length.toNat = 60 := by decide
  rw [hlength] at hcount
  exact ⟨k, hboot, hone, hother, blocks, hblocks, htiles, w, hw, by simpa using hcount⟩

end Kernel

end Timeshare
