import Timeshare.Proofs.Checked.Interrupt
import Timeshare.Proofs.Kernel.Lifecycle

namespace Timeshare

/-!
# Histories do not abort

Programs choose the arguments of their system calls, and what the words of the user pool are.  A number that
they choose is added to another one only after a check, which may be made far away: by the search of a free
list, by the processor, when a process is created.  Here the checks are put together, along a history.

* `Checked.boot`, `Checked.apply`, `Checked.after` — the start of a kernel, an operation and a history.
* `Checked.boot_eq` — the start of a kernel does not abort.
* `Checked.apply_eq`, `Checked.after_eq` — nor does an operation on a kernel that comes about, nor a history.
* `Checked.never_aborts` — all of it, for every valid configuration.
-/

namespace Checked

variable {σ : Type}

/-! ### New kernels -/

/-- Accepts the layouts that are valid.  The pools are measured once they are known to lie in memory. -/
def validateLayout (l : Layout) : Checked σ Unit :=
  if !(Layout.fits l.userProgram && Layout.fits l.userPool && Layout.fits l.osPool) then
    throw .invalidAddress
  else if l.userProgram.last ≥ l.userPool.start || l.userPool.last ≥ l.osPool.start then
    throw .invalidAddress
  else do
    let userWords ← length l.userPool
    let osWords ← length l.osPool
    if userWords < 2 || osWords < 2 then throw .invalidMemorySize

/-- Accepts the configurations that are valid. -/
def validate (c : Config) : Checked σ Unit := do
  validateLayout c.layout
  if c.timeSlice = 0 then
    throw .invalidSizeOrMemoryAddress
  let userWords ← length c.layout.userPool
  if c.stackSize < 1 || userWords.toInt64 < c.stackSize then
    throw .invalidMemorySize

/-- Starts a kernel. -/
def boot (config : Config) (catalog : Catalog) : Checked σ Kernel := do
  validate config
  let layout := config.layout
  let (osPool, memory) ← fill (.empty .os layout.osPool) Memory.zero
  let (userPool, memory) ← fill (.empty .user layout.userPool) memory
  -- The notice tells how long the pools are.
  let _ ← length layout.osPool
  let _ ← length layout.userPool
  return {
    config, osPool, catalog
    machine := { Machine.boot layout userPool with memory }
    ready := { region := layout.osPool }
    waiting := { region := layout.osPool }
    running := none
    nextPid := 1
    isShutDown := false }

/-- To check a layout does not abort: `length` is asked only of the pools of a layout that fits in
    memory. -/
theorem validateLayout_eq (l : Layout) : (validateLayout l : Checked σ Unit) = ofExcept l.validate := by
  unfold validateLayout Layout.validate
  split
  · rfl
  rename_i hfits
  simp only [Bool.not_eq_true, Bool.not_eq_false', Bool.and_eq_true, Layout.fits_iff] at hfits
  obtain ⟨⟨-, huser⟩, hos⟩ := hfits
  split
  · rfl
  rw [length_eq huser, pure_bind, length_eq hos, pure_bind]
  split <;> rfl

/-- To check a configuration does not abort, whatever its numbers are. -/
theorem validate_eq (c : Config) : (validate c : Checked σ Unit) = ofExcept c.validate := by
  rw [validate, Config.validate, validateLayout_eq, ofExcept_bind]
  refine ofExcept_bind_congr fun _ hlayout => ?_
  have hL := Layout.validate_eq_ok_iff.mp hlayout
  by_cases hslice : c.timeSlice = 0
  · simp only [hslice, if_true]
    rfl
  · simp only [hslice, if_false, length_eq hL.userPool, pure_bind]
    by_cases hstack : (c.stackSize < 1 || c.layout.userPool.length.toInt64 < c.stackSize) = true
    · simp only [hstack, if_true]
      rfl
    · simp only [hstack]
      rfl

/-- **The start of a kernel** does not abort, with whatever configuration: `boot config catalog`
    ends as `Kernel.boot` does. -/
theorem boot_eq (config : Config) (catalog : Catalog) :
    (boot config catalog : Checked σ Kernel) = ofExcept (Kernel.boot config catalog).outcome := by
  simp only [boot, Kernel.boot, validate_eq, Attempt.outcome_seq, Attempt.outcome_ofExcept,
    Attempt.outcome_note, Attempt.outcome_pure, ofExcept_bind]
  refine ofExcept_bind_congr fun _ hvalid => ?_
  have hL := (Config.validate_eq_ok_iff.mp hvalid).layout
  simp only [fill_eq (p := Pool.empty .os config.layout.osPool) hL.osPool]
  refine bind_congr fun x => ?_
  simp only [fill_eq (p := Pool.empty .user config.layout.userPool) hL.userPool, length_eq hL.osPool,
    length_eq hL.userPool, ofExcept_ok, pure_bind]

/-! ### Histories -/

/-- The kernel after an operation, if the operation does not abort. -/
def apply (k : Kernel) : Kernel.Operation → Option Kernel
  | .create program priority => (exec (create program priority) k).map (·.2)
  | .cycle => (exec cycle k).map (·.2)
  | .interrupt i => (exec (interrupt i) k).map (·.2)

/-- The kernel after a history, if no operation aborts. -/
def after (k : Kernel) (ops : List Kernel.Operation) : Option Kernel := ops.foldlM apply k

section History

open Kernel (Reachable Census Operation)

variable {k : Kernel} {config : Config} {catalog : Catalog} {came gone : List Word}

/-- The process that gets the processor has a stack in memory. -/
theorem hasStack_of_popReady (hk : Reachable config catalog k) {r : Record} {k₁ : Kernel}
    (hpop : Action.exec Kernel.popReady k = (.ok (some r), k₁)) : HasStack r k₁.memory := by
  obtain ⟨hconfig, -, free, ready, waiting, h⟩ := hk.atRest
  cases ready with
  | nil => exact absurd (h.popReady_nil.symm.trans hpop) (by simp)
  | cons x rest =>
    obtain ⟨k', hpop', -, -, hlinks⟩ := h.popReady_cons
    obtain ⟨hx, rfl⟩ := Prod.mk.inj (hpop'.symm.trans hpop)
    obtain rfl := Option.some.inj (Except.ok.inj hx)
    -- A process that is alive has the address and the size of its stack in its record.
    obtain ⟨a, hstart, hsize⟩ := hk.stack_slots (r := x) (h.alive_iff.mpr (by simp))
    -- Taking the process off its queue changes links, and no stack.
    have hqueued : ∀ y ∈ x :: rest, y ∈ x :: rest ++ waiting := fun y hy => List.mem_append_left _ hy
    have hkept := (h.kept_links hlinks hqueued).get x (by simp)
    have hindex := a.index_lt
    have hone := h.valid.one_le_stack
    have hle := h.valid.stack_le
    have hlength := h.valid.layout.userPool.length_toNat
    have hlast := h.valid.layout.userPool.last_lt
    simp only [memorySize] at hindex hlast
    rw [HasStack, hkept .stackStart (by simp), hkept .stackSize (by simp), hstart, hsize,
      Address.toInt_toWord, ← hconfig]
    simp only [memorySize]
    omega

/-- **One operation** does not abort if there is a number for the process that it creates, and the clock
    has room for the instructions that it executes. -/
theorem apply_eq (hk : Reachable config catalog k) (op : Operation)
    (hpid : op.came k ≠ [] → k.nextPid.toInt < Int64.maxValue.toInt)
    (htime : ∀ m ∈ op.moments k, HasTime m.machine) : apply k op = some (op.apply k) := by
  obtain ⟨-, -, free, ready, waiting, h⟩ := hk.atRest
  cases op with
  | create program priority =>
    have hcreate := create_follows h.toFramed program priority fun r u hr => hpid (by
      rw [Operation.came, hr]
      simp)
    rw [apply, hcreate.exec_eq]
    rfl
  | cycle =>
    rw [apply, cycle_follows h.toFramed (fun r u hpop => hasStack_of_popReady hk hpop) htime]
    rfl
  | interrupt i =>
    have hinterrupt := interrupt_follows h.toFramed i fun pid u hr => hpid (by
      rw [Operation.came, hr]
      simp [InterruptOutcome.came])
    rw [apply, hinterrupt]
    rfl

/-- **A history** does not abort if there are numbers for the processes that it creates, and the clock has
    room for the instructions that it executes. -/
theorem after_eq (hk : Reachable config catalog k) (hcensus : Census k came gone) {ops : List Operation}
    (hpid : (came ++ k.created ops).length < Int64.maxValue.toInt)
    (htime : ∀ m ∈ k.trace ops, HasTime m.machine) : after k ops = some (k.after ops) := by
  induction ops generalizing k came gone with
  | nil => rfl
  | cons op ops ih =>
    rw [Kernel.created, ← List.append_assoc] at hpid
    rw [Kernel.trace] at htime
    have hfirst : apply k op = some (op.apply k) := by
      refine apply_eq hk op (fun hcame => ?_) fun m hm => htime m (List.mem_append_left _ hm)
      -- The numbers from 1 to `n` are given out, and this operation gives out another one.
      obtain ⟨n, rfl, hnext⟩ := hcensus.numbers
      have hsome := List.length_pos_iff.mpr hcame
      have hmax : Int64.maxValue.toInt = 9223372036854775807 := rfl
      simp only [List.length_append, List.length_map, List.length_range, hmax] at hpid
      rw [hnext, Int64.toInt_ofNat_of_lt (by omega), hmax]
      omega
    obtain ⟨-, -, _, _, _, h⟩ := hk.atRest
    rw [after, List.foldlM_cons, hfirst]
    exact ih (hk.apply op) (hcensus.turnover (h.turnover op)) hpid fun m hm =>
      htime m (List.mem_append_right _ hm)

/-- **No calculation aborts.**  A kernel starts with every valid configuration.  Whatever its programs are,
    and whatever happens to it in whatever order: as long as there are numbers for the processes and the
    clock has room for an instruction, every exact number fits its type and every index is in memory.  The
    checked operations do what the operations do, and so do the sums of the free words at the end of every
    history. -/
theorem never_aborts {config : Config} (hconfig : config.validate = .ok ()) (catalog : Catalog)
    (ops : List Operation) :
    ∃ k₀, (Kernel.boot config catalog).outcome = .ok k₀
      ∧ (boot config catalog : Checked Unit Kernel) = pure k₀
      ∧ ((k₀.created ops).length < Int64.maxValue.toInt → (∀ m ∈ k₀.trace ops, HasTime m.machine) →
        let k := k₀.after ops
        after k₀ ops = some k
          ∧ (freeWords k.osPool k.memory : Checked Unit Word)
            = ofExcept (k.osPool.freeWords k.memory).outcome
          ∧ (freeWords k.userPool k.memory : Checked Unit Word)
            = ofExcept (k.userPool.freeWords k.memory).outcome) := by
  obtain ⟨k₀, b, hboot, -⟩ := Kernel.boot_sound catalog hconfig
  refine ⟨k₀, hboot, ?_, fun hpid htime => ?_⟩
  · rw [boot_eq, hboot, ofExcept_ok]
  have hk := Kernel.Reachable.boot hboot
  obtain ⟨-, -, _, _, _, h⟩ := (hk.after ops).atRest
  exact ⟨after_eq hk (Kernel.census_boot hboot) hpid htime, freeWords_eq (h.osRegion ▸ h.fits) _,
    freeWords_eq (h.userRegion ▸ h.valid.layout.userPool) _⟩

/-- A process releases and asks for as many words as the largest number says, and writes the smallest one
    into the free block of the pool, as its size. -/
theorem never_aborts_extreme :
    let config : Config := { layout := ⟨⟨0, 19⟩, ⟨20, 39⟩, ⟨40, 99⟩⟩, stackSize := 2 }
    let catalog := Catalog.ofList [("greedy", ⟨[(0, 51260), (1, Int64.maxValue), (2, 51160), (3, 22),
      (4, 126000), (5, 5), (6, 126000), (7, 4), (8, 51160), (9, Int64.minValue), (10, 55011), (11, 23),
      (12, 126000), (13, 4), (14, 0)], 0⟩)]
    let ops : List Operation := [.create "greedy" 1, .cycle, .interrupt .shutdown]
    ∃ k₀, (Kernel.boot config catalog).outcome = .ok k₀
      ∧ (k₀.created ops).length < Int64.maxValue.toInt ∧ (∀ m ∈ k₀.trace ops, HasTime m.machine)
      ∧ after k₀ ops = some (k₀.after ops)
      ∧ (freeWords (k₀.after ops).userPool (k₀.after ops).memory : Checked Unit Word)
        = throw .invalidMemoryAddress := by
  intro config catalog ops
  -- The run shows what the hypotheses of the theorem ask for.
  obtain ⟨k₀, hboot, hcreated, htime, hfree⟩ : ∃ k₀, (Kernel.boot config catalog).outcome = .ok k₀ ∧
      k₀.created ops = [1] ∧ (∀ m ∈ k₀.trace ops, HasTime m.machine)
        ∧ ((k₀.after ops).userPool.freeWords (k₀.after ops).memory).outcome
          = .error .invalidMemoryAddress := Kernel.exists_boot (by decide +kernel)
  obtain ⟨k₀', hboot', -, hall⟩ := never_aborts (show config.validate = .ok () by decide) catalog ops
  obtain rfl := Except.ok.inj (hboot.symm.trans hboot')
  have hpid : (k₀.created ops).length < Int64.maxValue.toInt := by rw [hcreated]; decide
  obtain ⟨hafter, -, huser⟩ := hall hpid htime
  refine ⟨k₀, hboot, hpid, htime, hafter, ?_⟩
  rw [huser, hfree, ofExcept_error]

end History

end Checked

end Timeshare
