import Timeshare.Proofs.Kernel.Reachable

namespace Timeshare

/-!
# What an operation does

One operation on a kernel in order has one of six effects.  What holds after every operation is shown
for each of these, and not for each operation.

* `Kernel.Released` — what happens to a waiting process that becomes ready.
* `Kernel.Change k free ready waiting op k' free' ready' waiting'` — the effect of an operation, with
  the lists before and after it.
* `Kernel.Sound.change` — every operation has an effect, and leaves a kernel in order.
-/

/-- The completion of an input, with its character, or of an output, with none. -/
def Interrupt.completion (pid : Word) : Option Char → Interrupt
  | some input => .inputCompletion pid input
  | .none => .outputCompletion pid

/-- A completion is no shutdown. -/
theorem Interrupt.completion_ne_shutdown (pid : Word) (input : Option Char) :
    completion pid input ≠ .shutdown := by
  cases input <;> simp [completion]

namespace Kernel

open Timeshare.Action

variable {k k' : Kernel} {free : List FreeBlock} {ready waiting : List Record} {r : Record}

/-- The program that an operation asks for, if it asks for one. -/
def Operation.program? : Operation → Option String
  | .create program _ => some program
  | .interrupt (.runProgram program _) => some program
  | _ => none

/-- The waiting process `r` has become ready.  Its registers are what they were, except for the
    character `input` that it was given. -/
structure Released (k : Kernel) (r : Record) (input : Option Char) (k' : Kernel) : Prop
    extends SameUser k k' where
  slots : ∀ s, s.isScheduling = false → s ≠ .gpr .r1 → r.get k'.memory s = r.get k.memory s
  result : r.get k'.memory (.gpr .r1)
    = (input.map Word.ofChar).getD (r.get k.memory (.gpr .r1))

/-- The effect of an operation on a kernel with the free blocks `free` and the processes `ready` and
    `waiting`, and those that there are afterwards. -/
inductive Change (k : Kernel) (free : List FreeBlock) (ready waiting : List Record) :
    Operation → Kernel → List FreeBlock → List Record → List Record → Prop where
  /-- Nobody is ready, or nobody waits for the completion. -/
  | nothing {op : Operation} (noProgram : op.program? = none) (cycle : op = .cycle → ready = [])
    (shutdown : op ≠ .interrupt .shutdown) : Change k free ready waiting op k free ready waiting
  /-- A process could not be created. -/
  | undone {op : Operation} {program : String} {e : Fault} {k' : Kernel} {free' : List FreeBlock}
    (asked : op.program? = some program) (undone : Undone k program e (ready ++ waiting) k') :
    Change k free ready waiting op k' free' ready waiting
  /-- A process was created. -/
  | created {op : Operation} {program : String} {priority : Word} {x : Record} {k' : Kernel}
    {free' : List FreeBlock} {ahead behind : List Record} (asked : op.program? = some program)
    (made : exec (Kernel.create program priority) k = (.ok x, k'))
    (place : x.Place k'.memory ready ahead behind) (new : Sound.NewProcess k x k')
    (kept : Record.Kept (ready ++ waiting) k.memory k'.memory) :
    Change k free ready waiting op k' free' (ahead ++ x :: behind) waiting
  /-- The first ready process had its turn. -/
  | turn {r : Record} {rest : List Record} {start stop : Kernel} {status : Except Fault Status}
    {k' : Kernel} {free' : List FreeBlock} {ready' waiting' : List Record} (first : ready = r :: rest)
    (turn : Turn r k start stop status k') (dispatched : Dispatched r k start)
    (contained : Guest.Contained k.config.layout start.memory stop.machine)
    (placed : Placed k'.memory r free rest waiting (.ofStatus status) free' ready' waiting')
    (kept : Record.Kept (rest ++ waiting) k.memory k'.memory)
    (left : LeftBehind r (.ofStatus status) stop k') :
    Change k free ready waiting .cycle k' free' ready' waiting'
  /-- A waiting process was told that its input or output is complete. -/
  | released {op : Operation} {pid : Word} {input : Option Char} {r : Record} {k' : Kernel}
    {before after ahead behind : List Record} (completes : op = .interrupt (.completion pid input))
    (waits : waiting = before ++ r :: after) (number : r.pid k.memory = pid)
    (place : r.Place k'.memory ready ahead behind) (released : Released k r input k')
    (kept : Record.Kept (ready ++ (before ++ after)) k.memory k'.memory) :
    Change k free ready waiting op k' free (ahead ++ r :: behind) (before ++ after)
  /-- All processes have ended. -/
  | shutDown {k' : Kernel} {free' : List FreeBlock} (isShutDown : k'.isShutDown = true)
    (nextPid : k'.nextPid = k.nextPid) (running : k.running = none → k'.running = none) :
    Change k free ready waiting (.interrupt .shutdown) k' free' [] []

/-- Who lives after an operation has lived before it, or was created by it. -/
theorem Change.mem {free' : List FreeBlock} {ready' waiting' : List Record} {op : Operation}
    (h : Change k free ready waiting op k' free' ready' waiting') (hr : r ∈ ready' ++ waiting') :
    r ∈ ready ++ waiting ∨
      ∃ program priority, exec (Kernel.create program priority) k = (.ok r, k') := by
  cases h with
  | nothing _ _ _ => exact .inl hr
  | undone _ _ => exact .inl hr
  | @created _ program priority x _ _ ahead behind _ made place _ _ =>
    -- The new process stands among the ready ones; all others have been there before.
    by_cases hx : r = x
    · rw [hx]
      exact .inr ⟨program, priority, made⟩
    · refine .inl ?_
      rw [place.eq]
      simp only [List.mem_append, List.mem_cons, hx, false_or] at hr ⊢
      exact hr
  | turn first _ _ _ placed _ _ =>
    refine .inl ?_
    rw [placed.perm.mem_iff] at hr
    rw [first, List.cons_append]
    split at hr
    · exact hr
    · exact List.mem_cons_of_mem _ hr
  | released _ waits _ place _ _ =>
    refine .inl ?_
    rw [waits, place.eq]
    simp only [List.mem_append, List.mem_cons] at hr ⊢
    tauto
  | shutDown _ _ _ => exact absurd hr (by simp)

/-- A request for a program is no cycle. -/
theorem Operation.ne_cycle {op : Operation} {program : String} (h : op.program? = some program) :
    op ≠ .cycle := by
  rintro rfl
  exact absurd h (by simp [Operation.program?])

namespace Sound

/-- A request for a program creates a process, or is undone. -/
theorem change_create (h : Sound k free ready waiting []) {op : Operation} {program : String}
    (hop : op.program? = some program) (priority : Word) :
    ∃ k' free' ready' waiting', (exec (Kernel.create program priority) k).2 = k'
      ∧ Change k free ready waiting op k' free' ready' waiting'
      ∧ Sound k' free' ready' waiting' [] := by
  obtain ⟨k', hexec, -, -, -, hkept, hend⟩ := h.create program priority
  rw [hexec]
  rcases hend with ⟨e, free', -, hundone, h'⟩ | ⟨x, free', ahead, behind, hok, hplace, hnew, h'⟩
  · exact ⟨k', _, _, _, rfl, .undone hop hundone, h'⟩
  · rw [hok] at hexec
    exact ⟨k', _, _, _, rfl, .created hop hexec hplace hnew hkept, h'⟩

/-- A cycle gives the first ready process its turn, or does nothing if nobody is ready. -/
theorem change_cycle (h : Sound k free ready waiting []) :
    ∃ k' free' ready' waiting', (exec Kernel.cycle k).2 = k'
      ∧ Change k free ready waiting .cycle k' free' ready' waiting'
      ∧ Sound k' free' ready' waiting' [] := by
  cases ready with
  | nil =>
    rcases h.cycle with ⟨-, hexec⟩ | ⟨_, _, _, _, _, _, _, hready, -⟩
    · rw [hexec]
      exact ⟨k, _, _, _, rfl, .nothing rfl (fun _ => rfl) (by simp), h⟩
    · exact absurd hready (by simp)
  | cons r rest =>
    obtain ⟨start, stop, status, k', free', ready', waiting', hturn, hstart, hcontained, -, hplaced, h',
      hkept, hleft⟩ := h.turn
    rw [hturn.exec_cycle]
    exact ⟨k', _, _, _, rfl, .turn rfl hturn hstart hcontained hplaced hkept hleft, h'⟩

/-- A completion releases the first waiting process with the number `pid`, or does nothing if there
    is none.  With a character, the process finds it in its register of results. -/
theorem change_completion (h : Sound k free ready waiting []) (pid : Word) (input : Option Char) :
    ∃ k' free' ready' waiting', (exec (Kernel.interrupt (.completion pid input)) k).2 = k'
      ∧ Change k free ready waiting (.interrupt (.completion pid input)) k' free' ready' waiting'
      ∧ Sound k' free' ready' waiting' [] := by
  have hdown : Operation.interrupt (.completion pid input) ≠ .interrupt .shutdown := fun hop =>
    Interrupt.completion_ne_shutdown pid input (Operation.interrupt.inj hop)
  -- The two completions differ in what the record is given.
  cases input with
  | some input =>
    rcases h.deliverInput pid input with
      hexec |
      ⟨before, r, after, ahead, behind, k', hwaiting, hpid, hplace, hexec, hsame, h', hkept, hslots⟩
    · exact ⟨k, _, _, _, congrArg Prod.snd hexec, .nothing rfl (by simp) hdown, h⟩
    · have hreleased : Released k r (some input) k' := by
        refine ⟨hsame, fun s hs hne => ?_, ?_⟩
        · rw [hslots s hs, if_neg hne]
        · rw [hslots _ rfl, if_pos rfl]
          rfl
      exact ⟨k', _, _, _, congrArg Prod.snd hexec,
        .released rfl hwaiting hpid hplace hreleased hkept, h'⟩
  | none =>
    rcases h.deliverOutput pid with
      hexec |
      ⟨before, r, after, ahead, behind, k', hwaiting, hpid, hplace, hexec, hsame, h', hkept, hslots⟩
    · exact ⟨k, _, _, _, congrArg Prod.snd hexec, .nothing rfl (by simp) hdown, h⟩
    · have hreleased : Released k r none k' :=
        ⟨hsame, fun s hs _ => hslots s hs, hslots _ rfl⟩
      exact ⟨k', _, _, _, congrArg Prod.snd hexec,
        .released rfl hwaiting hpid hplace hreleased hkept, h'⟩

/-- **Every operation** has one of the effects of `Change`, and the kernel is in order
    afterwards. -/
theorem change (h : Sound k free ready waiting []) (op : Operation) :
    ∃ k' free' ready' waiting', op.apply k = k'
      ∧ Change k free ready waiting op k' free' ready' waiting'
      ∧ Sound k' free' ready' waiting' [] := by
  unfold Operation.apply
  cases op with
  | create program priority => exact h.change_create rfl priority
  | cycle => exact h.change_cycle
  | interrupt i =>
    -- The two completions differ in whether a character comes with them.
    cases i with
    | none =>
      exact ⟨k, _, _, _, rfl, .nothing rfl (by simp) (by simp), h⟩
    | runProgram program priority =>
      have hasked : (Operation.interrupt (.runProgram program priority)).program? = some program := rfl
      obtain ⟨k', free', ready', waiting', hexec, hchange, h'⟩ := h.change_create hasked priority
      exact ⟨k', free', ready', waiting', (exec_interrupt_runProgram program priority).trans hexec,
        hchange, h'⟩
    | shutdown =>
      obtain ⟨free', k', hexec, -, -, hdown, h', hnext, hrunning, -⟩ := h.shutDown
      exact ⟨k', free', _, _, congrArg Prod.snd hexec, .shutDown hdown hnext hrunning, h'⟩
    | inputCompletion pid input => exact h.change_completion pid (some input)
    | outputCompletion pid => exact h.change_completion pid none

end Sound

end Kernel

end Timeshare
