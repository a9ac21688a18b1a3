import Timeshare.Proofs.Checked.Kernel

namespace Timeshare

/-!
# The calculations of interrupts

An interrupt calculates nothing but where the words of records are.  The processes that it finds in the queues
have their records in memory.

* `Checked.interrupt` — the handling of an event.
* `Checked.shutDown_stays` and its companions — no part of it aborts, by induction on the number of processes
  where there are many.
* `Checked.interrupt_follows` — nor does the whole.
-/

namespace Checked

/-- Takes a process that waits off its queue. -/
def takeWaiting (pid : Word) : Checked Kernel (Option Record) := do
  match (← observe (removeWaiting pid)) with
  | .ok r =>
    let _ ← slot r (← get).memory .reason
    return some r
  | .error .pidNotFound => return none
  | .error fault => throw fault

/-- Hands a character to a process. -/
def deliverInput (pid : Word) (input : Char) : Checked Kernel InterruptOutcome := do
  match (← takeWaiting pid) with
  | none => return .pidNotFound pid
  | some r =>
    modifyMemory fun m => do setReason r (← setSlot r m (.gpr .r1) (Word.ofChar input)) .none
    makeReady r
    return .inputDelivered pid

/-- Tells a process that its output was shown. -/
def deliverOutput (pid : Word) : Checked Kernel InterruptOutcome := do
  match (← takeWaiting pid) with
  | none => return .pidNotFound pid
  | some r =>
    let value ← slot r (← get).memory (.gpr .r1)
    modifyMemory (setReason r · .none)
    makeReady r
    return .output pid value

/-- Makes the waiting processes ready, the newest first; at most `fuel` of them. -/
def releaseAll : Nat → Checked Kernel Unit
  | 0 => throw .invalidMemoryAddress
  | fuel + 1 => do
    match (← popWaiting) with
    | none => return
    | some r =>
      modifyMemory (setReason r · .none)
      makeReady r
      releaseAll fuel

/-- Ends the ready processes and returns their numbers; at most `fuel` of them. -/
def terminateAll : Nat → Checked Kernel (List Word)
  | 0 => throw .invalidMemoryAddress
  | fuel + 1 => do
    match (← popReady) with
    | none => return []
    | some r =>
      let pid ← slot r (← get).memory .pid
      terminate r
      return pid :: (← terminateAll fuel)

/-- Ends all processes. -/
def shutDown : Checked Kernel InterruptOutcome := do
  releaseAll (memorySize + 1)
  let pids ← terminateAll (memorySize + 1)
  ofAction (modify fun k => { k with isShutDown := true })
  return .shutDown pids

/-- Handles an event. -/
def interrupt : Interrupt → Checked Kernel InterruptOutcome
  | .none => return .ignored
  | .runProgram program priority => do
    let r ← create program priority
    return .created (← slot r (← get).memory .pid)
  | .shutdown => shutDown
  | .inputCompletion pid input => deliverInput pid input
  | .outputCompletion pid => deliverOutput pid

/-! ### Interrupts do not abort -/

section Interrupt

variable {k t : Kernel} (h : k.Framed) (ht : Steady k t)
include h ht

/-- To take a waiting process off its queue for an event does not abort, and the record that it
    gives is in memory.  A process that is not found, and a queue that is damaged, are no aborts. -/
theorem takeWaiting_stays (pid : Word) (event : WaitReason) :
    Stays k (takeWaiting pid) (Kernel.takeWaiting pid event) t fun x => ∀ r ∈ x, r.InMemory := by
  refine (removeWaiting_stays h ht pid).observe.bind fun res u hu hin => ?_
  cases res with
  | ok r =>
    have hin := hin r rfl
    refine follows_get_bind ?_
    rw [slot_eq hin, pure_bind]
    have hdone : Stays k (pure (some r)) (pure (some r)) u fun x => ∀ r ∈ x, r.InMemory :=
      pure_stays hu fun x hx => Option.mem_some.mp hx ▸ hin
    -- A process that waits for something else makes a difference to the notices only.
    by_cases hreason : r.reason? u.memory = some event
    · simp only [hreason, ne_eq, not_true_eq_false, if_false]
      exact hdone
    · simp only [hreason, ne_eq, not_false_eq_true, if_true]
      exact follows_note_bind hdone
  | error fault =>
    cases fault with
    | pidNotFound => exact follows_note_bind (pure_stays hu (by simp))
    | _ => exact follows_throw hu

/-- To hand a character to a process does not abort, whatever `pid` and `input` are. -/
theorem deliverInput_stays (pid : Word) (input : Char) :
    Stays k (deliverInput pid input) (Kernel.deliverInput pid input) t fun _ => True := by
  refine (takeWaiting_stays h ht pid .inputCompletion).bind fun x u hu hin => ?_
  cases x with
  | none => exact pure_stays hu trivial
  | some r =>
    have hin := hin r rfl
    refine (modifyMemory_stays hu fun m => ?_).bind fun _ v hv _ => ?_
    · rw [setSlot_eq hin, pure_bind, setReason_eq hin]
    · exact (makeReady_stays h hv r).bind fun _ _ hw _ => follows_note_bind (pure_stays hw trivial)

/-- To tell a process that its output was shown does not abort, whatever `pid` is. -/
theorem deliverOutput_stays (pid : Word) :
    Stays k (deliverOutput pid) (Kernel.deliverOutput pid) t fun _ => True := by
  refine (takeWaiting_stays h ht pid .outputCompletion).bind fun x u hu hin => ?_
  cases x with
  | none => exact pure_stays hu trivial
  | some r =>
    have hin := hin r rfl
    refine follows_get_bind ?_
    rw [slot_eq hin, pure_bind]
    refine (modifyMemory_stays hu fun m => setReason_eq hin m _).bind fun _ v hv _ => ?_
    exact (makeReady_stays h hv r).bind fun _ _ hw _ => follows_note_bind (pure_stays hw trivial)

/-- To make the waiting processes ready does not abort, by induction on how many are taken at
    most. -/
theorem releaseAll_stays (fuel : Nat) :
    Stays k (releaseAll fuel) (Kernel.releaseAll fuel) t fun _ => True := by
  induction fuel generalizing t with
  | zero => exact follows_throw ht
  | succ fuel ih =>
    refine (popWaiting_stays h ht).bind fun x u hu hin => ?_
    cases x with
    | none => exact pure_stays hu trivial
    | some r =>
      exact (modifyMemory_stays hu fun m => setReason_eq (hin r rfl) m _).bind fun _ _ hv _ =>
        (makeReady_stays h hv r).bind fun _ _ hw _ => ih hw

/-- To end the ready processes does not abort, by induction on how many are taken at most. -/
theorem terminateAll_stays (fuel : Nat) :
    Stays k (terminateAll fuel) (Kernel.terminateAll fuel) t fun _ => True := by
  -- The kernel stays steady from one process to the next, which is all that the next one needs.
  induction fuel generalizing t with
  | zero => exact follows_throw ht
  | succ fuel ih =>
    refine (popReady_stays h ht).bind fun x u hu hin => ?_
    cases x with
    | none => exact pure_stays hu trivial
    | some r =>
      have hin := hin r rfl
      refine follows_get_bind ?_
      rw [slot_eq hin, pure_bind]
      exact (terminate_stays h hu hin).bind fun _ _ hv _ => (ih hv).bind fun _ _ hw _ =>
        pure_stays hw trivial

/-- To end all processes does not abort. -/
theorem shutDown_stays : Stays k shutDown Kernel.shutDown t fun _ => True :=
  (releaseAll_stays h ht _).bind fun _ _ hu _ => (terminateAll_stays h hu _).bind fun _ _ hv _ =>
    ⟨rfl, hv.of_eq rfl rfl, trivial⟩

omit ht in
/-- **Interrupts.**  Handling an event does not abort if there is a number for the process that it
    creates. -/
theorem interrupt_follows (event : Interrupt)
    (hpid : ∀ pid u, Action.exec (Kernel.interrupt event) k = (.ok (.created pid), u) →
      k.nextPid.toInt < Int64.maxValue.toInt) :
    exec (interrupt event) k = some (Action.exec (Kernel.interrupt event) k) := by
  cases event with
  | none => rfl
  | runProgram program priority =>
    have hcreate := create_follows h program priority fun r u hr =>
      hpid (r.pid u.memory) u ((Action.exec_bind_ok hr).trans rfl)
    suffices Follows (interrupt (.runProgram program priority))
        (Kernel.interrupt (.runProgram program priority)) k (fun _ _ => True) fun _ u => Steady k u from
      this.exec_eq
    refine hcreate.bind fun r u hin => follows_get_bind ?_
    rw [slot_eq hin, pure_bind]
    exact follows_pure trivial
  | shutdown => exact (shutDown_stays h (.refl k)).exec_eq
  | inputCompletion pid input => exact (deliverInput_stays h (.refl k) pid input).exec_eq
  | outputCompletion pid => exact (deliverOutput_stays h (.refl k) pid).exec_eq

end Interrupt

end Checked

end Timeshare
