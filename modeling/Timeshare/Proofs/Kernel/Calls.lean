import Timeshare.Proofs.Kernel.Service
import Timeshare.Proofs.Machine.Footprint
import Timeshare.Proofs.Machine.Stack

namespace Timeshare.Service

/-!
# System services, written out

`Service.handler_confined` says what no service can do.  Here is what the services do.

* `Service.exec_allocate`, `Service.exec_release` — the two services that use the pool.
* `Service.handler_quiet` — the others leave memory and the pool alone.
* `Service.raises_handler` — none of them fails, whatever the program has done to the pool.
* `Service.handler_keepsSp` — all of them leave the stack pointer alone.
* `Service.instruction_footprint` — what one instruction changes, of a program that calls these services
  or of one without a kernel.
-/

open Timeshare.Action

variable {s : Env} {r : Record} {call : Word}

/-- The answer `w` to a program is in its first register. -/
def answer (s : Env) (w : Word) : Env := { s with registers := s.registers.set .r0 w }

/-- The result `w` for a program is in its second register. -/
def result (s : Env) (w : Word) : Env := { s with registers := s.registers.set .r1 w }

/-- The answer is in the first register, `.r0`. -/
@[simp] theorem get_answer (s : Env) (w : Word) : (answer s w).registers.get .r0 = w :=
  Registers.get_set_self _ _ _

/-- The answer that comes behind a result leaves the result in `.r1`. -/
theorem get_result (s : Env) (w w' : Word) : (answer (result s w) w').registers.get .r1 = w := by
  rw [answer, result, Registers.get_set_of_ne _ _ (by decide), Registers.get_set_self]

/-- A fault is told apart from success: no `e.code` is that of `Status.ok`. -/
theorem code_ne_ok (e : Fault) : e.code ≠ Status.ok.code := by cases e <;> decide

/-- A pool operation of a service never fails: what it ends with is a value, `.ok` or `.error`, and
    only where it succeeds the pool and memory change. -/
theorem exec_onPool {α : Type} (f : Pool → Memory → Attempt (α × Pool × Memory)) (s : Env) :
    exec (onPool f) s =
      match (f s.host s.memory).outcome with
      | .ok (a, host, memory) => (.ok (.ok a), { s with host, memory })
      | .error e => (.ok (.error e), s) := by
  rw [onPool, exec_observe, exec_bind_ok (exec_get s)]
  cases hout : (f s.host s.memory).outcome with
  | ok x =>
    obtain ⟨a, host, memory⟩ := x
    rw [exec_bind_ok (by rw [exec_attempt, hout])]
    rfl
  | error e =>
    rw [exec_bind_error (by rw [exec_attempt, hout])]

/-- **The service that allocates memory.**  Register `.r2` has the size; a size below 1 is refused,
    otherwise `Pool.allocate` decides.  The answer is a code in `.r0`, with the address or the code
    of the fault in `.r1`. -/
theorem exec_allocate (s : Env) :
    exec allocate s = (.ok .proceed,
      if s.registers.get .r2 < 1 then answer s Fault.invalidMemorySize.code
      else
        match (s.host.allocate s.memory (s.registers.get .r2)).outcome with
        | .ok (a, host, memory) =>
          answer (result ⟨s.registers, memory, host⟩ a.toWord) Status.ok.code
        | .error fault => answer (result s fault.code) fault.code) := by
  rw [allocate, exec_bind_ok (exec_get s)]
  by_cases hsize : s.registers.get .r2 < 1
  · simp only [hsize, if_true]
    rfl
  · simp only [hsize, if_false]
    have hpool := exec_onPool (fun p m => p.allocate m (s.registers.get .r2)) s
    cases hout : (s.host.allocate s.memory (s.registers.get .r2)).outcome with
    | ok x =>
      rw [hout] at hpool
      rw [exec_bind_ok hpool]
      rfl
    | error e =>
      rw [hout] at hpool
      rw [exec_bind_ok hpool]
      rfl

/-- What a release of memory leaves, which the pool has accepted or refused: the answer tells
    which. -/
def released (s : Env) : Except Fault (Pool × Memory) → Env
  | .ok (host, memory) => answer ⟨s.registers, memory, host⟩ Status.ok.code
  | .error fault => answer s fault.code

/-- **The service that releases memory.**  Registers `.r1` and `.r2` have the start and the size,
    and `Pool.release` decides. -/
theorem exec_release (s : Env) :
    exec release s = (.ok .proceed,
      released s (s.host.release s.memory (s.registers.get .r1) (s.registers.get .r2)).outcome) := by
  rw [release, exec_bind_ok (exec_get s)]
  have hpool := exec_onPool (fun p m =>
    Prod.mk () <$> p.release m (s.registers.get .r1) (s.registers.get .r2)) s
  rw [Attempt.outcome_map] at hpool
  cases hout : (s.host.release s.memory (s.registers.get .r1) (s.registers.get .r2)).outcome with
  | ok x =>
    rw [hout] at hpool
    rw [exec_bind_ok hpool]
    rfl
  | error e =>
    rw [hout] at hpool
    rw [exec_bind_ok hpool]
    rfl

/-- Call 4 is the service that allocates memory. -/
theorem exec_handler_allocate (r : Record) (s : Env) : exec (handler r 4) s = exec allocate s := by
  rw [handler, exec_bind_ok (exec_get s), exec_bind_ok (exec_note _ s)]
  rfl

/-- Call 5 is the service that releases memory. -/
theorem exec_handler_release (r : Record) (s : Env) : exec (handler r 5) s = exec release s := by
  rw [handler, exec_bind_ok (exec_get s), exec_bind_ok (exec_note _ s)]
  rfl

/-- **All other services** leave memory and the pool alone: if `call` is neither 4 nor 5, `memory`
    and `host` are what they were. -/
theorem handler_quiet (hallocate : call ≠ 4) (hrelease : call ≠ 5) (r : Record) (s : Env) :
    (exec (handler r call) s).2.memory = s.memory ∧ (exec (handler r call) s).2.host = s.host := by
  rw [handler, exec_bind_ok (exec_get s), exec_bind_ok (exec_note _ s)]
  split
  · exact ⟨rfl, rfl⟩
  · rename_i hcall
    exact absurd (Int64.toInt_inj.mp hcall) hallocate
  · rename_i hcall
    exact absurd (Int64.toInt_inj.mp hcall) hrelease
  all_goals exact ⟨rfl, rfl⟩

/-- **No service fails.**  What the pool refuses is told to the program, so that `handler r call`
    raises no fault at all. -/
theorem raises_handler {E : Fault → Prop} (r : Record) (call : Word) : Raises E (handler r call) := by
  intro s e t h
  rw [handler, exec_bind_ok (exec_get s), exec_bind_ok (exec_note _ s)] at h
  split at h
  case h_2 => exact absurd h (by rw [exec_allocate]; simp)
  case h_3 => exact absurd h (by rw [exec_release]; simp)
  all_goals cases h

/-- **The services that let a program wait** are those for characters, 8 and 9; they give it their
    answer and do nothing else. -/
theorem handler_block {status : Status} (h : (exec (handler r call) s).1 = .ok (.block status)) :
    ((call = 8 ∧ status = .waitingForInput) ∨ (call = 9 ∧ status = .waitingForOutput))
      ∧ (exec (handler r call) s).2 = answer s Status.ok.code := by
  rw [handler, exec_bind_ok (exec_get s), exec_bind_ok (exec_note _ s)] at h ⊢
  -- One case for each call; the calls for memory go on in any case.
  split at h
  case h_2 => exact absurd h (by rw [exec_allocate]; simp)
  case h_3 => exact absurd h (by rw [exec_release]; simp)
  case h_4 hcall =>
    refine ⟨.inl ⟨Int64.toInt_inj.mp hcall, ?_⟩, ?_⟩
    · cases h
      rfl
    · rfl
  case h_5 hcall =>
    refine ⟨.inr ⟨Int64.toInt_inj.mp hcall, ?_⟩, ?_⟩
    · cases h
      rfl
    · rfl
  all_goals exact absurd h (by rintro ⟨⟩)

/-- **The stack pointer** is left alone by all services: `(handler r).KeepsSp`. -/
theorem handler_keepsSp (r : Record) : (handler r).KeepsSp := by
  intro call s
  rw [handler, exec_bind_ok (exec_get s), exec_bind_ok (exec_note _ s)]
  split
  · rfl
  · rw [exec_allocate]
    simp only []
    split
    · rfl
    · split <;> rfl
  · rw [exec_release]
    unfold released
    split <;> rfl
  all_goals rfl

/-- A handler that does nothing does not fail either. -/
theorem raises_accepting {τ : Type} {E : Fault → Prop} (call : Word) :
    Raises E ((TrapHandler.accepting : TrapHandler τ) call) :=
  (raises_modify _).bind fun _ => raises_pure _

/-- **What one instruction changes**, from any machine on, under the kernel (`handler r`) or without
    one (`TrapHandler.accepting`).  A step that fails leaves everything alone but the registers that
    find operands.  A step that succeeds changes one word of memory at most, which the instruction
    names, and the registers that it names. -/
theorem instruction_footprint :
    (∀ (r : Record) (s : Machine Pool), Machine.Footprint (handler r) s)
      ∧ ∀ {τ : Type} (s : Machine τ), Machine.Footprint TrapHandler.accepting s :=
  ⟨fun r s => Machine.step_footprint (raises_handler r) s,
    fun s => Machine.step_footprint raises_accepting s⟩

end Timeshare.Service
