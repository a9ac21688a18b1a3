import Timeshare.Machine.Cpu

namespace Timeshare

/-!
# Traps

A system call hands the registers and memory to a trap handler, which says whether the program
goes on or has to wait.  A handler may keep a state of its own, of type `τ`.

* `TrapHandler.accepting` answers every call with success and does nothing;
* `TrapHandler.scripted` answers from a table and keeps a record of the calls, for running a
  program without a kernel.
-/

/-- How a program goes on after a system call. -/
inductive TrapOutcome where
  /-- With its next instruction. -/
  | proceed
  /-- Not at once: the run ends with this status. -/
  | block (status : Status)
  deriving DecidableEq, Repr

/-- What a trap handler works on. -/
structure TrapState (τ : Type) where
  registers : Registers
  memory : Memory
  /-- The handler's own state. -/
  host : τ

/-- Answers system calls, which are told apart by their number. -/
abbrev TrapHandler (τ : Type) := Word → Action (TrapState τ) TrapOutcome

/-- Puts an answer into the register that programs look for it in. -/
def TrapState.reply {τ : Type} (w : Word) : Action (TrapState τ) Unit :=
  modify fun s => { s with registers := s.registers.set .r0 w }

namespace TrapHandler

/-- Lets every call succeed without doing anything. -/
def accepting {τ : Type} : TrapHandler τ := fun _ => do
  TrapState.reply Status.ok.code
  return .proceed

/-- A system call as a scripted handler saw it. -/
structure Call where
  number : Word
  gpr : Vector Word 8
  privilege : Privilege
  deriving DecidableEq, Repr

/-- Records every call, and answers by a table of call numbers and codes, of which the last
    entry for a number counts.  The code of a fault makes the call fail; otherwise the call
    succeeds, and the code of a status makes the program wait. -/
def scripted (answers : List (Word × Word)) : TrapHandler (Array Call) := fun number => do
  modify fun s =>
    { s with host := s.host.push ⟨number, s.registers.gpr, s.registers.privilege⟩ }
  match (answers.reverse.find? fun a => a.1 == number).map Prod.snd with
  | none =>
    TrapState.reply Status.ok.code
    return .proceed
  | some code =>
    match Fault.ofCode? code with
    | some fault => throw fault
    | none =>
      TrapState.reply Status.ok.code
      match Status.ofCode? code with
      | some status => return .block status
      | none => return .proceed

end TrapHandler

end Timeshare
