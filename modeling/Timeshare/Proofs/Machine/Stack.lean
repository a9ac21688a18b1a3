import Timeshare.Proofs.Machine.Next

namespace Timeshare

/-!
# The stack of a program

A push looks at the upper end of the window only, and a pop at the lower end.  That is enough, as every
step keeps the stack pointer between one below the base, where the stack is empty, and the limit.

* `StackBounds.Admits b sp` — the stack pointer is in the window.
* `Machine.Bounded b s` — moreover the window is that of the machine `s`, and programs reach all of it.
* `Machine.Bounded.push_full`, `Machine.Bounded.push_room`, `Machine.Bounded.pop_empty`,
  `Machine.Bounded.pop_word` — the only faults of the stack are an overflow of the full and an underflow
  of the empty one.
* `Machine.Bounded.step` — a step keeps the stack pointer in the window.
* `Machine.stackEvent? handler s` — the word that the next step pushes or pops.
* `Machine.Stacked level s ws` — above a level, the words `ws` are on the stack; `Stacked.pushed`,
  `Stacked.popped` and `Stacked.same` say what becomes of them in a step.
-/

namespace StackBounds

/-- A stack pointer that is in the window, or one below it where the stack is empty. -/
def Admits (b : StackBounds) (sp : Word) : Prop :=
  b.base.toInt - 1 ≤ sp.toInt ∧ sp.toInt ≤ b.limit.toInt

instance (b : StackBounds) (sp : Word) : Decidable (b.Admits sp) := inferInstanceAs (Decidable (_ ∧ _))

/-- A word is in the window. -/
def Contains (b : StackBounds) (a : Address) : Prop :=
  b.base.toInt ≤ a.index ∧ (a.index : Int) ≤ b.limit.toInt

end StackBounds

/-- A trap handler that leaves the stack pointer alone. -/
def TrapHandler.KeepsSp {τ : Type} (handler : TrapHandler τ) : Prop :=
  ∀ number env, (Action.exec (handler number) env).2.registers.sp = env.registers.sp

namespace Machine

open Timeshare.Action

variable {τ : Type} {handler : TrapHandler τ} {s t u v : Machine τ} {i : Instruction} {o : Operand}
  {b : StackBounds}

/-! ### The window -/

/-- The stack of a machine is the window `b`, which lies where a program may reach, and the stack
    pointer is in it. -/
structure Bounded (b : StackBounds) (s : Machine τ) : Prop where
  valid : s.cpu.layout.Valid
  stack : s.cpu.stack = some b
  first : (s.cpu.layout.operandRange.start.toNat : Int) ≤ b.base.toInt
  last : b.limit.toInt ≤ s.cpu.layout.operandRange.last.toNat
  admits : b.Admits s.cpu.registers.sp

namespace Bounded

/-- The window is in memory: `b.limit.toInt < memorySize`. -/
theorem limit_lt (h : Bounded b s) : b.limit.toInt < memorySize := by
  have hfits := h.valid.operandRange.last_lt
  have hlast := h.last
  omega

/-- The word above the top of the stack is no overflow of words: `sp + 1` is the exact sum. -/
theorem toInt_succ (h : Bounded b s) :
    (s.cpu.registers.sp + 1).toInt = s.cpu.registers.sp.toInt + 1 := by
  have hone : (1 : Word).toInt = 1 := rfl
  have hlimit := h.limit_lt
  simp only [memorySize] at hlimit
  obtain ⟨hlow, hhigh⟩ := h.admits
  have hfirst := h.first
  rw [Word.toInt_add] <;> omega

/-- The word below the top of a stack that is not empty is no overflow of words: `sp - 1` is the
    exact difference. -/
theorem toInt_pred (h : Bounded b s) (hne : b.base.toInt ≤ s.cpu.registers.sp.toInt) :
    (s.cpu.registers.sp - 1).toInt = s.cpu.registers.sp.toInt - 1 := by
  have hone : (1 : Word).toInt = 1 := rfl
  have hlimit := h.limit_lt
  simp only [memorySize] at hlimit
  obtain ⟨-, hhigh⟩ := h.admits
  have hfirst := h.first
  rw [Word.toInt_sub] <;> omega

/-- A machine with the same layout and the same window is `Bounded` as long as `b` admits its stack
    pointer. -/
theorem congr (h : Bounded b s) (hlayout : t.cpu.layout = s.cpu.layout)
    (hstack : t.cpu.stack = s.cpu.stack) (hadmits : b.Admits t.cpu.registers.sp) : Bounded b t where
  valid := hlayout ▸ h.valid
  stack := hstack.trans h.stack
  first := hlayout ▸ h.first
  last := hlayout ▸ h.last
  admits := hadmits

theorem still (h : Bounded b s) (hst : Still s t) : Bounded b t :=
  h.congr hst.layout hst.stack (hst.sp ▸ h.admits)

theorem tick (h : Bounded b s) (cost : UInt64) : Bounded b (s.tick cost) :=
  h.congr rfl rfl h.admits

/-- Every word of the window, between `b.base` and `b.limit`, is where a program may reach. -/
theorem reachable (h : Bounded b s) {w : Word} (hlow : b.base.toInt ≤ w.toInt)
    (hhigh : w.toInt ≤ b.limit.toInt) :
    ∃ a : Address, (a.index : Int) = w.toInt ∧ b.Contains a ∧ s.cpu.reachable w = .ok a := by
  have hfirst := h.first
  have hlast := h.last
  obtain ⟨a, ha, hindex⟩ := Cpu.exists_reachable h.valid (w := w) (by omega) (by omega)
  exact ⟨a, hindex, ⟨by omega, by omega⟩, ha⟩

/-- **A push on a full stack** fails with `stackOverflow`. -/
theorem push_full (handler : TrapHandler τ) (h : Bounded b s) (hnext : s.next? = some (i, o, u))
    (hi : i.opcode = .push) (hfull : s.cpu.registers.sp = b.limit) :
    exec (step handler) s = (.error .stackOverflow, u) := by
  obtain ⟨-, hstill⟩ := next?_still h.valid hnext
  have hsucc := h.toInt_succ
  rw [step_push hnext hi (h.still hstill).stack, hstill.sp, if_pos]
  rw [Int64.lt_iff_toInt_lt, hsucc, hfull]
  omega

/-- **Any other push** writes the operand to the word above the top, `sp + 1`, which is in the
    window, and moves the stack pointer there. -/
theorem push_room (handler : TrapHandler τ) (h : Bounded b s) (hnext : s.next? = some (i, o, u))
    (hi : i.opcode = .push) (hroom : s.cpu.registers.sp ≠ b.limit) :
    ∃ a : Address, (a.index : Int) = s.cpu.registers.sp.toInt + 1 ∧ b.Contains a
      ∧ u.cpu.reachable (u.cpu.registers.sp + 1) = .ok a
      ∧ exec (step handler) s = (.ok (i, .proceed),
        withSp { u with memory := s.memory.write a o.value } (s.cpu.registers.sp + 1)) := by
  obtain ⟨-, hstill⟩ := next?_still h.valid hnext
  have hu := h.still hstill
  have hsucc := h.toInt_succ
  obtain ⟨hlow, hhigh⟩ := h.admits
  have hne : s.cpu.registers.sp.toInt ≠ b.limit.toInt := fun heq => hroom (Int64.toInt_inj.mp heq)
  obtain ⟨a, hindex, hin, ha⟩ := hu.reachable (w := s.cpu.registers.sp + 1)
    (by rw [hsucc]; omega) (by rw [hsucc]; omega)
  rw [hsucc] at hindex
  -- Neither of the two checks refuses the word, the one of the window and the one of the layout.
  rw [step_push hnext hi hu.stack, hstill.sp, hstill.memory, if_neg, ha]
  · exact ⟨a, hindex, hin, rfl, rfl⟩
  · rw [Int64.lt_iff_toInt_lt, hsucc]
    omega

/-- **A pop of an empty stack** fails with `stackUnderflow`. -/
theorem pop_empty (handler : TrapHandler τ) (h : Bounded b s) (hnext : s.next? = some (i, o, u))
    (hi : i.opcode = .pop) (hempty : s.cpu.registers.sp.toInt = b.base.toInt - 1) :
    exec (step handler) s = (.error .stackUnderflow, u) := by
  obtain ⟨-, hstill⟩ := next?_still h.valid hnext
  rw [step_pop hnext hi (h.still hstill).stack, hstill.sp, if_pos]
  rw [Int64.lt_iff_toInt_lt]
  omega

/-- **Any other pop** takes the word at the top, which is in the window, to where the operand was
    found, and `sp - 1` becomes the stack pointer. -/
theorem pop_word (handler : TrapHandler τ) (h : Bounded b s) (hnext : s.next? = some (i, o, u))
    (hi : i.opcode = .pop) (hword : s.cpu.registers.sp.toInt ≠ b.base.toInt - 1) :
    ∃ a : Address, (a.index : Int) = s.cpu.registers.sp.toInt ∧ b.Contains a
      ∧ u.cpu.reachable u.cpu.registers.sp = .ok a
      ∧ exec (step handler) s
        = exec (takeOff i o.location (s.memory.read a) (s.cpu.registers.sp - 1)) u := by
  obtain ⟨-, hstill⟩ := next?_still h.valid hnext
  have hu := h.still hstill
  obtain ⟨hlow, hhigh⟩ := h.admits
  obtain ⟨a, hindex, hin, ha⟩ := hu.reachable (w := s.cpu.registers.sp) (by omega) (by omega)
  rw [step_pop hnext hi hu.stack, hstill.sp, hstill.memory, if_neg, ha]
  · exact ⟨a, hindex, hin, rfl, rfl⟩
  · rw [Int64.lt_iff_toInt_lt]
    omega

end Bounded

/-! ### What a step does to the stack -/

/-- What happens to a stack: a word is put on it or taken off it. -/
inductive StackEvent where
  | pushed (w : Word)
  | popped (w : Word)
  deriving DecidableEq, Repr

/-- The word that the stack pointer points to. -/
def top (s : Machine τ) : Word :=
  ((Address.ofWord? s.cpu.registers.sp).map s.memory.read).getD 0

/-- The word that the next step pushes or pops, if it succeeds in that. -/
def stackEvent? (handler : TrapHandler τ) (s : Machine τ) : Option StackEvent :=
  match s.next?, (exec (step handler) s).1 with
  | some (i, o, _), .ok _ =>
    match i.opcode with
    | .push => some (.pushed o.value)
    | .pop => some (.popped s.top)
    | _ => none
  | _, _ => none

/-- What a step from the machine `s` to `t` does to the stack pointer, and to memory in a push. -/
inductive StackStep (b : StackBounds) (s t : Machine τ) : Option StackEvent → Prop where
  | pushed {a : Address} {w : Word} (above : (a.index : Int) = s.cpu.registers.sp.toInt + 1)
    (le : a.index ≤ b.limit.toInt) (sp : t.cpu.registers.sp.toInt = s.cpu.registers.sp.toInt + 1)
    (memory : t.memory = s.memory.write a w) : StackStep b s t (some (.pushed w))
  | popped {a : Address} (at_top : (a.index : Int) = s.cpu.registers.sp.toInt)
    (le : b.base.toInt ≤ a.index) (sp : t.cpu.registers.sp.toInt = s.cpu.registers.sp.toInt - 1) :
    StackStep b s t (some (.popped (s.memory.read a)))
  | same (sp : t.cpu.registers.sp = s.cpu.registers.sp) : StackStep b s t none

/-- Only the stack pointer and memory matter after a step: `t'` may differ from `t` in all the
    rest. -/
theorem StackStep.congr {t' : Machine τ} {event : Option StackEvent} (h : StackStep b s t event)
    (hsp : t'.cpu.registers.sp = t.cpu.registers.sp) (hmemory : t'.memory = t.memory) :
    StackStep b s t' event := by
  cases h with
  | pushed habove hle hsp' hmemory' => exact .pushed habove hle (hsp ▸ hsp') (hmemory.trans hmemory')
  | popped htop hle hsp' => exact .popped htop hle (hsp ▸ hsp')
  | same hsp' => exact .same (hsp.trans hsp')

/-- A pop moves the stack pointer to `sp`, unless its word cannot be stored. -/
theorem takeOff_sp (i : Instruction) (location : Location) (w sp : Word) (s : Machine τ) :
    Ends (takeOff i location w sp) s (fun x t => x = (i, .proceed) ∧ t.cpu.registers.sp = sp)
      (fun _ t => t.cpu.registers.sp = s.cpu.registers.sp) := by
  cases location with
  | register r => exact ⟨rfl, rfl⟩
  | memory a => exact ⟨rfl, rfl⟩
  | program => rfl

/-- The top of the stack is the word at the address `a` in the stack pointer. -/
theorem top_eq {a : Address} (ha : (a.index : Int) = s.cpu.registers.sp.toInt) :
    s.top = s.memory.read a := by
  rw [top, Address.ofWord?_eq_some_iff.mpr ha.symm]
  rfl

/-- **The stack in a step.**  It is pushed to, popped from, or left alone, as `stackEvent?` says. -/
theorem Bounded.stackStep (hsp : handler.KeepsSp) (h : Bounded b s) :
    StackStep b s (exec (step handler) s).2 (s.stackEvent? handler) := by
  unfold stackEvent?
  rcases hnext : s.next? with _ | ⟨i, o, u⟩
  · rcases step_cases handler h.valid with ⟨_, _, _, hsome, -⟩ | hplain
    · exact absurd (hnext.symm.trans hsome) (by simp)
    · exact .same hplain.sp
  -- From here on, the instruction and its operand are known, and its opcode decides.
  obtain ⟨-, hstill⟩ := next?_still h.valid hnext
  cases hi : i.opcode with
  | push =>
    by_cases hfull : s.cpu.registers.sp = b.limit
    · rw [h.push_full handler hnext hi hfull]
      exact .same hstill.sp
    · obtain ⟨a, hindex, hin, -, hexec⟩ := h.push_room handler hnext hi hfull
      rw [hexec]
      simp only [hi]
      exact .pushed hindex hin.2 h.toInt_succ rfl
  | pop =>
    by_cases hempty : s.cpu.registers.sp.toInt = b.base.toInt - 1
    · rw [h.pop_empty handler hnext hi hempty]
      exact .same hstill.sp
    · obtain ⟨a, hindex, hin, -, hexec⟩ := h.pop_word handler hnext hi hempty
      have htaken := takeOff_sp i o.location (s.memory.read a) (s.cpu.registers.sp - 1) u
      rw [hexec]
      rcases hres : exec (takeOff i o.location (s.memory.read a) (s.cpu.registers.sp - 1)) u with
        ⟨e | x, v⟩
      · rw [ends_of_error hres] at htaken
        exact .same (htaken.trans hstill.sp)
      · rw [ends_of_ok hres] at htaken
        simp only [hi, top_eq hindex]
        refine .popped hindex hin.1 ?_
        rw [htaken.2]
        exact h.toInt_pred (hindex ▸ hin.1)
  | systemCall =>
    have hcall : (exec (step handler) s).2.cpu.registers.sp = s.cpu.registers.sp := by
      rw [step_call handler hnext hi]
      exact (hsp o.value u.environment).trans hstill.sp
    cases (exec (step handler) s).1 with
    | ok x => simpa only [hi] using .same hcall
    | error e => exact .same hcall
  | halt | add | subtract | multiply | divide | move | branch | branchOnMinus | branchOnPlus
  | branchOnZero =>
    have hplain : (exec (step handler) s).2.cpu.registers.sp = s.cpu.registers.sp := by
      rcases step_cases handler h.valid with ⟨j, _, _, hsome, hj⟩ | hplain
      · obtain ⟨rfl, -⟩ := Prod.mk.inj (Option.some.inj (hnext.symm.trans hsome))
        exact absurd hj (by simp [hi, Opcode.isPlain])
      · exact hplain.sp
    cases (exec (step handler) s).1 with
    | ok x => simpa only [hi] using .same hplain
    | error e => exact .same hplain

/-- **The stack pointer stays in the window**, however a step ends. -/
theorem Bounded.step (hsp : handler.KeepsSp) (h : Bounded b s) :
    Bounded b (exec (step handler) s).2 := by
  have heffect := step_effect handler h.valid
  refine h.congr heffect.layout heffect.stack ?_
  have hstep := h.stackStep hsp
  obtain ⟨hlow, hhigh⟩ := h.admits
  unfold StackBounds.Admits
  generalize s.stackEvent? handler = event at hstep
  cases hstep with
  | pushed _ hle hsp _ => omega
  | popped _ hle hsp => omega
  | same hsp =>
    rw [hsp]
    exact ⟨hlow, hhigh⟩

/-! ### What is on the stack -/

end Machine

/-- Above a level, memory holds some words; the first of them is the highest. -/
def Memory.Holds (m : Memory) (level : Int) : List Word → Prop
  | [] => True
  | w :: ws => (∃ a : Address, (a.index : Int) = level + ws.length + 1 ∧ m.read a = w) ∧ m.Holds level ws

/-- Words above a level stay where they are as long as their part of memory does, the `ws.length`
    words behind `level`. -/
theorem Memory.Holds.congr {m n : Memory} {level : Int} {ws : List Word} (h : m.Holds level ws)
    (hmn : Memory.SameOn (fun a => level < a.index ∧ (a.index : Int) ≤ level + ws.length) m n) :
    n.Holds level ws := by
  induction ws with
  | nil => trivial
  | cons w ws ih =>
    obtain ⟨⟨a, hindex, hread⟩, hrest⟩ := h
    rw [List.length_cons] at hmn
    refine ⟨⟨a, hindex, ?_⟩, ih hrest (hmn.mono fun a ha => by omega)⟩
    rw [← hread]
    exact (hmn a (by omega)).symm

namespace Machine

open Timeshare.Action

variable {τ : Type} {handler : TrapHandler τ} {s t : Machine τ} {b : StackBounds} {level : Int}
  {w : Word} {ws : List Word}

/-- Above a level, the words on the stack of a machine are some words, the top first. -/
structure Stacked (level : Int) (s : Machine τ) (ws : List Word) : Prop where
  sp : s.cpu.registers.sp.toInt = level + ws.length
  words : s.memory.Holds level ws

/-- The words on the stack above a level, as far as they stay on it, do not change from the machine `s` to
    `t`. -/
def Undisturbed (level : Int) (s t : Machine τ) : Prop :=
  Memory.SameOn (fun a => level < a.index ∧ a.index ≤ s.cpu.registers.sp.toInt
    ∧ a.index ≤ t.cpu.registers.sp.toInt) s.memory t.memory

/-- A push puts its word on top of the others: `w :: ws`. -/
theorem Stacked.pushed (h : Stacked level s ws) (hstep : StackStep b s t (some (.pushed w))) :
    Stacked level t (w :: ws) := by
  cases hstep with
  | @pushed a _ habove _ hsp hmemory =>
    have hlevel := h.sp
    refine ⟨by rw [List.length_cons]; omega,
      ⟨a, by omega, by rw [hmemory, Memory.read_write_self]⟩, ?_⟩
    rw [hmemory]
    refine h.words.congr fun a ha => (Memory.read_write_of_ne _ _ ?_).symm
    rintro rfl
    omega

/-- A pop takes the top off, and it is the word `w'`, as long as nothing else happens to the
    words. -/
theorem Stacked.popped {w' : Word} (h : Stacked level s (w' :: ws))
    (hstep : StackStep b s t (some (.popped w))) (hsame : Undisturbed level s t) :
    w = w' ∧ Stacked level t ws := by
  obtain ⟨hlevel, ⟨a, hindex, hread⟩, hwords⟩ := h
  rw [List.length_cons] at hlevel
  cases hstep with
  | @popped a' htop _ hsp =>
    obtain rfl : a' = a := Address.ext (by omega)
    exact ⟨hread, by omega, hwords.congr (hsame.mono fun a ha => by omega)⟩

/-- All other steps leave the words where they are, as long as nothing else happens to them. -/
theorem Stacked.same (h : Stacked level s ws) (hstep : StackStep b s t none)
    (hsame : Undisturbed level s t) : Stacked level t ws := by
  have hlevel := h.sp
  cases hstep with
  | same hsp =>
    refine ⟨hsp ▸ hlevel, h.words.congr (hsame.mono fun a ha => ?_)⟩
    rw [hsp]
    omega

end Machine

end Timeshare
