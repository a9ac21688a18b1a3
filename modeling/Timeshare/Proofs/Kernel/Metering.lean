import Timeshare.Proofs.Kernel.Service
import Timeshare.Proofs.Machine.Slice
import Timeshare.Proofs.Machine.Visits

namespace Timeshare

/-!
# The account of a time slice

A run within a time slice pays for each instruction that it completes, and goes on as long as something
is left.  What the clock, the meter and the outcome say at its end follows from the list of these
instructions.

* `Machine.completed` — the instructions that a run completes, each with how its program goes on after
  it.
* `Account left xs outcome` — a run with `left` units to spend completes the instructions `xs` and ends
  with `outcome`; what they cost (`Account.failed_cost`, `Account.last`) and how many they are
  (`Account.attempts_le`) is shown by induction on it.
* `Machine.run_account` — every run within a time slice has an account, and the clock and the meter
  agree with it.
* `Machine.Metered`, `Machine.runSlice_metered` — all that the account says of a time slice.
-/

namespace Instruction

/-- No instruction costs more than twelve units: `i.opcode.cost.toNat ≤ 12`. -/
theorem cost_le (i : Instruction) : i.opcode.cost.toNat ≤ 12 := by
  cases i.opcode <;> decide

/-- What the completed instructions `xs` cost together. -/
abbrev costOf (xs : List (Instruction × Step)) : Nat := totalCost (xs.map Prod.fst)

theorem costOf_cons (i : Instruction) (next : Step) (xs : List (Instruction × Step)) :
    costOf ((i, next) :: xs) = i.opcode.cost.toNat + costOf xs := rfl

theorem costOf_singleton (i : Instruction) (next : Step) :
    costOf [(i, next)] = i.opcode.cost.toNat := rfl

/-- The cost of two rows of instructions, `xs ++ ys`, is the sum of their costs. -/
theorem costOf_append (xs ys : List (Instruction × Step)) :
    costOf (xs ++ ys) = costOf xs + costOf ys := by
  rw [costOf, List.map_append, totalCost_append]

end Instruction

open Instruction

/-! ### The meter -/

/-- A charge takes from a time slice what is left of it at most: `remaining - cost`, and 0 if that
    is less than the cost. -/
theorem TimeSlice.remaining_charge (s : TimeSlice) (cost : UInt64) :
    (s.charge cost).2.remaining.toNat = s.remaining.toNat - cost.toNat := by
  unfold charge
  by_cases hle : s.remaining ≤ cost
  · have hle' := UInt64.le_iff_toNat_le.mp hle
    simp only [hle, if_true, UInt64.toNat_zero]
    omega
  · have hlt : cost ≤ s.remaining := UInt64.le_of_lt (UInt64.not_le.mp hle)
    simp only [hle, if_false]
    exact UInt64.toNat_sub_of_le _ _ hlt

/-- The verdict of a charge is to stop if nothing is left after it, that is, if
    `remaining ≤ cost`. -/
theorem TimeSlice.verdict_charge (s : TimeSlice) (cost : UInt64) :
    (s.charge cost).1 = if s.remaining.toNat ≤ cost.toNat then .stop else .proceed := by
  have hzero : (s.charge cost).2.remaining = 0 ↔ s.remaining.toNat ≤ cost.toNat := by
    rw [← UInt64.toNat_inj, s.remaining_charge cost, UInt64.toNat_zero]
    omega
  show (if (s.charge cost).2.remaining = 0 then Verdict.stop else .proceed) = _
  simp only [hzero]

/-! ### Accounts -/

/-- A run that has `left` units to spend completes the instructions `xs` and ends with `outcome`.
    It ends with a fault, with an instruction after which the program does not go on, or with one
    that uses up what is left. -/
inductive Account : Nat → List (Instruction × Step) → Except Fault Status → Prop where
  | failed {left : Nat} (fault : Fault) (hleft : 0 < left) : Account left [] (.error fault)
  | halted {left : Nat} (i : Instruction) (hleft : 0 < left) :
    Account left [(i, .halt)] (.ok .halted)
  | blocked {left : Nat} (i : Instruction) (status : Status) (hleft : 0 < left) :
    Account left [(i, .block status)] (.ok status)
  | expired {left : Nat} (i : Instruction) (hleft : 0 < left) (hcost : left ≤ i.opcode.cost.toNat) :
    Account left [(i, .proceed)] (.ok .timeSliceExpired)
  | proceed {left : Nat} {i : Instruction} {xs : List (Instruction × Step)}
    {outcome : Except Fault Status} (hcost : i.opcode.cost.toNat < left)
    (rest : Account (left - i.opcode.cost.toNat) xs outcome) : Account left ((i, .proceed) :: xs) outcome

/-- The instructions that a run takes on: the `xs` that it completes, and one more that fails if it
    ends with a fault. -/
def attempts (xs : List (Instruction × Step)) (outcome : Except Fault Status) : Nat :=
  match outcome with
  | .error _ => xs.length + 1
  | .ok _ => xs.length

/-- How a run ends after an instruction that it has completed last: `cost` is what all instructions
    have cost together, the last one included. -/
inductive Closes (left cost : Nat) : Step → Except Fault Status → Prop where
  | halted : Closes left cost .halt (.ok .halted)
  | blocked (status : Status) : Closes left cost (.block status) (.ok status)
  | expired (h : left ≤ cost) : Closes left cost .proceed (.ok .timeSliceExpired)

namespace Account

variable {left : Nat} {xs : List (Instruction × Step)} {outcome : Except Fault Status}

/-- **Length.**  Each instruction that a run goes on from costs two units at least, so that half of
    what is left, rounded up, bounds their number: `2 * attempts xs outcome ≤ left + 1`. -/
theorem attempts_le (h : Account left xs outcome) : 2 * attempts xs outcome ≤ left + 1 := by
  induction h with
  | failed fault hleft => exact Nat.succ_le_succ hleft
  | halted i hleft => exact Nat.succ_le_succ hleft
  | blocked i status hleft => exact Nat.succ_le_succ hleft
  | expired i hleft hcost => exact Nat.succ_le_succ hleft
  | @proceed left i xs outcome hcost rest ih =>
    have htwo : 2 ≤ i.opcode.cost.toNat := UInt64.le_iff_toNat_le.mp i.opcode.two_le_cost
    have hlength : attempts ((i, .proceed) :: xs) outcome = attempts xs outcome + 1 := by
      cases outcome <;> rfl
    rw [hlength]
    omega

/-- A run that ends with a fault has not used up what it had: `costOf xs < left`. -/
theorem failed_cost {fault : Fault} (h : Account left xs (.error fault)) : costOf xs < left := by
  generalize houtcome : (Except.error fault : Except Fault Status) = outcome at h
  induction h with
  | failed fault hleft => exact hleft
  | halted | blocked | expired => exact absurd houtcome (by simp)
  | @proceed left i xs outcome hcost rest ih =>
    have hrest := ih houtcome
    rw [costOf_cons]
    omega

/-- **The last instruction.**  A run that does not end with a fault ends with an instruction that it
    has completed, and something was left before this one: `xs = front ++ [(i, next)]` with
    `costOf front < left`. -/
theorem last {status : Status} (h : Account left xs (.ok status)) :
    ∃ front i next, xs = front ++ [(i, next)] ∧ costOf front < left
      ∧ Closes left (costOf xs) next (.ok status) := by
  generalize houtcome : (Except.ok status : Except Fault Status) = outcome at h
  -- By induction on the account: the last instruction is that of the rest, until the rest is one
  -- instruction.
  induction h with
  | failed => exact absurd houtcome (by simp)
  | halted i hleft => exact ⟨[], i, .halt, rfl, hleft, .halted⟩
  | blocked i status hleft => exact ⟨[], i, .block status, rfl, hleft, .blocked status⟩
  | expired i hleft hcost =>
    exact ⟨[], i, .proceed, rfl, hleft, .expired (Nat.le_add_right_of_le hcost)⟩
  | @proceed left i xs outcome hcost rest ih =>
    obtain ⟨front, j, next, rfl, hfront, hcloses⟩ := ih houtcome
    refine ⟨(i, .proceed) :: front, j, next, rfl, ?_, ?_⟩
    · rw [costOf_cons]
      omega
    · cases hcloses with
      | halted => exact .halted
      | blocked status => exact .blocked status
      | expired hle =>
        refine .expired ?_
        rw [costOf_cons]
        omega

end Account

/-! ### Runs -/

namespace Machine

open Timeshare.Action

variable {τ : Type} {handler : TrapHandler τ} {s t : Machine τ}

/-- The instructions that a run completes, each with how its program goes on after it: the visits
    whose step succeeds. -/
def completed (handler : TrapHandler τ) (fuel : Nat) (x : Meter × Machine τ) :
    List (Instruction × Step) :=
  (visits handler fuel x).filterMap fun s => (exec (step handler) s).1.toOption

/-- A step leaves the clock alone if the trap handler does (`hclock`). -/
theorem clock_step (hclock : ∀ time number, Keeps (·.registers.clock = time) (handler number))
    {res : Except Fault (Instruction × Step)} (h : exec (step handler) s = (res, t)) :
    t.cpu.registers.clock = s.cpu.registers.clock := by
  have hkept := keeps_clock_step (hclock s.cpu.registers.clock) s rfl
  rwa [h] at hkept

/-- What a run within the time slice `ts` has done when it is over, with the end `e`: the
    instructions that it completes are its account, and the clock and the meter agree with their
    cost. -/
structure Accounted (handler : TrapHandler τ) (fuel : Nat) (ts : TimeSlice) (s : Machine τ)
    (e : Ended τ) : Prop where
  ends : (run handler fuel (.slice ts) s).value = .inl e
  account : Account ts.remaining.toNat (completed handler fuel (.slice ts, s)) e.outcome
  visits : (visits handler fuel (.slice ts, s)).length
    = attempts (completed handler fuel (.slice ts, s)) e.outcome
  clock : e.machine.cpu.registers.clock
    = s.cpu.registers.clock + UInt64.ofNat (costOf (completed handler fuel (.slice ts, s)))
  meter : ∃ ts', e.meter = .slice ts' ∧ ts'.budget = ts.budget ∧ ts'.remaining.toNat
    = ts.remaining.toNat - costOf (completed handler fuel (.slice ts, s))

section Turn

variable (hclock : ∀ time number, Keeps (·.registers.clock = time) (handler number)) {fuel : Nat}
  {ts : TimeSlice} {i : Instruction} {next : Step} {e : Ended τ}
include hclock

/-- A run whose first instruction fails with `fault` is accounted for: it completes nothing. -/
theorem accounted_failed {fault : Fault} (hpos : 0 < ts.remaining.toNat)
    (hstep : exec (step handler) s = (.error fault, t)) :
    Accounted handler (fuel + 1) ts s ⟨.error fault, .slice ts, t⟩ := by
  have hturn : (advance handler (.slice ts, s)).value = .inl ⟨.error fault, .slice ts, t⟩ := by
    rw [value_advance, hstep]
  have hvisits : visits handler (fuel + 1) (.slice ts, s) = [s] := by
    rw [visits, hturn]
  have hcompleted : completed handler (fuel + 1) (.slice ts, s) = [] := by
    rw [completed, hvisits, List.filterMap_cons, hstep]
    rfl
  refine ⟨?_, ?_, ?_, ?_, ?_⟩
  · rw [run, Logged.value_loop_succ, hturn]
  · rw [hcompleted]
    exact .failed fault hpos
  · rw [hcompleted, hvisits]
    rfl
  · rw [hcompleted, clock_step hclock hstep]
    exact (UInt64.add_zero _).symm
  · rw [hcompleted]
    exact ⟨ts, rfl, rfl, rfl⟩

/-- A run that is over after its first instruction is accounted for: it completes that one,
    `[(i, next)]`. -/
theorem accounted_last {outcome : Status} (hstep : exec (step handler) s = (.ok (i, next), t))
    (hturn : conclude next ((Meter.slice ts).charge i.opcode.cost) (t.tick i.opcode.cost)
      = .inl ⟨.ok outcome, .slice (ts.charge i.opcode.cost).2, t.tick i.opcode.cost⟩)
    (haccount : Account ts.remaining.toNat [(i, next)] (.ok outcome)) :
    Accounted handler (fuel + 1) ts s
      ⟨.ok outcome, .slice (ts.charge i.opcode.cost).2, t.tick i.opcode.cost⟩ := by
  -- The run is one turn long, and so are its visits and what it has completed.
  have hturn' : (advance handler (.slice ts, s)).value
      = .inl ⟨.ok outcome, .slice (ts.charge i.opcode.cost).2, t.tick i.opcode.cost⟩ := by
    rw [value_advance, hstep]
    exact hturn
  have hvisits : visits handler (fuel + 1) (.slice ts, s) = [s] := by
    rw [visits, hturn']
  have hcompleted : completed handler (fuel + 1) (.slice ts, s) = [(i, next)] := by
    rw [completed, hvisits, List.filterMap_cons, hstep]
    rfl
  refine ⟨?_, ?_, ?_, ?_, ?_⟩
  · rw [run, Logged.value_loop_succ, hturn']
  · rwa [hcompleted]
  · rw [hcompleted, hvisits]
    rfl
  · rw [hcompleted, costOf_singleton, UInt64.ofNat_toNat, ← clock_step hclock hstep]
    rfl
  · rw [hcompleted, costOf_singleton, ← ts.remaining_charge]
    exact ⟨_, rfl, rfl, rfl⟩

/-- A run that goes on after its first instruction is accounted for if the rest of it is, with what
    the charge has left of `ts`. -/
theorem Accounted.proceed (hstep : exec (step handler) s = (.ok (i, .proceed), t))
    (hcost : i.opcode.cost.toNat < ts.remaining.toNat)
    (h : Accounted handler fuel (ts.charge i.opcode.cost).2 (t.tick i.opcode.cost) e) :
    Accounted handler (fuel + 1) ts s e := by
  have hverdict : (ts.charge i.opcode.cost).1 = .proceed := by
    rw [ts.verdict_charge, if_neg (Nat.not_le.mpr hcost)]
  have hturn : (advance handler (.slice ts, s)).value
      = .inr (.slice (ts.charge i.opcode.cost).2, t.tick i.opcode.cost) := by
    rw [value_advance, hstep]
    simp only [conclude, Meter.charge, hverdict]
  have hvisits : Machine.visits handler (fuel + 1) (.slice ts, s)
      = s :: Machine.visits handler fuel (.slice (ts.charge i.opcode.cost).2, t.tick i.opcode.cost) := by
    rw [Machine.visits, hturn]
  have hcompleted : completed handler (fuel + 1) (.slice ts, s) = (i, .proceed) ::
      completed handler fuel (.slice (ts.charge i.opcode.cost).2, t.tick i.opcode.cost) := by
    rw [completed, hvisits, List.filterMap_cons, hstep]
    rfl
  -- What is left after the charge is what was left before, less the cost.
  have haccount := h.account
  obtain ⟨ts', hmeter, hbudget, hleft⟩ := h.meter
  rw [ts.remaining_charge] at haccount hleft
  refine ⟨?_, ?_, ?_, ?_, ts', hmeter, hbudget, ?_⟩
  · rw [run, Logged.value_loop_succ, hturn]
    exact h.ends
  · rw [hcompleted]
    exact .proceed hcost haccount
  · rw [hvisits, hcompleted, List.length_cons, h.visits]
    cases e.outcome <;> rfl
  · rw [hcompleted, costOf_cons, h.clock, UInt64.ofNat_add, UInt64.ofNat_toNat, ← UInt64.add_assoc,
      ← clock_step hclock hstep]
    rfl
  · rw [hcompleted, costOf_cons, hleft]
    omega

/-- **Every run within a time slice has an account**, if it may take as many turns as the time slice
    allows at most: `ts.remaining ≤ 2 * fuel`. -/
theorem run_account (hpos : 0 < ts.remaining.toNat) (hfuel : ts.remaining.toNat ≤ 2 * fuel)
    (s : Machine τ) : ∃ e, Accounted handler fuel ts s e := by
  -- Turn by turn.  Each costs two units at least, so that the fuel lasts.
  induction fuel generalizing ts s with
  | zero => omega
  | succ fuel ih =>
    rcases hstep : exec (step handler) s with ⟨fault | ⟨i, next⟩, t⟩
    · exact ⟨_, accounted_failed hclock hpos hstep⟩
    · cases next with
      | halt => exact ⟨_, accounted_last hclock hstep rfl (.halted i hpos)⟩
      | block status => exact ⟨_, accounted_last hclock hstep rfl (.blocked i status hpos)⟩
      | proceed =>
        -- The program would go on, and its meter decides.
        by_cases hcost : i.opcode.cost.toNat < ts.remaining.toNat
        · have htwo : 2 ≤ i.opcode.cost.toNat := UInt64.le_iff_toNat_le.mp i.opcode.two_le_cost
          have hleft := ts.remaining_charge i.opcode.cost
          obtain ⟨e, he⟩ : ∃ e, Accounted handler fuel (ts.charge i.opcode.cost).2
              (t.tick i.opcode.cost) e := ih (by omega) (by omega) _
          exact ⟨e, he.proceed hclock hstep hcost⟩
        · have hverdict : (ts.charge i.opcode.cost).1 = .stop := by
            rw [ts.verdict_charge, if_pos (Nat.not_lt.mp hcost)]
          refine ⟨_, accounted_last hclock hstep ?_ (.expired i hpos (Nat.not_lt.mp hcost))⟩
          simp only [conclude, Meter.charge, hverdict]

end Turn

/-! ### Time slices -/

/-- The instructions that a time slice completes. -/
def sliceCompleted (handler : TrapHandler τ) (budget : UInt64) (s : Machine τ) :
    List (Instruction × Step) := completed handler (sliceFuel budget) (.slice (.fresh budget), s)

/-- What the instructions cost together that a time slice of `budget` completes. -/
def sliceCost (handler : TrapHandler τ) (budget : UInt64) (s : Machine τ) : Nat :=
  costOf (sliceCompleted handler budget s)

/-- All that the account of a time slice says, in terms of its `budget`, of the cost of the
    instructions that it completes, and of the cost of the last of them. -/
structure Metered (handler : TrapHandler τ) (budget : UInt64) (s : Machine τ) : Prop where
  /-- The run ends by itself, with any number of turns to spare from half of the budget on. -/
  terminates : ∀ fuel, (budget.toNat + 1) / 2 ≤ fuel →
    (run handler fuel (.slice (.fresh budget)) s).value = .inl (runSlice handler budget s).value
  /-- It takes on no more instructions than that, the one that fails included. -/
  instructions : (sliceVisits handler budget s).length ≤ (budget.toNat + 1) / 2
  clock : (runSlice handler budget s).value.machine.cpu.registers.clock
    = s.cpu.registers.clock + UInt64.ofNat (sliceCost handler budget s)
  failed : ∀ fault, (runSlice handler budget s).value.outcome = .error fault →
    sliceCost handler budget s < budget.toNat
  /-- A program that halts or waits has not used up the budget before its last instruction. -/
  left : ∀ status, (runSlice handler budget s).value.outcome = .ok status →
    status ≠ .timeSliceExpired → ∃ front i next,
      sliceCompleted handler budget s = front ++ [(i, next)]
        ∧ sliceCost handler budget s - i.opcode.cost.toNat < budget.toNat
        ∧ (next = .halt ∧ status = .halted ∨ next = .block status
          ∧ (status = .waitingForInput ∨ status = .waitingForOutput))
  /-- The time is up exactly if the last instruction uses up the budget and the program would go on. -/
  expired : (runSlice handler budget s).value.outcome = .ok .timeSliceExpired ↔ ∃ front i,
    sliceCompleted handler budget s = front ++ [(i, .proceed)]
      ∧ budget.toNat ≤ sliceCost handler budget s
      ∧ sliceCost handler budget s - i.opcode.cost.toNat < budget.toNat
  overrun : sliceCost handler budget s ≤ budget.toNat + 11
  meter : ∃ ts, (runSlice handler budget s).value.meter = .slice ts
    ∧ ts.consumed.toNat = min budget.toNat (sliceCost handler budget s)
    ∧ ts.remaining.toNat = budget.toNat - min budget.toNat (sliceCost handler budget s)

/-- A trap handler that leaves the clock alone, and lets programs wait for input or output only. -/
structure Orderly (handler : TrapHandler τ) : Prop where
  clock : ∀ time number, Keeps (·.registers.clock = time) (handler number)
  waits : ∀ number, Returns (fun o => ∀ status, o = .block status →
    status = .waitingForInput ∨ status = .waitingForOutput) (handler number)

/-- The services of the kernel are `Orderly`. -/
theorem orderly_handler (r : Record) : Orderly (Service.handler r) :=
  ⟨fun _ number => Service.keeps_clock_handler r number, Service.returns_handler r⟩

/-- So is a handler that does nothing. -/
theorem orderly_accepting : Orderly (TrapHandler.accepting : TrapHandler τ) where
  clock _ _ _ h := h
  waits _ := .after fun _ => returns_pure fun _ h => absurd h (by simp)

/-- A program that waits after an instruction, `.block status`, waits for input or output: only the
    handler can let it wait. -/
theorem Orderly.waits_of_completed (h : Orderly handler) {fuel : Nat} {x : Meter × Machine τ}
    {front : List (Instruction × Step)} {i : Instruction} {status : Status}
    (hlast : completed handler fuel x = front ++ [(i, .block status)]) :
    status = .waitingForInput ∨ status = .waitingForOutput := by
  have hmem : (i, .block status) ∈ completed handler fuel x := by
    rw [hlast]
    exact List.mem_append_right _ List.mem_cons_self
  obtain ⟨m, -, hm⟩ := List.mem_filterMap.mp hmem
  rcases hstep : exec (step handler) m with ⟨fault | y, t⟩ <;> rw [hstep] at hm
  · exact absurd hm (by simp [Except.toOption])
  · obtain rfl := Option.some.inj hm
    exact returns_step h.waits m _ t hstep status rfl

/-- A time slice has an account, and ends after any number of turns from half of the budget on:
    `(budget.toNat + 1) / 2 ≤ fuel`. -/
theorem Orderly.accounted (h : Orderly handler) {budget : UInt64} (hbudget : 1 ≤ budget.toNat)
    (s : Machine τ) {fuel : Nat} (hfuel : (budget.toNat + 1) / 2 ≤ fuel) :
    Accounted handler fuel (.fresh budget) s (runSlice handler budget s).value := by
  have hpos : 0 < (TimeSlice.fresh budget).remaining.toNat := hbudget
  have hrun : ∀ {fuel}, (budget.toNat + 1) / 2 ≤ fuel →
      ∃ e, Accounted handler fuel (.fresh budget) s e := fun {fuel} hle =>
    run_account h.clock hpos (show budget.toNat ≤ 2 * fuel by omega) s
  -- More turns make no difference, and the time slice has as many as are needed.
  obtain ⟨e, he⟩ := hrun (Nat.le_refl _)
  have hslice : (runSlice handler budget s).value = e := by
    rw [value_runSlice, run, Logged.loop_mono he.ends (by unfold sliceFuel; omega)]
  obtain ⟨e', he'⟩ := hrun hfuel
  have hmore := Logged.loop_mono he.ends hfuel
  obtain rfl : e' = e := Sum.inl.inj (he'.ends.symm.trans hmore)
  rwa [hslice]

/-- **A time slice is metered**, with every trap handler that is `Orderly`. -/
theorem Orderly.metered (h : Orderly handler) {budget : UInt64} (hbudget : 1 ≤ budget.toNat)
    (s : Machine τ) : Metered handler budget s := by
  have hslice : Accounted handler (sliceFuel budget) (.fresh budget) s _ :=
    h.accounted hbudget s (by unfold sliceFuel; omega)
  obtain ⟨ts, hmeter, htotal, hremaining⟩ := hslice.meter
  have haccount := hslice.account
  have hcost : costOf (completed handler (sliceFuel budget) (.slice (.fresh budget), s))
      = sliceCost handler budget s := rfl
  -- Something is left before the last instruction, so that a time slice overruns by less than its cost.
  have hlast : ∀ status, (runSlice handler budget s).value.outcome = .ok status →
      ∃ front i next, sliceCompleted handler budget s = front ++ [(i, next)]
        ∧ sliceCost handler budget s - i.opcode.cost.toNat < budget.toNat
        ∧ sliceCost handler budget s ≤ budget.toNat + 11
        ∧ Closes budget.toNat (sliceCost handler budget s) next (.ok status) := by
    intro status hstatus
    obtain ⟨front, i, next, heq, hfront, hcloses⟩ := (hstatus ▸ haccount).last
    have htwelve := i.cost_le
    have hsum : sliceCost handler budget s = costOf front + i.opcode.cost.toNat := by
      rw [← hcost, heq, costOf_append, costOf_singleton]
    have hfront' : costOf front < budget.toNat := hfront
    exact ⟨front, i, next, heq, by omega, by omega, hcloses⟩
  have hfailed : ∀ fault, (runSlice handler budget s).value.outcome = .error fault →
      sliceCost handler budget s < budget.toNat := fun fault hfault =>
    (hfault ▸ haccount).failed_cost
  -- The parts of `Metered` in order; the outcome decides which instruction was the last.
  refine ⟨fun fuel hfuel => (h.accounted hbudget s hfuel).ends, ?_, hslice.clock, hfailed, ?_, ?_, ?_, ?_⟩
  · have hattempts := haccount.attempts_le
    rw [← hslice.visits] at hattempts
    have hattempts' : 2 * (sliceVisits handler budget s).length ≤ budget.toNat + 1 := hattempts
    omega
  · intro status hstatus hne
    obtain ⟨front, i, next, heq, hleft, -, hcloses⟩ := hlast status hstatus
    refine ⟨front, i, next, heq, hleft, ?_⟩
    cases hcloses with
    | halted => exact .inl ⟨rfl, rfl⟩
    | blocked status => exact .inr ⟨rfl, h.waits_of_completed heq⟩
    | expired hle => exact absurd rfl hne
  · constructor
    · intro hstatus
      obtain ⟨front, i, next, heq, hleft, -, hcloses⟩ := hlast _ hstatus
      cases hcloses with
      | blocked =>
        exact absurd (h.waits_of_completed heq) (by simp)
      | expired hle => exact ⟨front, i, heq, hle, hleft⟩
    · rintro ⟨front, i, heq, hle, -⟩
      cases houtcome : (runSlice handler budget s).value.outcome with
      | error fault => exact absurd (hfailed fault houtcome) (Nat.not_lt.mpr hle)
      | ok status =>
        obtain ⟨front', i', next, heq', -, -, hcloses⟩ := hlast status houtcome
        obtain ⟨-, hsame⟩ := List.append_inj' (heq.symm.trans heq') rfl
        obtain ⟨-, rfl⟩ := Prod.mk.inj (List.cons.inj hsame).1
        cases hcloses
        rfl
  · cases houtcome : (runSlice handler budget s).value.outcome with
    | error fault =>
      have hlt := hfailed fault houtcome
      omega
    | ok status =>
      obtain ⟨-, -, -, -, -, hover, -⟩ := hlast status houtcome
      exact hover
  · have hall : ts.remaining.toNat = budget.toNat - sliceCost handler budget s := hremaining
    have hle : ts.remaining ≤ ts.budget := by
      rw [htotal, UInt64.le_iff_toNat_le]
      show ts.remaining.toNat ≤ budget.toNat
      omega
    refine ⟨ts, hmeter, ?_, by omega⟩
    rw [TimeSlice.consumed, UInt64.toNat_sub_of_le _ _ hle, htotal]
    show budget.toNat - ts.remaining.toNat = _
    omega

/-- **Every time slice is metered.**  This holds of any processor, memory and `budget` of at least
    1, for the services of the kernel as well as for a handler that does nothing. -/
theorem runSlice_metered {budget : UInt64} (hbudget : 1 ≤ budget) :
    (∀ (r : Record) (s : Machine Pool), Metered (Service.handler r) budget s)
      ∧ ∀ {τ : Type} (s : Machine τ), Metered TrapHandler.accepting budget s := by
  have hpos : 1 ≤ budget.toNat := UInt64.le_iff_toNat_le.mp hbudget
  exact ⟨fun r s => (orderly_handler r).metered hpos s, fun s => orderly_accepting.metered hpos s⟩

/-- A program asks about itself within a budget of one unit, which is the largest overrun. -/
theorem runSlice_metered_overrun :
    let s : Machine Pool := ⟨{}, (Memory.zero.write ⟨0, by decide⟩ 126000).write ⟨1, by decide⟩ 3,
      Pool.empty .user ⟨2500, 4499⟩⟩
    let handler := Service.handler ⟨⟨4500, by decide⟩⟩
    (1 : UInt64) ≤ 1 ∧ sliceCost handler 1 s = 12
      ∧ (runSlice handler 1 s).value.outcome = .ok .timeSliceExpired
      ∧ (runSlice handler 1 s).value.machine.cpu.registers.clock = 12
      ∧ ∃ ts, (runSlice handler 1 s).value.meter = .slice ts ∧ ts.consumed.toNat = 1
        ∧ ts.remaining.toNat = 0 := by
  intro s handler
  have hmetered : Metered handler 1 s := (runSlice_metered (by decide)).1 _ s
  have hlast : sliceCompleted handler 1 s
      = [] ++ [(⟨.systemCall, ⟨.immediate, 0⟩, ⟨.unused, 0⟩⟩, .proceed)] := by decide +kernel
  have hcost : sliceCost handler 1 s = 12 := by
    rw [sliceCost, hlast]
    rfl
  have hclock := hmetered.clock
  obtain ⟨ts, hmeter, hconsumed, hremaining⟩ := hmetered.meter
  rw [hcost] at hclock hconsumed hremaining
  refine ⟨by decide, hcost, hmetered.expired.mpr ⟨[], _, hlast, ?_, ?_⟩, hclock, ts, hmeter, hconsumed,
    hremaining⟩
  · rw [hcost]
    decide
  · rw [hcost]
    decide

end Machine

end Timeshare
