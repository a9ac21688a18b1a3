import Timeshare.Proofs.Machine.Run

namespace Timeshare

/-!
# Time slices

A time slice is a budget that every instruction takes its cost from.  As no instruction is free, the
budget is used up at some point, and the run ends by itself.

* `Instruction.totalCost is` — what instructions cost together; each costs two units at least.
* `TimeSlice.Spent b is s` — the time slice `s` is what instructions that the program goes on from leave
  of the budget `b`.
* `Machine.SpentAfter`, `Machine.run_spent` — while a run goes on, its meter says what it has cost.
* `Machine.run_eq_inl` — a run within a time slice ends by itself: however many turns it may take, it
  ends as `Machine.runSlice` says.
-/

namespace Instruction

/-- What instructions cost together. -/
def totalCost : List Instruction → Nat
  | [] => 0
  | i :: is => i.opcode.cost.toNat + totalCost is

/-- What instructions cost together adds up. -/
theorem totalCost_append (is js : List Instruction) :
    totalCost (is ++ js) = totalCost is + totalCost js := by
  induction is with
  | nil => exact (Nat.zero_add _).symm
  | cons i is ih => rw [List.cons_append, totalCost, totalCost, ih, Nat.add_assoc]

/-- Every instruction costs two units at least: `2 * is.length ≤ totalCost is`. -/
theorem two_mul_length_le_totalCost (is : List Instruction) : 2 * is.length ≤ totalCost is := by
  induction is with
  | nil => exact Nat.le_refl 0
  | cons i is ih =>
    have hi : 2 ≤ i.opcode.cost.toNat := UInt64.le_iff_toNat_le.mp (Opcode.two_le_cost i.opcode)
    rw [totalCost, List.length_cons]
    omega

end Instruction

namespace TimeSlice

variable {b : UInt64} {is : List Instruction} {s t : TimeSlice}

/-- A time slice after instructions that the program goes on from: their cost is taken off its budget,
    and something is left of it. -/
structure Spent (b : UInt64) (is : List Instruction) (s : TimeSlice) : Prop where
  budget : s.budget = b
  remaining : s.remaining.toNat + Instruction.totalCost is = b.toNat
  pos : is ≠ [] → 0 < s.remaining.toNat

theorem spent_fresh (b : UInt64) : Spent b [] (fresh b) :=
  ⟨rfl, rfl, fun h => absurd rfl h⟩

/-- A run goes on after an instruction of cost `c` iff `c` is less than what remains; then `c` is
    taken off. -/
theorem charge_eq_proceed_iff {c : UInt64} :
    s.charge c = (.proceed, t) ↔
      c.toNat < s.remaining.toNat ∧ t.budget = s.budget
        ∧ t.remaining.toNat + c.toNat = s.remaining.toNat := by
  obtain ⟨b₁, r⟩ := s
  obtain ⟨b₂, r'⟩ := t
  -- The verdict is to stop if the whole rest is used up, exactly or with more.
  by_cases hle : r ≤ c
  · have hle' : ¬ c.toNat < r.toNat := Nat.not_lt.mpr (UInt64.le_iff_toNat_le.mp hle)
    simp [charge, hle, hle']
  · have hlt : c.toNat < r.toNat := Nat.not_le.mp fun h => hle (UInt64.le_iff_toNat_le.mpr h)
    have hsub : (r - c).toNat = r.toNat - c.toNat :=
      UInt64.toNat_sub_of_le _ _ (UInt64.le_iff_toNat_le.mpr (Nat.le_of_lt hlt))
    have hne : r - c ≠ 0 := fun h => by
      have hzero := congrArg UInt64.toNat h
      rw [hsub, UInt64.toNat_zero] at hzero
      omega
    have hr : r - c = r' ↔ r'.toNat + c.toNat = r.toNat := by
      rw [← UInt64.toNat_inj, hsub]
      omega
    simp [charge, hle, hne, hlt, hr, eq_comm]

/-- After one more instruction `i` that the program goes on from, `is ++ [i]` is spent. -/
theorem Spent.charge (h : Spent b is s) {i : Instruction}
    (hcharge : s.charge i.opcode.cost = (.proceed, t)) : Spent b (is ++ [i]) t := by
  obtain ⟨hlt, hbudget, hleft⟩ := charge_eq_proceed_iff.mp hcharge
  have hcost := Instruction.totalCost_append is [i]
  have hone : Instruction.totalCost [i] = i.opcode.cost.toNat := Nat.add_zero _
  have hspent := h.remaining
  exact ⟨hbudget.trans h.budget, by omega, fun _ => by omega⟩

/-- Instructions that leave something of a time slice are fewer than its turns:
    `is.length < Machine.sliceFuel b`. -/
theorem Spent.length_lt (h : Spent b is s) : is.length < Machine.sliceFuel b := by
  have hcost := Instruction.two_mul_length_le_totalCost is
  have hspent := h.remaining
  unfold Machine.sliceFuel
  omega

end TimeSlice

namespace Machine

open Timeshare.Action

variable {τ : Type} {handler : TrapHandler τ} {s : Machine τ}

/-- A run within a time slice after a number of instructions: its meter says what they have cost. -/
def SpentAfter (handler : TrapHandler τ) (budget : UInt64) (s : Machine τ) (n : Nat)
    (x : Meter × Machine τ) : Prop :=
  ∃ is slice, is.length = n ∧ x.1 = .slice slice ∧ slice.Spent budget is ∧ Steps handler s is x.2

/-- One more turn that goes on is one more instruction, and paid for. -/
theorem SpentAfter.advance {budget : UInt64} {n : Nat} {x y : Meter × Machine τ}
    (h : SpentAfter handler budget s n x) (hturn : (Machine.advance handler x).value = .inr y) :
    SpentAfter handler budget s (n + 1) y := by
  obtain ⟨_, t⟩ := x
  obtain ⟨is, slice, hlen, rfl, hspent, ht⟩ := h
  rw [value_advance] at hturn
  split at hturn
  · exact absurd hturn (by simp)
  · rename_i i next u hu
    obtain ⟨rfl, hcharge, hmachine⟩ := conclude_inr hturn
    -- The verdict on the instruction is that of the time slice.
    obtain ⟨hverdict, hmeter⟩ := Prod.mk.inj hcharge
    exact ⟨is ++ [i], _, by rw [List.length_append, hlen]; rfl, hmeter.symm,
      hspent.charge (Prod.ext hverdict rfl), hmachine ▸ ht.step hu⟩

/-- While a run goes on, its meter says what its `fuel` instructions have cost. -/
theorem run_spent (handler : TrapHandler τ) (budget : UInt64) (s : Machine τ) (fuel : Nat)
    {r : Meter × Machine τ} (h : (run handler fuel (.slice (.fresh budget)) s).value = .inr r) :
    SpentAfter handler budget s fuel r := by
  have hinv := (Logged.loop_invariant (SpentAfter handler budget s)
    (fun _ _ _ hx hturn => hx.advance hturn) fuel (n := 0)
    ⟨[], _, rfl, rfl, TimeSlice.spent_fresh budget, .refl⟩).2 r h
  rwa [Nat.zero_add] at hinv

/-- **A time slice comes to an end by itself.**  With `sliceFuel budget` turns or more to spare, the
    run ends as `runSlice` does. -/
theorem run_eq_inl (handler : TrapHandler τ) (budget : UInt64) (s : Machine τ) {fuel : Nat}
    (hfuel : sliceFuel budget ≤ fuel) :
    (run handler fuel (.slice (.fresh budget)) s).value = .inl (runSlice handler budget s).value := by
  refine Logged.loop_mono ?_ hfuel
  rw [value_runSlice]
  cases hend : (run handler (sliceFuel budget) (.slice (.fresh budget)) s).value with
  | inl e => exact hend
  | inr r =>
    obtain ⟨is, slice, hlen, -, hspent, -⟩ := run_spent handler budget s _ hend
    exact absurd hlen (Nat.ne_of_lt hspent.length_lt)

end Machine

end Timeshare
