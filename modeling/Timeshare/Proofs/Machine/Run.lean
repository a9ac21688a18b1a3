import Timeshare.Proofs.Machine.TwoRuns

namespace Timeshare

/-!
# Runs

A run takes steps until one of them ends it or its meter stops it.

* `Machine.value_advance` — one turn of a run, without its notices.
* `Machine.Steps handler s is t` — from the machine `s`, the instructions `is` lead to `t`, and the
  program goes on after each of them.  These are the machines that a run goes through.
* `Machine.Finishes handler s outcome t` — the next step of the machine `s` ends the run.
* `Machine.run_steps`, `Machine.runSlice_steps` — a run ends with such a step, or because the time is
  up.
* `Machine.Steps.invariant` — what steps preserve, runs preserve.
* `Machine.Steps.cut` — a run that comes to an end may be cut anywhere.
* `Machine.runSlice_alike` — two machines that take their steps alike take their runs alike.
-/

namespace Machine

open Timeshare.Action

variable {τ : Type} {handler handler' : TrapHandler τ} {s t u : Machine τ}

/-! ### One turn of a run -/

/-- Whether a run goes on after an instruction that was charged for. -/
def conclude (next : Step) (charged : Verdict × Meter) (t : Machine τ) :
    Ended τ ⊕ (Meter × Machine τ) :=
  match next, charged.1 with
  | .halt, _ => .inl ⟨.ok .halted, charged.2, t⟩
  | .block status, _ => .inl ⟨.ok status, charged.2, t⟩
  | .proceed, .proceed => .inr (charged.2, t)
  | .proceed, .stop => .inl ⟨.ok .timeSliceExpired, charged.2, t⟩

/-- One turn of a run: a fault ends it, and otherwise the instruction is charged for and `conclude`
    says whether the run goes on. -/
theorem value_advance (meter : Meter) (s : Machine τ) :
    (advance handler (meter, s)).value =
      match exec (step handler) s with
      | (.error fault, t) => .inl ⟨.error fault, meter, t⟩
      | (.ok (i, next), t) =>
        conclude next (meter.charge i.opcode.cost) (t.tick i.opcode.cost) := by
  simp only [advance, exec, Logged.value_bind]
  rcases ((ExceptT.run (step handler)).run s).value with ⟨fault | ⟨i, next⟩, t⟩
  · rfl
  · rcases hcharge : meter.charge i.opcode.cost with ⟨verdict, meter'⟩
    cases next <;> cases verdict <;> simp only [hcharge, conclude] <;> rfl

/-! ### The machines that a run goes through -/

/-- From a machine, instructions lead to another, and the program goes on after each of them. -/
inductive Steps (handler : TrapHandler τ) (s : Machine τ) : List Instruction → Machine τ → Prop where
  | refl : Steps handler s [] s
  | step {is : List Instruction} {t u : Machine τ} {i : Instruction} (h : Steps handler s is t)
    (hstep : exec (step handler) t = (.ok (i, .proceed), u)) :
    Steps handler s (is ++ [i]) (u.tick i.opcode.cost)

/-- If a step and the clock keep `P`, then `P` holds of all machines that a run from `s` goes
    through. -/
theorem Steps.invariant {P : Machine τ → Prop}
    (hstep : ∀ t, P t → P (exec (Machine.step handler) t).2)
    (htick : ∀ t cost, P t → P (t.tick cost)) {is : List Instruction}
    (h : Steps handler s is t) (hs : P s) : P t := by
  induction h with
  | refl => exact hs
  | step _ hu ih =>
    have hP := hstep _ ih
    rw [hu] at hP
    exact htick _ _ hP

/-- The next step of a machine ends the run of its program, with an outcome, and leaves another
    machine. -/
inductive Finishes (handler : TrapHandler τ) (s : Machine τ) : Except Fault Status → Machine τ → Prop where
  | failed {fault : Fault} {t : Machine τ} (h : exec (step handler) s = (.error fault, t)) :
    Finishes handler s (.error fault) t
  | halted {i : Instruction} {t : Machine τ} (h : exec (step handler) s = (.ok (i, .halt), t)) :
    Finishes handler s (.ok .halted) (t.tick i.opcode.cost)
  | blocked {i : Instruction} {status : Status} {t : Machine τ}
    (h : exec (step handler) s = (.ok (i, .block status), t)) :
    Finishes handler s (.ok status) (t.tick i.opcode.cost)

/-- If a step and the clock keep `P`, then `P` holds after the step that ends a run. -/
theorem Finishes.invariant {P : Machine τ → Prop}
    (hstep : ∀ t, P t → P (exec (Machine.step handler) t).2)
    (htick : ∀ t cost, P t → P (t.tick cost)) {outcome : Except Fault Status}
    (h : Finishes handler s outcome t) (hs : P s) : P t := by
  have hP := hstep s hs
  cases h with
  | failed h => rwa [h] at hP
  | halted h =>
    rw [h] at hP
    exact htick _ _ hP
  | blocked h =>
    rw [h] at hP
    exact htick _ _ hP

/-- A run ends because its last step `Finishes` it, or because its meter says so after a step. -/
theorem conclude_inl {i : Instruction} {next : Step} {charged : Verdict × Meter} {e : Ended τ}
    (hu : exec (step handler) t = (.ok (i, next), u))
    (h : conclude next charged (u.tick i.opcode.cost) = .inl e) :
    Finishes handler t e.outcome e.machine ∨
      (next = .proceed ∧ e.outcome = .ok .timeSliceExpired ∧ e.machine = u.tick i.opcode.cost) := by
  unfold conclude at h
  split at h <;> cases h
  · exact .inl (.halted hu)
  · exact .inl (.blocked hu)
  · exact .inr ⟨rfl, rfl, rfl⟩

/-- A run goes on only if both its program and its meter do: `next` and the verdict are
    `.proceed`. -/
theorem conclude_inr {next : Step} {charged : Verdict × Meter} {r : Meter × Machine τ}
    (h : conclude next charged t = .inr r) :
    next = .proceed ∧ charged = (.proceed, r.1) ∧ r.2 = t := by
  unfold conclude at h
  split at h <;> cases h
  rename_i hverdict
  exact ⟨rfl, Prod.ext hverdict rfl, rfl⟩

/-- A run that has ended, as its steps tell it: the last of them ends the program, or the time is up
    after one of them at least. -/
def EndsBySteps (handler : TrapHandler τ) (s : Machine τ) (e : Ended τ) : Prop :=
  (∃ is t, Steps handler s is t ∧ Finishes handler t e.outcome e.machine) ∨
    ∃ is, is ≠ [] ∧ Steps handler s is e.machine ∧ e.outcome = .ok .timeSliceExpired

/-- The turns of a run are steps: a run that has ended is told by `EndsBySteps`, and one that has
    not has made `fuel` steps. -/
theorem run_steps (handler : TrapHandler τ) (fuel : Nat) (meter : Meter) (s : Machine τ) :
    (∀ e, (run handler fuel meter s).value = .inl e → EndsBySteps handler s e)
      ∧ ∀ r, (run handler fuel meter s).value = .inr r →
        ∃ is, is.length = fuel ∧ Steps handler s is r.2 := by
  -- A turn that goes on is one more step; the meter does not matter.
  have hturn : ∀ (n : Nat) (x y : Meter × Machine τ),
      (∃ is, is.length = n ∧ Steps handler s is x.2) → (advance handler x).value = .inr y →
        ∃ is, is.length = n + 1 ∧ Steps handler s is y.2 := by
    rintro n ⟨meter', t⟩ y ⟨is, hlen, ht⟩ hturn
    rw [value_advance] at hturn
    split at hturn
    · exact absurd hturn (by simp)
    · rename_i i next u hu
      obtain ⟨rfl, -, hmachine⟩ := conclude_inr hturn
      exact ⟨is ++ [i], by rw [List.length_append, hlen]; rfl, hmachine ▸ ht.step hu⟩
  -- The invariant of the loop: so many turns are so many steps.
  have hinv := Logged.loop_invariant (fun n x => ∃ is, is.length = n ∧ Steps handler s is x.2) hturn
    fuel (n := 0) (s := (meter, s)) ⟨[], rfl, .refl⟩
  rw [Nat.zero_add] at hinv
  refine ⟨fun e he => ?_, hinv.2⟩
  obtain ⟨-, ⟨meter', t⟩, ⟨is, -, ht⟩, hlast⟩ := hinv.1 e he
  rw [value_advance] at hlast
  split at hlast
  · rename_i fault u hu
    obtain rfl := Sum.inl.inj hlast
    exact .inl ⟨is, t, ht, .failed hu⟩
  · rename_i i next u hu
    rcases conclude_inl hu hlast with hfinish | ⟨rfl, hexpired, hmachine⟩
    · exact .inl ⟨is, t, ht, hfinish⟩
    · exact .inr ⟨is ++ [i], by simp, hmachine ▸ ht.step hu, hexpired⟩

/-- A time slice is a run of `sliceFuel budget` turns, and ends with `timeSliceExpired` if they are
    all used up. -/
theorem value_runSlice (budget : UInt64) (s : Machine τ) :
    (runSlice handler budget s).value =
      match (run handler (sliceFuel budget) (.slice (.fresh budget)) s).value with
      | .inl ended => ended
      | .inr (meter, machine) => ⟨.ok .timeSliceExpired, meter, machine⟩ := by
  rw [runSlice, Logged.value_bind]
  rcases (run handler (sliceFuel budget) (.slice (.fresh budget)) s).value with e | ⟨m, t⟩ <;> rfl

/-- **A time slice is steps**, the last of which ends the program or uses up the time:
    `EndsBySteps`. -/
theorem runSlice_steps (handler : TrapHandler τ) (budget : UInt64) (s : Machine τ) :
    EndsBySteps handler s (runSlice handler budget s).value := by
  rw [value_runSlice]
  obtain ⟨hend, hgo⟩ := run_steps handler (sliceFuel budget) (.slice (.fresh budget)) s
  split
  · rename_i e he
    exact hend e he
  · rename_i meter t ht
    obtain ⟨is, hlen, hsteps⟩ := hgo _ ht
    refine .inr ⟨is, ?_, hsteps, rfl⟩
    rintro rfl
    exact absurd hlen (by simp [sliceFuel])

/-- If a step and the clock keep `P`, then a time slice does. -/
theorem runSlice_invariant {P : Machine τ → Prop}
    (hstep : ∀ t, P t → P (exec (step handler) t).2)
    (htick : ∀ t cost, P t → P (t.tick cost)) (budget : UInt64) (hs : P s) :
    P (runSlice handler budget s).value.machine := by
  rcases runSlice_steps handler budget s with ⟨is, t, hsteps, hfinish⟩ | ⟨is, -, hsteps, -⟩
  · exact hfinish.invariant hstep htick (hsteps.invariant hstep htick hs)
  · exact hsteps.invariant hstep htick hs

/-! ### Runs that are cut -/

/-- Steps `js` from `t` on go on from where the steps `is` have ended. -/
theorem Steps.trans {is js : List Instruction} (h : Steps handler s is t)
    (h' : Steps handler t js u) : Steps handler s (is ++ js) u := by
  induction h' with
  | refl => rwa [List.append_nil]
  | step _ hstep ih =>
    rw [← List.append_assoc]
    exact ih.step hstep

/-- Steps are none at all, or a first one and the others: `is = i :: js`. -/
theorem Steps.uncons {is : List Instruction} (h : Steps handler s is u) :
    (is = [] ∧ u = s) ∨ ∃ i js t, is = i :: js ∧ exec (Machine.step handler) s = (.ok (i, .proceed), t)
      ∧ Steps handler (t.tick i.opcode.cost) js u := by
  induction h with
  | refl => exact .inl ⟨rfl, rfl⟩
  | @step is t u i _ hstep ih =>
    rcases ih with ⟨rfl, rfl⟩ | ⟨j, js, v, rfl, hfirst, hrest⟩
    · exact .inr ⟨i, [], u, rfl, hstep, .refl⟩
    · exact .inr ⟨j, js ++ [i], v, rfl, hfirst, hrest.step hstep⟩

/-- No program goes on after the step that ends its run. -/
theorem Finishes.not_proceed {outcome : Except Fault Status} {i : Instruction}
    (h : Finishes handler s outcome t) (hstep : exec (step handler) s = (.ok (i, .proceed), u)) :
    False := by
  cases h with
  | failed h => simp [h] at hstep
  | halted h => simp [h] at hstep
  | blocked h => simp [h] at hstep

/-- The last step tells how the run ends: `outcome' = outcome` and `u = t`. -/
theorem Finishes.unique {outcome outcome' : Except Fault Status}
    (h : Finishes handler s outcome t) (h' : Finishes handler s outcome' u) :
    outcome' = outcome ∧ u = t := by
  cases h with
  | failed h => cases h' with
    | failed h' => cases h.symm.trans h'; exact ⟨rfl, rfl⟩
    | halted h' => cases h.symm.trans h'
    | blocked h' => cases h.symm.trans h'
  | halted h => cases h' with
    | failed h' => cases h.symm.trans h'
    | halted h' => cases h.symm.trans h'; exact ⟨rfl, rfl⟩
    | blocked h' => cases h.symm.trans h'
  | blocked h => cases h' with
    | failed h' => cases h.symm.trans h'
    | halted h' => cases h.symm.trans h'
    | blocked h' => cases h.symm.trans h'; exact ⟨rfl, rfl⟩

/-- **A cut.**  Wherever a run that comes to an end is cut, the rest of it goes on from there:
    `is = js ++ ks`. -/
theorem Steps.cut {is js : List Instruction} {t' : Machine τ} {outcome : Except Fault Status}
    (h : Steps handler s is t) (hend : Finishes handler t outcome u) (h' : Steps handler s js t') :
    ∃ ks, is = js ++ ks ∧ Steps handler t' ks t := by
  induction h' with
  | refl => exact ⟨is, rfl, h⟩
  | @step js t' u' j _ hstep ih =>
    obtain ⟨ks, rfl, hks⟩ := ih
    rcases hks.uncons with ⟨rfl, rfl⟩ | ⟨i, ks, v, rfl, hfirst, hrest⟩
    · exact (hend.not_proceed hstep).elim
    · cases hfirst.symm.trans hstep
      exact ⟨ks, by simp, hrest⟩

/-! ### Two runs -/

/-- If steps from machines related by `R` are alike, then two runs go through related machines. -/
theorem Steps.alike {R : Machine τ → Machine τ → Prop}
    (hstep : ∀ s t, R s t → Alike R (Machine.step handler) (Machine.step handler') s t)
    (htick : ∀ s t cost, R s t → R (s.tick cost) (t.tick cost)) {is : List Instruction}
    {s' : Machine τ} (h : Steps handler s is t) (hs : R s s') :
    ∃ t', Steps handler' s' is t' ∧ R t t' := by
  induction h with
  | refl => exact ⟨s', .refl, hs⟩
  | @step is t u i _ hu ih =>
    obtain ⟨t', ht', hR⟩ := ih
    obtain ⟨u', hu', hR'⟩ := (hstep t t' hR).exec_eq hu
    exact ⟨_, ht'.step hu', htick _ _ _ hR'⟩

/-- If steps from machines related by `R` are alike, then the last step ends both runs with the same
    `outcome`. -/
theorem Finishes.alike {R : Machine τ → Machine τ → Prop}
    (hstep : ∀ s t, R s t → Alike R (step handler) (step handler') s t)
    (htick : ∀ s t cost, R s t → R (s.tick cost) (t.tick cost)) {outcome : Except Fault Status}
    {s' : Machine τ} (h : Finishes handler s outcome t) (hs : R s s') :
    ∃ t', Finishes handler' s' outcome t' ∧ R t t' := by
  cases h with
  | failed h =>
    obtain ⟨t', ht', hR⟩ := (hstep s s' hs).exec_eq h
    exact ⟨t', .failed ht', hR⟩
  | halted h =>
    obtain ⟨t', ht', hR⟩ := (hstep s s' hs).exec_eq h
    exact ⟨_, .halted ht', htick _ _ _ hR⟩
  | blocked h =>
    obtain ⟨t', ht', hR⟩ := (hstep s s' hs).exec_eq h
    exact ⟨_, .blocked ht', htick _ _ _ hR⟩

/-- Two runs end alike: with the same outcome and meter, and with related machines. -/
def EndedAlike (R : Machine τ → Machine τ → Prop) (e e' : Ended τ) : Prop :=
  e.outcome = e'.outcome ∧ e.meter = e'.meter ∧ R e.machine e'.machine

/-- If steps from machines that `R` relates are alike, and the clock keeps `R`, then time slices end
    alike: with the same outcome and meter, and with machines that `R` relates. -/
theorem runSlice_alike {R : Machine τ → Machine τ → Prop}
    (hstep : ∀ s t, R s t → Alike R (step handler) (step handler') s t)
    (htick : ∀ s t cost, R s t → R (s.tick cost) (t.tick cost)) (budget : UInt64) (h : R s t) :
    EndedAlike R (runSlice handler budget s).value (runSlice handler' budget t).value := by
  -- The relation of the loop: the same meter, and related machines.
  have hturn : ∀ x y : Meter × Machine τ, x.1 = y.1 ∧ R x.2 y.2 →
      Sum.LiftRel (EndedAlike R) (fun x y => x.1 = y.1 ∧ R x.2 y.2)
        (advance handler x).value (advance handler' y).value := by
    rintro ⟨meter, s⟩ ⟨_, t⟩ ⟨rfl, hst⟩
    obtain ⟨hres, hR⟩ := hstep s t hst
    rw [value_advance, value_advance]
    rcases hx : exec (step handler) s with ⟨e | ⟨i, next⟩, s'⟩ <;>
      rcases hy : exec (step handler') t with ⟨e' | ⟨i', next'⟩, t'⟩ <;>
      rw [hx, hy] at hres hR <;> cases hres
    · -- The same instruction costs the same, and both meters stop together.
      exact .inl ⟨rfl, rfl, hR⟩
    · have hR' := htick _ _ i.opcode.cost hR
      simp only
      unfold conclude
      split
      · exact .inl ⟨rfl, rfl, hR'⟩
      · exact .inl ⟨rfl, rfl, hR'⟩
      · exact .inr ⟨rfl, hR'⟩
      · exact .inl ⟨rfl, rfl, hR'⟩
  have hrun := Logged.loop_related hturn (sliceFuel budget)
    (s := (.slice (.fresh budget), s)) (t := (.slice (.fresh budget), t)) ⟨rfl, h⟩
  rw [value_runSlice, value_runSlice, run, run]
  generalize (Logged.loop (advance handler) _ _).value = x at hrun ⊢
  generalize (Logged.loop (advance handler') _ _).value = y at hrun ⊢
  cases hrun with
  | inl he => exact he
  | inr hr => exact ⟨rfl, hr.1, hr.2⟩

end Machine

end Timeshare
