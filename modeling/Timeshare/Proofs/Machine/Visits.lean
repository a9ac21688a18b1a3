import Timeshare.Proofs.Machine.Run

namespace Timeshare

/-!
# The machines of a run, one by one

`Machine.Steps` says which machines a run may go through.  Here they are listed, so that something can be
carried along from one to the next.

* `Machine.successor handler s` — the machine after the next instruction.
* `Machine.visits handler fuel x` — the machines that a run goes through, each as it is before an
  instruction; `Machine.sliceVisits` — those of a time slice.
* `Machine.Path handler s ms t` — the machines `ms` follow each other from `s` on, and `t` comes after
  them.  A time slice is such a path (`Machine.runSlice_path`).
* `Along update allowed g xs` — each member of a list is allowed by what was carried along to it.
* `Machine.Path.carry` — what holds of a machine and of what is carried along to it holds along a path.
-/

/-- What is carried along a list is updated by each of its members, and allows each of them. -/
def Along {α γ : Type} (update : γ → α → γ) (allowed : γ → α → Prop) : γ → List α → Prop
  | _, [] => True
  | g, x :: xs => allowed g x ∧ Along update allowed (update g x) xs

section Along

variable {α β γ : Type} {update : γ → α → γ} {allowed : γ → α → Prop}

/-- A list is allowed along `xs ++ ys` iff it is along `xs`, and along `ys` from what is carried
    there. -/
theorem along_append {g : γ} {xs ys : List α} :
    Along update allowed g (xs ++ ys) ↔
      Along update allowed g xs ∧ Along update allowed (xs.foldl update g) ys := by
  induction xs generalizing g with
  | nil => exact (iff_of_eq (true_and _)).symm
  | cons x xs ih => rw [List.cons_append, Along, Along, ih, and_assoc, List.foldl_cons]

/-- What is `allowed` whatever is carried along is allowed along every list. -/
theorem along_of_forall {g : γ} {xs : List α} (h : ∀ x ∈ xs, ∀ g, allowed g x) :
    Along update allowed g xs := by
  induction xs generalizing g with
  | nil => trivial
  | cons x xs ih =>
    exact ⟨h x List.mem_cons_self g, ih fun y hy => h y (List.mem_cons_of_mem _ hy)⟩

/-- What is `allowed` may be replaced by what it implies, `allowed'`. -/
theorem Along.mono {allowed' : γ → α → Prop} {g : γ} {xs : List α} (h : Along update allowed g xs)
    (himp : ∀ g x, allowed g x → allowed' g x) : Along update allowed' g xs := by
  induction xs generalizing g with
  | nil => trivial
  | cons x xs ih => exact ⟨himp g x h.1, ih h.2⟩

instance decidableAlong [∀ g x, Decidable (allowed g x)] :
    (g : γ) → (xs : List α) → Decidable (Along update allowed g xs)
  | _, [] => isTrue trivial
  | g, x :: xs => @instDecidableAnd _ _ _ (decidableAlong (update g x) xs)

/-- What is carried along may be forgotten: each member has what `allowed` implies. -/
theorem Along.forall {g : γ} {xs : List α} {P : α → Prop} (h : Along update allowed g xs)
    (himp : ∀ g x, allowed g x → P x) : ∀ x ∈ xs, P x := by
  induction xs generalizing g with
  | nil => simp
  | cons x xs ih => exact List.forall_mem_cons.mpr ⟨himp g x h.1, ih h.2⟩

/-- Along a list of images, the update and the permission look at the images. -/
theorem along_map {f : β → α} {g : γ} {xs : List β} :
    Along update allowed g (xs.map f) ↔
      Along (fun g x => update g (f x)) (fun g x => allowed g (f x)) g xs := by
  induction xs generalizing g with
  | nil => exact Iff.rfl
  | cons x xs ih => rw [List.map_cons, Along, Along, ih]

end Along

namespace Machine

open Timeshare.Action

variable {τ γ : Type} {handler : TrapHandler τ} {s t u : Machine τ}

/-! ### One instruction -/

/-- The machine after the next instruction.  Only an instruction that does not fail is paid for. -/
def successor (handler : TrapHandler τ) (s : Machine τ) : Machine τ :=
  match exec (step handler) s with
  | (.ok (i, _), t) => t.tick i.opcode.cost
  | (.error _, t) => t

/-- The clock is the only difference between `successor handler s` and the machine that the step
    leaves. -/
theorem successor_eq (handler : TrapHandler τ) (s : Machine τ) :
    ∃ cost, successor handler s = (exec (step handler) s).2.tick cost
      ∨ successor handler s = (exec (step handler) s).2 := by
  unfold successor
  rcases exec (step handler) s with ⟨e | ⟨i, next⟩, t⟩
  · exact ⟨0, .inr rfl⟩
  · exact ⟨i.opcode.cost, .inl rfl⟩

/-- What holds after a step, and is kept by the clock, holds of the `successor`. -/
theorem successor_of_step {P : Machine τ → Prop} (htick : ∀ t cost, P t → P (t.tick cost))
    (h : P (exec (step handler) s).2) : P (successor handler s) := by
  obtain ⟨cost, heq | heq⟩ := successor_eq handler s
  · rw [heq]
    exact htick _ cost h
  · rwa [heq]

@[simp] theorem successor_memory :
    (successor handler s).memory = (exec (step handler) s).2.memory :=
  successor_of_step (P := fun t => t.memory = (exec (step handler) s).2.memory) (fun _ _ h => h) rfl

@[simp] theorem successor_host : (successor handler s).host = (exec (step handler) s).2.host :=
  successor_of_step (P := fun t => t.host = (exec (step handler) s).2.host) (fun _ _ h => h) rfl

@[simp] theorem successor_sp :
    (successor handler s).cpu.registers.sp = (exec (step handler) s).2.cpu.registers.sp :=
  successor_of_step
    (P := fun t => t.cpu.registers.sp = (exec (step handler) s).2.cpu.registers.sp) (fun _ _ h => h) rfl

theorem successor_get (i : Register) :
    (successor handler s).cpu.registers.get i = (exec (step handler) s).2.cpu.registers.get i :=
  successor_of_step
    (P := fun t => t.cpu.registers.get i = (exec (step handler) s).2.cpu.registers.get i)
    (fun _ _ h => h) rfl

/-! ### All instructions of a run -/

/-- The machines that a run goes through, each as it is before an instruction. -/
def visits (handler : TrapHandler τ) : Nat → Meter × Machine τ → List (Machine τ)
  | 0, _ => []
  | fuel + 1, x => x.2 ::
    match (advance handler x).value with
    | .inl _ => []
    | .inr y => visits handler fuel y

/-- The machines that a time slice goes through. -/
def sliceVisits (handler : TrapHandler τ) (budget : UInt64) (s : Machine τ) : List (Machine τ) :=
  visits handler (sliceFuel budget) (.slice (.fresh budget), s)

/-- Machines follow each other, each as the instruction of the one before leaves it. -/
def Path (handler : TrapHandler τ) (s : Machine τ) : List (Machine τ) → Machine τ → Prop
  | [], t => t = s
  | m :: ms, t => m = s ∧ Path handler (successor handler s) ms t

/-- However a turn of a run ends, its machine is `successor handler s`. -/
theorem advance_machine (handler : TrapHandler τ) (meter : Meter) (s : Machine τ) :
    (∀ e, (advance handler (meter, s)).value = .inl e → e.machine = successor handler s)
      ∧ ∀ y, (advance handler (meter, s)).value = .inr y → y.2 = successor handler s := by
  rw [value_advance]
  unfold successor
  rcases exec (step handler) s with ⟨fault | ⟨i, next⟩, t⟩
  · exact ⟨fun e he => (Sum.inl.inj he).symm ▸ rfl, fun y hy => absurd hy (by simp)⟩
  · simp only []
    unfold conclude
    split
    · exact ⟨fun e he => (Sum.inl.inj he).symm ▸ rfl, fun y hy => absurd hy (by simp)⟩
    · exact ⟨fun e he => (Sum.inl.inj he).symm ▸ rfl, fun y hy => absurd hy (by simp)⟩
    · exact ⟨fun e he => absurd he (by simp), fun y hy => (Sum.inr.inj hy).symm ▸ rfl⟩
    · exact ⟨fun e he => (Sum.inl.inj he).symm ▸ rfl, fun y hy => absurd hy (by simp)⟩

/-- A run goes through `visits handler fuel (meter, s)`, one after the other, to where it ends. -/
theorem run_path (handler : TrapHandler τ) (fuel : Nat) (meter : Meter) (s : Machine τ) :
    Path handler s (visits handler fuel (meter, s))
      (match (run handler fuel meter s).value with
        | .inl ended => ended.machine
        | .inr y => y.2) := by
  induction fuel generalizing meter s with
  | zero => rfl
  | succ fuel ih =>
    obtain ⟨hend, hgo⟩ := advance_machine handler meter s
    rw [run, Logged.value_loop_succ, visits]
    cases hturn : (advance handler (meter, s)).value with
    | inl e => exact ⟨rfl, hend e hturn⟩
    | inr y =>
      obtain ⟨meter', t⟩ := y
      -- The turn goes on from the successor, where the induction hypothesis applies.
      obtain rfl : t = successor handler s := hgo _ hturn
      exact ⟨rfl, ih meter' _⟩

/-- **A time slice** goes through `sliceVisits handler budget s`, one after the other, to where it
    ends. -/
theorem runSlice_path (handler : TrapHandler τ) (budget : UInt64) (s : Machine τ) :
    Path handler s (sliceVisits handler budget s) (runSlice handler budget s).value.machine := by
  have hrun := run_path handler (sliceFuel budget) (.slice (.fresh budget)) s
  rw [value_runSlice]
  unfold sliceVisits
  cases hend : (run handler (sliceFuel budget) (.slice (.fresh budget)) s).value with
  | inl e =>
    rw [hend] at hrun
    exact hrun
  | inr y =>
    rw [hend] at hrun
    exact hrun

/-- A run that ends otherwise than by its meter ends with the instruction of its last machine: the
    visits are `ms ++ [t]`, and `t` finishes. -/
theorem run_last (fuel : Nat) (meter : Meter) (s : Machine τ) {e : Ended τ}
    (h : (run handler fuel meter s).value = .inl e) (hne : e.outcome ≠ .ok .timeSliceExpired) :
    ∃ ms t, visits handler fuel (meter, s) = ms ++ [t] ∧ Finishes handler t e.outcome e.machine := by
  induction fuel generalizing meter s with
  | zero =>
    rw [run, Logged.value_loop_zero] at h
    exact absurd h (by simp)
  | succ fuel ih =>
    rw [run, Logged.value_loop_succ] at h
    rw [visits]
    cases hturn : (advance handler (meter, s)).value with
    | inl e' =>
      rw [hturn] at h
      obtain rfl : e' = e := Sum.inl.inj h
      refine ⟨[], s, rfl, ?_⟩
      rw [value_advance] at hturn
      split at hturn
      · rename_i fault t hstep
        obtain rfl := Sum.inl.inj hturn
        exact .failed hstep
      -- The instruction ends the run, or the meter does; the latter is excluded by `hne`.
      · rename_i i next t hstep
        exact (conclude_inl hstep hturn).resolve_right fun hmeter => hne hmeter.2.1
    | inr y =>
      rw [hturn] at h
      obtain ⟨ms, t, hms, hlast⟩ := ih y.1 y.2 h
      exact ⟨s :: ms, t, congrArg (s :: ·) hms, hlast⟩

/-- A time slice that ends otherwise than by its meter ends with the instruction of its last
    machine: the visits are `ms ++ [t]`, and `t` finishes. -/
theorem runSlice_last (budget : UInt64) (s : Machine τ)
    (hne : (runSlice handler budget s).value.outcome ≠ .ok .timeSliceExpired) :
    ∃ ms t, sliceVisits handler budget s = ms ++ [t]
      ∧ Finishes handler t (runSlice handler budget s).value.outcome
        (runSlice handler budget s).value.machine := by
  rw [value_runSlice] at hne ⊢
  unfold sliceVisits
  cases hend : (run handler (sliceFuel budget) (.slice (.fresh budget)) s).value with
  | inl e =>
    rw [hend] at hne
    exact run_last _ _ s hend hne
  | inr y =>
    rw [hend] at hne
    exact absurd rfl hne

/-- **What is carried along.**  Let `g` be carried along a path, and updated by every machine.  If
    an instruction that is allowed keeps `P` of what is carried and the machine, then `P` holds of
    all machines of the path, and at its end. -/
theorem Path.carry {update : γ → Machine τ → γ} {allowed : γ → Machine τ → Prop}
    {P : γ → Machine τ → Prop}
    (hstep : ∀ g s, P g s → allowed g s → P (update g s) (successor handler s))
    {ms : List (Machine τ)} {g : γ} (h : Path handler s ms t) (hs : P g s)
    (hallowed : Along update allowed g ms) :
    Along update (fun g s => P g s ∧ allowed g s) g ms ∧ P (ms.foldl update g) t := by
  induction ms generalizing g s with
  | nil =>
    obtain rfl := h
    exact ⟨trivial, hs⟩
  | cons m ms ih =>
    obtain ⟨rfl, hrest⟩ := h
    obtain ⟨hm, hms⟩ := hallowed
    obtain ⟨hall, hend⟩ := ih hrest (hstep g m hs hm) hms
    exact ⟨⟨⟨hs, hm⟩, hall⟩, hend⟩

/-- **Invariants.**  What every instruction keeps, `P`, holds of all machines of a path, and at its
    end. -/
theorem Path.invariant {P : Machine τ → Prop} (hstep : ∀ s, P s → P (successor handler s))
    {ms : List (Machine τ)} (h : Path handler s ms t) (hs : P s) : (∀ m ∈ ms, P m) ∧ P t := by
  have hall : Along (fun _ _ => ()) (fun _ _ => True) () ms := along_of_forall fun _ _ _ => trivial
  obtain ⟨hms, ht⟩ := h.carry (P := fun _ => P) (fun _ s hP _ => hstep s hP) hs hall
  exact ⟨hms.forall fun _ _ hm => hm.1, ht⟩

end Machine

end Timeshare
