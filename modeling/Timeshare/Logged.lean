import Timeshare.Notice

namespace Timeshare

/-!
# Reporting, failing and changing state

* `Logged α` is a value together with the notices that were made on the way to it;
* `Attempt α` may fail instead, and leaves its caller's state alone;
* `Action σ α` works on a state of type `σ` and may fail; the state as it was left by a
  failure is kept.

A computation reads no notices, so its outcome can be stated without them: `Attempt.outcome`
and `Action.exec` forget the notices, and commute with sequencing (`outcome_bind`,
`exec_bind`).
-/

/-- A value and the notices made on the way to it, oldest first. -/
structure Logged (α : Type) where
  value : α
  notices : Array Notice

namespace Logged

instance : Monad Logged where
  pure a := ⟨a, #[]⟩
  bind x f :=
    match x with
    | ⟨a, before⟩ =>
      match f a with
      | ⟨b, after⟩ => ⟨b, before ++ after⟩

/-- Makes one notice. -/
def note (n : Notice) : Logged Unit := ⟨(), #[n]⟩

@[simp] theorem value_pure {α : Type} (a : α) : (pure a : Logged α).value = a := rfl

@[simp] theorem value_bind {α β : Type} (x : Logged α) (f : α → Logged β) :
    (x >>= f).value = (f x.value).value := rfl

/-- Repeats a step until it gives a result, `fuel` times at most, after some notices. -/
def loopAfter {σ β : Type} (step : σ → Logged (β ⊕ σ)) (notices : Array Notice) :
    Nat → σ → Logged (β ⊕ σ)
  | 0, s => ⟨.inr s, notices⟩
  | fuel + 1, s =>
    match step s with
    | ⟨.inl b, more⟩ => ⟨.inl b, notices ++ more⟩
    | ⟨.inr s, more⟩ => loopAfter step (notices ++ more) fuel s

/-- Repeats a step until it gives a result, `fuel` times at most.  Without a result the state
    is returned as it is then. -/
def loop {σ β : Type} (step : σ → Logged (β ⊕ σ)) (fuel : Nat) (s : σ) : Logged (β ⊕ σ) :=
  loopAfter step #[] fuel s

/-- The notices that a loop starts with do not matter for its value: `loopAfter step notices` ends
    as `loop step` does. -/
theorem value_loopAfter {σ β : Type} (step : σ → Logged (β ⊕ σ)) (notices : Array Notice)
    (fuel : Nat) (s : σ) : (loopAfter step notices fuel s).value = (loop step fuel s).value := by
  -- The notices grow from turn to turn, so that the induction is about any two arrays of them.
  have h : ∀ (as bs : Array Notice) (fuel : Nat) (s : σ),
      (loopAfter step as fuel s).value = (loopAfter step bs fuel s).value := by
    intro as bs fuel
    induction fuel generalizing as bs with
    | zero => intro s; rfl
    | succ fuel ih =>
      intro s
      simp only [loopAfter]
      split
      · rfl
      · exact ih _ _ _
  exact h _ _ _ _

/-- One turn of a loop: if `step s` gives a result, that is the value, and else the loop goes on
    with one turn less. -/
theorem value_loop_succ {σ β : Type} (step : σ → Logged (β ⊕ σ)) (fuel : Nat) (s : σ) :
    (loop step (fuel + 1) s).value =
      match (step s).value with
      | .inl b => .inl b
      | .inr s => (loop step fuel s).value := by
  simp only [loop, loopAfter]
  split <;> rename_i h <;> simp only [h]
  exact value_loopAfter _ _ _ _

@[simp] theorem value_loop_zero {σ β : Type} (step : σ → Logged (β ⊕ σ)) (s : σ) :
    (loop step 0 s).value = .inr s := rfl

end Logged

/-- A computation that may fail. -/
abbrev Attempt (α : Type) := ExceptT Fault Logged α

namespace Attempt

/-- How a computation ends, without its notices. -/
def outcome {α : Type} (x : Attempt α) : Except Fault α := (ExceptT.run x).value

/-- Makes one notice. -/
def note (n : Notice) : Attempt Unit := ExceptT.mk (Logged.note n >>= fun u => pure (.ok u))

/-- A computation that makes no notices. -/
def ofExcept {α : Type} (x : Except Fault α) : Attempt α := ExceptT.mk (pure x)

@[simp] theorem outcome_pure {α : Type} (a : α) : (pure a : Attempt α).outcome = .ok a := rfl

@[simp] theorem outcome_throw {α : Type} (f : Fault) :
    (throw f : Attempt α).outcome = .error f := rfl

@[simp] theorem outcome_note (n : Notice) : (note n).outcome = .ok () := rfl

@[simp] theorem outcome_ofExcept {α : Type} (x : Except Fault α) :
    (ofExcept x).outcome = x := rfl

/-- A sequence of attempts ends as its second part does, or as its first part fails. -/
theorem outcome_bind {α β : Type} (x : Attempt α) (f : α → Attempt β) :
    (x >>= f).outcome =
      match x.outcome with
      | .ok a => (f a).outcome
      | .error e => .error e := by
  simp only [outcome, ExceptT.run_bind, Logged.value_bind]
  rcases (ExceptT.run x).value with _ | _ <;> rfl

end Attempt

/-- A computation on a state that may fail. -/
abbrev Action (σ α : Type) := ExceptT Fault (StateT σ Logged) α

namespace Action

variable {σ ρ α β : Type}

/-- How a computation ends and the state that it leaves, without its notices. -/
def exec (x : Action σ α) (s : σ) : Except Fault α × σ := ((ExceptT.run x).run s).value

/-- Makes one notice. -/
def note (n : Notice) : Action σ Unit :=
  ExceptT.mk fun s => Logged.note n >>= fun u => pure (.ok u, s)

/-- A computation that makes no notices and leaves the state alone. -/
def ofExcept (x : Except Fault α) : Action σ α := ExceptT.mk fun s => pure (x, s)

/-- A computation that leaves the state alone. -/
def attempt (x : Attempt α) : Action σ α :=
  ExceptT.mk fun s => ExceptT.run x >>= fun r => pure (r, s)

/-- Runs a computation and gives its end as a value. -/
def observe (x : Action σ α) : Action σ (Except Fault α) :=
  ExceptT.mk fun s => (ExceptT.run x).run s >>= fun (r, s) => pure (.ok r, s)

/-- Runs a computation on a part of the state. -/
def zoom (get : σ → ρ) (put : ρ → σ → σ) (x : Action ρ α) : Action σ α :=
  ExceptT.mk fun s => (ExceptT.run x).run (get s) >>= fun (r, t) => pure (r, put t s)

@[simp] theorem exec_pure (a : α) (s : σ) : exec (pure a : Action σ α) s = (.ok a, s) := rfl

@[simp] theorem exec_throw (f : Fault) (s : σ) :
    exec (throw f : Action σ α) s = (.error f, s) := rfl

@[simp] theorem exec_get (s : σ) : exec (get : Action σ σ) s = (.ok s, s) := rfl

@[simp] theorem exec_set (s t : σ) : exec (set t : Action σ PUnit) s = (.ok ⟨⟩, t) := rfl

@[simp] theorem exec_modify (f : σ → σ) (s : σ) :
    exec (modify f : Action σ PUnit) s = (.ok ⟨⟩, f s) := rfl

@[simp] theorem exec_note (n : Notice) (s : σ) : exec (note n : Action σ Unit) s = (.ok (), s) :=
  rfl

@[simp] theorem exec_ofExcept (x : Except Fault α) (s : σ) :
    exec (ofExcept x : Action σ α) s = (x, s) := rfl

@[simp] theorem exec_attempt (x : Attempt α) (s : σ) :
    exec (attempt x : Action σ α) s = (x.outcome, s) := rfl

@[simp] theorem exec_observe (x : Action σ α) (s : σ) :
    exec (observe x) s = (.ok (exec x s).1, (exec x s).2) := rfl

@[simp] theorem exec_zoom (get : σ → ρ) (put : ρ → σ → σ) (x : Action ρ α) (s : σ) :
    exec (zoom get put x) s = ((exec x (get s)).1, put (exec x (get s)).2 s) := rfl

/-- A sequence runs its second part in the state that the first part left, or fails with the first
    part and keeps that state. -/
theorem exec_bind (x : Action σ α) (f : α → Action σ β) (s : σ) :
    exec (x >>= f) s =
      match exec x s with
      | (.ok a, t) => exec (f a) t
      | (.error e, t) => (.error e, t) := by
  simp only [exec, ExceptT.run_bind, StateT.run_bind, Logged.value_bind]
  rcases ((ExceptT.run x).run s).value with ⟨_ | _, _⟩ <;> rfl

end Action

end Timeshare
