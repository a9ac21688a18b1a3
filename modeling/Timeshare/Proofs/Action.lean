import Timeshare.Logged

namespace Timeshare

/-!
# Reasoning about computations

Ways to say what a computation does, each closed under sequencing.

* `Attempt.outcome_seq`, `bind_eq_ok_iff`, `Action.exec_bind_ok` and their companions take a run of a
  sequence apart into runs of its parts.
* `SameEnd R x y` — two computations succeed with related results or fail with the same fault.
* `Action.Ends x s Q E` — from the state `s`, the computation `x` ends with a result and a state
  related by `Q`, or fails with a fault and a state related by `E`.
* `Action.Keeps P x`, `Action.Returns Q x`, `Action.Raises E x` — the computation `x` keeps the property
  `P` of the state, its results have the property `Q`, and its faults have the property `E`.
* `Action.Alike R x y s t` — from the states `s` and `t`, the computations `x` and `y` end in the same
  way, with states that are again related by `R`.  This is how two runs are compared.
* `Logged.loop_invariant`, `Logged.loop_related` — the same for loops, over one run and over two;
  `Logged.loop_mono` — turns to spare change nothing.
-/

/-! ### Taking runs apart -/

section Except

variable {ε ε' α β : Type} {x : Except Fault α} {f : α → Except Fault β}

/-- A sequence `x >>= f` gives `b` iff `x` gives some `a` and `f a` gives `b`. -/
theorem bind_eq_ok_iff {x : Except ε α} {f : α → Except ε β} {b : β} :
    x >>= f = .ok b ↔ ∃ a, x = .ok a ∧ f a = .ok b := by
  cases x with
  | ok a => simp [bind, Except.bind]
  | error e => simp [bind, Except.bind]

/-- A sequence `x >>= f` fails with `e` iff `x` does, or `x` gives some `a` and `f a` fails with
    `e`. -/
theorem bind_eq_error_iff {e : Fault} :
    x >>= f = .error e ↔ x = .error e ∨ ∃ a, x = .ok a ∧ f a = .error e := by
  cases x with
  | ok a => simp [bind, Except.bind]
  | error e => simp [bind, Except.bind]

/-- Doing `g` to the result leaves open whether there is one: `x.map g` gives `b` iff `b = g a` for
    the result `a` of `x`. -/
theorem map_eq_ok_iff {x : Except ε α} {g : α → β} {b : β} :
    x.map g = .ok b ↔ ∃ a, x = .ok a ∧ g a = b := by
  cases x with
  | ok a => simp [Except.map]
  | error e => simp [Except.map]

/-- Doing `g` to the result leaves the faults: `x.map g` fails with `e` iff `x` does. -/
theorem map_eq_error_iff {g : α → β} {e : Fault} : x.map g = .error e ↔ x = .error e := by
  cases x with
  | ok a => simp [Except.map]
  | error e' => simp [Except.map]

/-- Doing `g` to the error leaves the results: `x.mapError g` gives `a` iff `x` does. -/
theorem mapError_eq_ok_iff {x : Except ε α} {g : ε → ε'} {a : α} :
    x.mapError g = .ok a ↔ x = .ok a := by
  cases x with
  | ok b =>
    show Except.ok b = (.ok a : Except ε' α) ↔ _
    simp
  | error e =>
    show Except.error (g e) = (.ok a : Except ε' α) ↔ _
    simp

@[simp] theorem ok_bind (a : α) : (Except.ok a : Except Fault α) >>= f = f a := rfl

@[simp] theorem error_bind (e : Fault) : (Except.error e : Except Fault α) >>= f = .error e := rfl

/-- Two computations end alike: both succeed, with related results, or both fail with the same
    fault. -/
def SameEnd (R : α → α → Prop) : Except Fault α → Except Fault α → Prop
  | .ok a, .ok b => R a b
  | .error e, .error e' => e = e'
  | _, _ => False

variable {R : α → α → Prop} {Q : β → β → Prop} {y : Except Fault α} {g : α → Except Fault β}

theorem sameEnd_ok {a b : α} : SameEnd R (.ok a) (.ok b) ↔ R a b := Iff.rfl

theorem sameEnd_error (e : Fault) : SameEnd R (.error e) (.error e) := rfl

/-- Sequences end alike if their first parts do, up to `R`, and their second parts do, up to `Q`,
    from any two results that `R` relates. -/
theorem SameEnd.bind (h : SameEnd R x y) (hf : ∀ a b, R a b → SameEnd Q (f a) (g b)) :
    SameEnd Q (x >>= f) (y >>= g) := by
  cases x with
  | ok a =>
    cases y with
    | ok b => exact hf a b h
    | error e => exact absurd h (by simp [SameEnd])
  | error e =>
    cases y with
    | ok b => exact absurd h (by simp [SameEnd])
    | error e' => exact h

/-- If `x` and `y` end alike up to `R`, then `x.map f` and `y.map g` do so up to `Q`, provided that
    `f` and `g` take results that `R` relates to results that `Q` relates. -/
theorem SameEnd.map {f g : α → β} (h : SameEnd R x y)
    (hf : ∀ a b, R a b → Q (f a) (g b)) : SameEnd Q (x.map f) (y.map g) := by
  -- All four pairs of ends are looked at; `SameEnd` is false where only one of the two fails.
  cases x with
  | ok a =>
    cases y with
    | ok b => exact hf a b h
    | error e => exact absurd h (by simp [SameEnd])
  | error e =>
    cases y with
    | ok b => exact absurd h (by simp [SameEnd])
    | error e' => exact h

/-- If `f` and `g` agree on results that `R` relates, then `x.map f = y.map g`. -/
theorem SameEnd.map_eq {f g : α → β} (h : SameEnd R x y) (hf : ∀ a b, R a b → f a = g b) :
    x.map f = y.map g := by
  cases x with
  | ok a =>
    cases y with
    | ok b => exact congrArg Except.ok (hf a b h)
    | error e => exact absurd h (by simp [SameEnd])
  | error e =>
    cases y with
    | ok b => exact absurd h (by simp [SameEnd])
    | error e' => exact congrArg Except.error h

/-- If `x` and `y` end alike and `y` fails with `e`, then so does `x`. -/
theorem SameEnd.of_error {e : Fault} (h : SameEnd R x y) (hy : y = .error e) : x = .error e := by
  subst hy
  cases x with
  | ok a => exact absurd h (by simp [SameEnd])
  | error e' => exact congrArg Except.error h

/-- If `x` and `y` end alike and `y` gives `b`, then `x` gives some `a` with `R a b`. -/
theorem SameEnd.of_ok {b : α} (h : SameEnd R x y) (hy : y = .ok b) : ∃ a, x = .ok a ∧ R a b := by
  subst hy
  cases x with
  | ok a => exact ⟨a, rfl, h⟩
  | error e => exact absurd h (by simp [SameEnd])

/-- Two sequences with the same first part `x` end alike if their second parts do, from each result
    of `x`. -/
theorem SameEnd.bind_same (x : Except Fault β) {f g : β → Except Fault α}
    (hf : ∀ a, x = .ok a → SameEnd R (f a) (g a)) : SameEnd R (x >>= f) (x >>= g) := by
  cases x with
  | ok a => exact hf a rfl
  | error e => exact sameEnd_error e

end Except

namespace Attempt

variable {α β : Type}

/-- The outcome of `x >>= f` is the sequence of the two outcomes, without the notices. -/
theorem outcome_seq (x : Attempt α) (f : α → Attempt β) :
    (x >>= f).outcome = x.outcome >>= fun a => (f a).outcome := by
  rw [outcome_bind]
  cases x.outcome with
  | ok a => rw [ok_bind]
  | error e => rw [error_bind]

@[simp] theorem outcome_note_bind (n : Notice) (f : Unit → Attempt β) :
    (note n >>= f).outcome = (f ()).outcome := by
  rw [outcome_seq, outcome_note, ok_bind]

@[simp] theorem outcome_throw_bind (e : Fault) (f : α → Attempt β) :
    ((throw e : Attempt α) >>= f).outcome = .error e := by
  rw [outcome_seq, outcome_throw, error_bind]

/-- A first part that is an `Except` already is its own outcome. -/
@[simp] theorem outcome_ofExcept_bind (x : Except Fault α) (f : α → Attempt β) :
    (ofExcept x >>= f).outcome = x >>= fun a => (f a).outcome := by
  rw [outcome_seq, outcome_ofExcept]

/-- Doing `g` to the result commutes with `outcome`. -/
@[simp] theorem outcome_map (g : α → β) (x : Attempt α) : (g <$> x).outcome = x.outcome.map g := by
  obtain ⟨r, _⟩ := x
  cases r <;> rfl

end Attempt

namespace Action

variable {σ ρ α β : Type}

/-- If `x` goes from `s` to `t` with result `a`, then `x >>= f` runs from `s` as `f a` does from
    `t`. -/
theorem exec_bind_ok {x : Action σ α} {f : α → Action σ β} {s t : σ} {a : α}
    (h : exec x s = (.ok a, t)) : exec (x >>= f) s = exec (f a) t := by
  rw [exec_bind, h]

/-- If `x` fails with `e` and leaves `t`, then so does `x >>= f`. -/
theorem exec_bind_error {x : Action σ α} {f : α → Action σ β} {s t : σ} {e : Fault}
    (h : exec x s = (.error e, t)) : exec (x >>= f) s = (.error e, t) := by
  rw [exec_bind, h]

/-- A sequence goes from `s` to `u` with result `b` iff there are `a` and `t` between its two
    parts. -/
theorem exec_bind_eq_ok_iff {x : Action σ α} {f : α → Action σ β} {s u : σ} {b : β} :
    exec (x >>= f) s = (.ok b, u) ↔
      ∃ a t, exec x s = (.ok a, t) ∧ exec (f a) t = (.ok b, u) := by
  rw [exec_bind]
  rcases exec x s with ⟨e | a, t⟩
  · simp
  · constructor
    · exact fun h => ⟨a, t, rfl, h⟩
    · rintro ⟨a', t', h, h'⟩
      cases h
      exact h'

/-! ### How one run ends -/

/-- From a state, a computation ends with a result and a state that are related by `Q`, or it
    fails with a fault and a state that are related by `E`. -/
def Ends (x : Action σ α) (s : σ) (Q : α → σ → Prop) (E : Fault → σ → Prop) : Prop :=
  match exec x s with
  | (.ok a, t) => Q a t
  | (.error e, t) => E e t

section Ends

variable {x : Action σ α} {f : α → Action σ β} {s t : σ} {a : α} {e : Fault}
  {Q : α → σ → Prop} {Q' : β → σ → Prop} {E : Fault → σ → Prop}

/-- If `x` goes from `s` to `t` with result `a`, then `Ends x s Q E` is `Q a t`. -/
theorem ends_of_ok (h : exec x s = (.ok a, t)) : Ends x s Q E ↔ Q a t := by
  rw [Ends, h]

/-- If `x` fails from `s` with `e` and leaves `t`, then `Ends x s Q E` is `E e t`. -/
theorem ends_of_error (h : exec x s = (.error e, t)) : Ends x s Q E ↔ E e t := by
  rw [Ends, h]

/-- The rule of sequencing: `x >>= f` ends in `Q'` or `E` iff `x` ends in `E`, or in a result and a
    state from which `f` ends in `Q'` or `E`. -/
@[simp] theorem ends_bind :
    Ends (x >>= f) s Q' E ↔ Ends x s (fun a t => Ends (f a) t Q' E) E := by
  rcases hx : exec x s with ⟨e | a, t⟩
  · rw [ends_of_error hx, ends_of_error (exec_bind_error hx)]
  · rw [ends_of_ok hx, Ends, exec_bind_ok hx]
    rfl

/-- The rule of consequence: `Q` and `E` may be replaced by what they imply. -/
theorem Ends.mono {P : α → σ → Prop} {D : Fault → σ → Prop} (h : Ends x s P D)
    (hQ : ∀ a t, P a t → Q a t) (hE : ∀ e t, D e t → E e t) : Ends x s Q E := by
  rcases hx : exec x s with ⟨e | a, t⟩
  · rw [ends_of_error hx] at h ⊢
    exact hE e t h
  · rw [ends_of_ok hx] at h ⊢
    exact hQ a t h

/-- With `False` for the faults, `Ends` says that `x` has a result, and that `Q` holds of it. -/
theorem ends_ok_iff :
    Ends x s Q (fun _ _ => False) ↔ ∃ a t, exec x s = (.ok a, t) ∧ Q a t := by
  rcases hx : exec x s with ⟨e | a, t⟩
  · rw [ends_of_error hx]
    simp
  · rw [ends_of_ok hx]
    constructor
    · exact fun h => ⟨a, t, rfl, h⟩
    · rintro ⟨b, u, hb, h⟩
      cases hb
      exact h

/-- If the same `P` is asked of the state after a result and after a fault, then `Ends` says that
    `(exec x s).2` has the property `P`. -/
theorem ends_state_iff {P : σ → Prop} :
    Ends x s (fun _ t => P t) (fun _ t => P t) ↔ P (exec x s).2 := by
  rcases hx : exec x s with ⟨e | a, t⟩
  · rw [ends_of_error hx]
  · rw [ends_of_ok hx]

/-- What is known of the state `(exec x s).2` may be added to both postconditions. -/
theorem Ends.and_state {P : σ → Prop} (h : Ends x s Q E) (hP : P (exec x s).2) :
    Ends x s (fun a t => Q a t ∧ P t) (fun e t => E e t ∧ P t) := by
  rcases hx : exec x s with ⟨e | a, t⟩ <;> rw [hx] at hP
  · rw [ends_of_error hx] at h ⊢
    exact ⟨h, hP⟩
  · rw [ends_of_ok hx] at h ⊢
    exact ⟨h, hP⟩

/-- The equation `exec x s = (.ok a, t)` may be added to the postcondition for results. -/
theorem Ends.run (h : Ends x s Q E) : Ends x s (fun a t => exec x s = (.ok a, t) ∧ Q a t) E := by
  rcases hx : exec x s with ⟨e | a, t⟩
  · rw [ends_of_error hx] at h ⊢
    exact h
  · rw [ends_of_ok hx] at h ⊢
    exact ⟨rfl, h⟩

@[simp] theorem ends_pure : Ends (pure a) s Q E ↔ Q a s := Iff.rfl

@[simp] theorem ends_throw : Ends (throw e) s Q E ↔ E e s := Iff.rfl

@[simp] theorem ends_get {Q : σ → σ → Prop} : Ends get s Q E ↔ Q s s := Iff.rfl

@[simp] theorem ends_set {Q : PUnit → σ → Prop} : Ends (set t) s Q E ↔ Q ⟨⟩ t := Iff.rfl

@[simp] theorem ends_modify {g : σ → σ} {Q : PUnit → σ → Prop} :
    Ends (modify g) s Q E ↔ Q ⟨⟩ (g s) := Iff.rfl

@[simp] theorem ends_note {n : Notice} {Q : Unit → σ → Prop} :
    Ends (note n) s Q E ↔ Q () s := Iff.rfl

/-- For a value of type `Except`, `Ends` asks `Q` of its result and `E` of its fault, both in
    `s`. -/
theorem ends_ofExcept {y : Except Fault α} :
    Ends (ofExcept y) s Q E ↔ (∀ a, y = .ok a → Q a s) ∧ ∀ e, y = .error e → E e s := by
  cases y with
  | ok a =>
    rw [ends_of_ok (exec_ofExcept _ s)]
    simp
  | error e =>
    rw [ends_of_error (exec_ofExcept _ s)]
    simp

/-- For an attempt, `Ends` asks `Q` of its result and `E` of its fault, both in the state `s`. -/
theorem ends_attempt {y : Attempt α} :
    Ends (attempt y) s Q E ↔
      (∀ a, y.outcome = .ok a → Q a s) ∧ ∀ e, y.outcome = .error e → E e s := by
  rw [← ends_ofExcept]
  rfl

/-- For a computation on a part of the state, the part is taken with `get`, and what becomes of it
    is put back with `put` before `Q` and `E` look at it. -/
@[simp] theorem ends_zoom {get : σ → ρ} {put : ρ → σ → σ} {y : Action ρ α} :
    Ends (zoom get put y) s Q E ↔
      Ends y (get s) (fun a t => Q a (put t s)) (fun e t => E e (put t s)) := by
  rcases hy : exec y (get s) with ⟨e | a, t⟩
  · rw [ends_of_error hy, Ends, exec_zoom, hy]
  · rw [ends_of_ok hy, Ends, exec_zoom, hy]

/-- Looking at how `x` ends cannot fail: its results and its faults are both results of
    `observe x`. -/
@[simp] theorem ends_observe {Q : Except Fault α → σ → Prop} :
    Ends (observe x) s Q E ↔ Ends x s (fun a t => Q (.ok a) t) (fun e t => Q (.error e) t) := by
  rcases hx : exec x s with ⟨e | a, t⟩
  · rw [ends_of_error hx, Ends, exec_observe, hx]
  · rw [ends_of_ok hx, Ends, exec_observe, hx]

end Ends

/-! ### What a run keeps -/

/-- A computation keeps a property of the state, also where it fails. -/
def Keeps (P : σ → Prop) (x : Action σ α) : Prop := ∀ s, P s → P (exec x s).2

section Keeps

variable {P : σ → Prop} {x : Action σ α} {f : α → Action σ β}

/-- A sequence keeps `P` if both of its parts do. -/
theorem Keeps.bind (hx : Keeps P x) (hf : ∀ a, Keeps P (f a)) : Keeps P (x >>= f) := by
  intro s hs
  have hP := hx s hs
  rw [exec_bind]
  rcases hres : exec x s with ⟨e | a, t⟩ <;> rw [hres] at hP
  · exact hP
  · exact hf a t hP

theorem keeps_pure (a : α) : Keeps P (pure a : Action σ α) := fun _ hs => hs

theorem keeps_throw (e : Fault) : Keeps P (throw e : Action σ α) := fun _ hs => hs

theorem keeps_get : Keeps P (get : Action σ σ) := fun _ hs => hs

theorem keeps_note (n : Notice) : Keeps P (note n : Action σ Unit) := fun _ hs => hs

theorem keeps_ofExcept (r : Except Fault α) : Keeps P (ofExcept r : Action σ α) := fun _ hs => hs

/-- A change of the state keeps `P` if it takes states with `P` to states with `P`. -/
theorem keeps_modify {g : σ → σ} (h : ∀ s, P s → P (g s)) :
    Keeps P (modify g : Action σ PUnit) := h

end Keeps

/-! ### What a run returns -/

/-- From every state, a computation that succeeds has a result with a property. -/
def Returns (Q : α → Prop) (x : Action σ α) : Prop := ∀ s a t, exec x s = (.ok a, t) → Q a

section Returns

variable {Q : α → Prop} {Q' : β → Prop} {x : Action σ α} {f : α → Action σ β}

/-- The results of `x >>= f` have the property `Q'` if those of `x` have `Q` and `Q` is enough for
    `f`. -/
theorem Returns.bind (hx : Returns Q x) (hf : ∀ a, Q a → Returns Q' (f a)) :
    Returns Q' (x >>= f) := by
  intro s b u hb
  rw [exec_bind] at hb
  rcases hres : exec x s with ⟨e | a, t⟩ <;> rw [hres] at hb
  · exact absurd (Prod.mk.inj hb).1 (by simp)
  · exact hf a (hx s a t hres) t b u hb

/-- The results of `x >>= f` have the property `Q'` if those of every `f a` have, whatever `x`
    returns. -/
theorem Returns.after (hf : ∀ a, Returns Q' (f a)) : Returns Q' (x >>= f) :=
  Returns.bind (Q := fun _ => True) (fun _ _ _ _ => trivial) fun a _ => hf a

theorem returns_pure {a : α} (h : Q a) : Returns Q (pure a : Action σ α) := by
  intro s b t hb
  obtain rfl := Except.ok.inj (Prod.mk.inj hb).1
  exact h

/-- If the results of `x` have the property `Q`, then so have the results that `observe x` shows. -/
theorem Returns.observe (h : Returns Q x) :
    Returns (fun r => ∀ a, r = .ok a → Q a) (observe x) := by
  intro s r t hr a ha
  obtain rfl := Except.ok.inj (Prod.mk.inj hr).1
  exact h s a (exec x s).2 (Prod.ext ha rfl)

theorem returns_ofExcept {r : Except Fault α} (h : ∀ a, r = .ok a → Q a) :
    Returns Q (ofExcept r : Action σ α) := fun _ a _ ha => h a (Prod.mk.inj ha).1

/-- A computation on a part of the state returns what it returns on the part. -/
theorem returns_zoom {get : σ → ρ} {put : ρ → σ → σ} {y : Action ρ α} (h : Returns Q y) :
    Returns Q (zoom get put y) := fun s a _ ha =>
  h (get s) a (exec y (get s)).2 (Prod.ext (Prod.mk.inj ha).1 rfl)

end Returns

/-! ### What a run fails with -/

/-- From every state, a computation that fails has a fault with a property. -/
def Raises (E : Fault → Prop) (x : Action σ α) : Prop := ∀ s e t, exec x s = (.error e, t) → E e

section Raises

variable {E : Fault → Prop} {Q : α → Prop} {x : Action σ α} {f : α → Action σ β}

/-- A sequence fails as one of its parts does; the second part may rely on `Q` of the result of the
    first. -/
theorem Raises.bind_of (hx : Raises E x) (hres : Returns Q x) (hf : ∀ a, Q a → Raises E (f a)) :
    Raises E (x >>= f) := by
  intro s e u he
  rw [exec_bind] at he
  rcases hend : exec x s with ⟨e' | a, t⟩ <;> rw [hend] at he
  · obtain rfl := Except.error.inj (Prod.mk.inj he).1
    exact hx s e' t hend
  · exact hf a (hres s a t hend) t e u he

/-- A sequence `x >>= f` fails with faults of `E` if `x` and every `f a` do. -/
theorem Raises.bind (hx : Raises E x) (hf : ∀ a, Raises E (f a)) : Raises E (x >>= f) :=
  hx.bind_of (Q := fun _ => True) (fun _ _ _ _ => trivial) fun a _ => hf a

theorem raises_pure (a : α) : Raises E (pure a : Action σ α) := fun _ _ _ h =>
  absurd (Prod.mk.inj h).1 (by simp)

theorem raises_throw {e : Fault} (h : E e) : Raises E (throw e : Action σ α) := fun _ _ _ he =>
  Except.error.inj (Prod.mk.inj he).1 ▸ h

theorem raises_get : Raises E (get : Action σ σ) := fun _ _ _ h =>
  absurd (Prod.mk.inj h).1 (by simp)

theorem raises_modify (g : σ → σ) : Raises E (modify g : Action σ PUnit) := fun _ _ _ h =>
  absurd (Prod.mk.inj h).1 (by simp)

theorem raises_note (n : Notice) : Raises E (note n : Action σ Unit) := fun _ _ _ h =>
  absurd (Prod.mk.inj h).1 (by simp)

theorem raises_ofExcept {r : Except Fault α} (h : ∀ e, r = .error e → E e) :
    Raises E (ofExcept r : Action σ α) := fun _ e _ he => h e (Prod.mk.inj he).1

/-- A computation on a part of the state fails as it does on the part. -/
theorem raises_zoom {get : σ → ρ} {put : ρ → σ → σ} {y : Action ρ α} (h : Raises E y) :
    Raises E (zoom get put y) := fun s e _ he =>
  h (get s) e (exec y (get s)).2 (Prod.ext (Prod.mk.inj he).1 rfl)

/-- The computation `observe x` does not fail, and the faults that it shows are those of `x`. -/
theorem Raises.observe (h : Raises E x) :
    Raises E (observe x) ∧ Returns (fun r => ∀ e, r = .error e → E e) (observe x) := by
  constructor
  · intro s e t he
    exact absurd (Prod.mk.inj he).1 (by simp)
  · intro s r t hr e he
    obtain rfl := Except.ok.inj (Prod.mk.inj hr).1
    exact h s e (exec x s).2 (Prod.ext he rfl)

end Raises

/-! ### Two runs -/

/-- From two states, two computations end in the same way, with states that are related. -/
def Alike (R : σ → σ → Prop) (x y : Action σ α) (s t : σ) : Prop :=
  (exec x s).1 = (exec y t).1 ∧ R (exec x s).2 (exec y t).2

section Alike

variable {R : σ → σ → Prop} {x y : Action σ α} {f g : α → Action σ β} {s t : σ}

/-- If `x` ends with `res` and leaves `s'`, then `y` ends with `res` too and leaves a state `t'`
    with `R s' t'`. -/
theorem Alike.exec_eq (h : Alike R x y s t) {res : Except Fault α} {s' : σ}
    (hx : exec x s = (res, s')) : ∃ t', exec y t = (res, t') ∧ R s' t' := by
  obtain ⟨hres, hR⟩ := h
  rw [hx] at hres hR
  exact ⟨(exec y t).2, Prod.ext hres.symm rfl, hR⟩

/-- Sequences run alike if their first parts do, and their second parts do from any result and any
    two states that the first parts can leave. -/
theorem Alike.bind (h : Alike R x y s t)
    (hf : ∀ a s' t', exec x s = (.ok a, s') → R s' t' → Alike R (f a) (g a) s' t') :
    Alike R (x >>= f) (y >>= g) s t := by
  obtain ⟨hres, hR⟩ := h
  unfold Alike
  rw [exec_bind, exec_bind]
  rcases hx : exec x s with ⟨e | a, s'⟩ <;> rcases hy : exec y t with ⟨e' | a', t'⟩ <;>
    rw [hx, hy] at hres hR <;> cases hres
  · exact ⟨rfl, hR⟩
  · exact hf a s' t' hx hR

/-- Both computations may look at their states first, and go on with what they see. -/
theorem Alike.get_bind {f g : σ → Action σ β} (h : Alike R (f s) (g t) s t) :
    Alike R (get >>= f) (get >>= g) s t := by
  unfold Alike
  rw [exec_bind_ok (exec_get s), exec_bind_ok (exec_get t)]
  exact h

theorem alike_pure {a : α} (h : R s t) : Alike R (pure a) (pure a) s t := ⟨rfl, h⟩

theorem alike_throw {e : Fault} (h : R s t) :
    Alike R (throw e : Action σ α) (throw e) s t := ⟨rfl, h⟩

theorem alike_note {m n : Notice} (h : R s t) : Alike R (note m) (note n) s t := ⟨rfl, h⟩

theorem alike_ofExcept {r : Except Fault α} (h : R s t) :
    Alike R (ofExcept r) (ofExcept r) s t := ⟨rfl, h⟩

theorem alike_modify {f g : σ → σ} (h : R (f s) (g t)) : Alike R (modify f) (modify g) s t :=
  ⟨rfl, h⟩

/-- If `x` and `y` run alike, then `observe x` and `observe y` do. -/
theorem Alike.observe (h : Alike R x y s t) : Alike R (observe x) (observe y) s t := by
  unfold Alike
  rw [exec_observe, exec_observe]
  exact ⟨congrArg Except.ok h.1, h.2⟩

/-- Runs on parts of the states that are alike up to `Q` are alike up to `R`, if putting back parts
    that `Q` relates gives states that `R` relates. -/
theorem alike_zoom {get : σ → ρ} {put : ρ → σ → σ} {Q : ρ → ρ → Prop} {x y : Action ρ α}
    (hput : ∀ s' t', Q s' t' → R (put s' s) (put t' t)) (h : Alike Q x y (get s) (get t)) :
    Alike R (zoom get put x) (zoom get put y) s t := by
  unfold Alike
  rw [exec_zoom, exec_zoom]
  exact ⟨h.1, hput _ _ h.2⟩

end Alike

end Action

/-! ### Loops -/

namespace Logged

variable {σ τ β γ : Type} {step : σ → Logged (β ⊕ σ)}

/-- A loop goes through states with an invariant `P`, which may count the turns.  A result `b` is
    that of a step from some state `t` with `P i t`; without a result all `fuel` turns have been
    taken. -/
theorem loop_invariant (P : Nat → σ → Prop)
    (hstep : ∀ n s t, P n s → (step s).value = .inr t → P (n + 1) t) (fuel : Nat) {n : Nat} {s : σ}
    (hs : P n s) :
    (∀ b, (loop step fuel s).value = .inl b → ∃ i t, P i t ∧ (step t).value = .inl b)
      ∧ ∀ t, (loop step fuel s).value = .inr t → P (n + fuel) t := by
  -- The count `n` goes up as the fuel goes down, so that both are generalized.
  induction fuel generalizing n s with
  | zero =>
    rw [value_loop_zero]
    exact ⟨fun b hb => by simp at hb, fun t ht => Sum.inr.inj ht ▸ hs⟩
  | succ fuel ih =>
    rw [value_loop_succ]
    cases hx : (step s).value with
    | inl b =>
      refine ⟨fun b' hb => ⟨n, s, hs, ?_⟩, fun t ht => by simp at ht⟩
      rw [hx]
      exact hb
    | inr t =>
      rw [← Nat.succ_add_eq_add_succ]
      exact ih (hstep n s t hs hx)

/-- A loop that has a result with `fuel` turns has the same result with `fuel' ≥ fuel` turns. -/
theorem loop_mono {fuel fuel' : Nat} {s : σ} {b : β} (h : (loop step fuel s).value = .inl b)
    (hle : fuel ≤ fuel') : (loop step fuel' s).value = .inl b := by
  induction fuel generalizing fuel' s with
  | zero =>
    rw [value_loop_zero] at h
    exact absurd h (by simp)
  | succ fuel ih =>
    -- The larger fuel is a successor as well, and the first turn is the same in both loops.
    obtain ⟨fuel', rfl⟩ := Nat.exists_eq_add_one.mpr (Nat.lt_of_lt_of_le (Nat.succ_pos fuel) hle)
    rw [value_loop_succ] at h ⊢
    cases hx : (step s).value with
    | inl b' =>
      rw [hx] at h
      exact h
    | inr t =>
      rw [hx] at h
      exact ih h (Nat.le_of_succ_le_succ hle)

/-- Two loops whose steps are related end together, with results that `Q` relates, or go on
    together, in states that `R` relates. -/
theorem loop_related {step' : τ → Logged (γ ⊕ τ)} {Q : β → γ → Prop} {R : σ → τ → Prop}
    (hstep : ∀ s t, R s t → Sum.LiftRel Q R (step s).value (step' t).value) (fuel : Nat) {s : σ}
    {t : τ} (h : R s t) : Sum.LiftRel Q R (loop step fuel s).value (loop step' fuel t).value := by
  induction fuel generalizing s t with
  | zero => exact .inr h
  | succ fuel ih =>
    rw [value_loop_succ, value_loop_succ]
    have hst := hstep s t h
    -- Of the four cases the two in which only one loop ends contradict `hst`.
    rcases hx : (step s).value with b | s' <;> rcases hy : (step' t).value with c | t' <;>
      rw [hx, hy] at hst
    · exact hst
    · exact absurd hst (by simp)
    · exact absurd hst (by simp)
    · exact ih (Sum.liftRel_inr_inr.mp hst)

end Logged

end Timeshare
