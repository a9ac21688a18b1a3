import Timeshare.Proofs.Action
import Timeshare.Proofs.Region

namespace Timeshare

/-!
# Calculations that have to fit

Words wrap around.  The instructions of a program do so on purpose: arithmetic, the decrement of a
register, the step of the stack pointer in a push.  Everything else relies on the exact number: the
steps of the program counter, the increment of a register, the stack pointer in a pop, the bounds of a
stack, the ends of blocks, what is left of a block, the lengths of regions, the sum of the free words,
the count of the nodes that a search has visited, the numbers of processes, the clock, and where the
words of a record are.  These calculations are written here so that a computation aborts where the exact
number does not fit its type, or where an index is beyond memory.  An abort is no fault: it leaves no
result and no state.

* `Checked σ α` — a computation on a state that may fail, and that may abort.
* `Checked.word`, `Checked.size`, `Checked.index` — an exact number as a word, as a size, and as an index
  of memory; each aborts if the number is none.
* `Checked.Follows x y s` — from the state `s`, the computation `x` does not abort, and it ends as the
  action `y` does.  It is closed under sequencing, so that it is shown along the lines of a program.
-/

/-- A computation on a state that may fail, or abort. -/
abbrev Checked (σ α : Type) := ExceptT Fault (StateT σ Option) α

namespace Checked

variable {σ ρ α β : Type}

/-- How a computation ends and the state that it leaves, if it does not abort. -/
def exec (x : Checked σ α) (s : σ) : Option (Except Fault α × σ) := (ExceptT.run x).run s

/-- Ends everything. -/
def abort : Checked σ α := ExceptT.mk fun _ => none

/-- An exact number as a signed word. -/
def word (exact : Int) : Checked σ Word :=
  if Int64.minValue.toInt ≤ exact ∧ exact ≤ Int64.maxValue.toInt then pure (Int64.ofInt exact) else abort

/-- An exact number as an unsigned word, which sizes, numbers of turns and times are. -/
def size (exact : Nat) : Checked σ UInt64 :=
  if exact < UInt64.size then pure (UInt64.ofNat exact) else abort

/-- An exact number as an index of memory. -/
def index (exact : Nat) : Checked σ Address :=
  if h : exact < memorySize then pure ⟨exact, h⟩ else abort

/-- A computation without calculations. -/
def ofExcept (x : Except Fault α) : Checked σ α := ExceptT.mk fun s => some (x, s)

/-- An action without calculations. -/
def ofAction (x : Action σ α) : Checked σ α := ExceptT.mk fun s => some (x.exec s)

/-- Runs a computation and gives its end as a value. -/
def observe (x : Checked σ α) : Checked σ (Except Fault α) :=
  ExceptT.mk fun s => (exec x s).map fun (r, s) => (.ok r, s)

/-- Runs a computation on a part of the state. -/
def zoom (get : σ → ρ) (put : ρ → σ → σ) (x : Checked ρ α) : Checked σ α :=
  ExceptT.mk fun s => (exec x (get s)).map fun (r, t) => (r, put t s)

/-! ### Numbers that fit -/

/-- A number between `-2^63` and `2^63 - 1` is a word: there `word exact` is
    `pure (Int64.ofInt exact)`, with no abort. -/
theorem word_eq {exact : Int} (h : -9223372036854775808 ≤ exact) (h' : exact < 9223372036854775808) :
    (word exact : Checked σ Word) = pure (Int64.ofInt exact) :=
  if_pos ⟨h, Int.le_of_lt_add_one h'⟩

/-- The word of a sum that fits is the wrapping sum of the words:
    `word (a.toInt + b.toInt) = pure (a + b)`. -/
theorem word_add {a b : Word} (h : -9223372036854775808 ≤ a.toInt + b.toInt)
    (h' : a.toInt + b.toInt < 9223372036854775808) :
    (word (a.toInt + b.toInt) : Checked σ Word) = pure (a + b) := by
  rw [word_eq h h', Int64.ofInt_add, Int64.ofInt_toInt, Int64.ofInt_toInt]

/-- The word of a difference that fits is the wrapping difference of the words:
    `word (a.toInt - b.toInt) = pure (a - b)`. -/
theorem word_sub {a b : Word} (h : -9223372036854775808 ≤ a.toInt - b.toInt)
    (h' : a.toInt - b.toInt < 9223372036854775808) :
    (word (a.toInt - b.toInt) : Checked σ Word) = pure (a - b) := by
  rw [word_eq h h', Int64.ofInt_sub, Int64.ofInt_toInt, Int64.ofInt_toInt]

/-- Below the greatest word there is a next one: `word (a.toInt + 1) = pure (a + 1)`. -/
theorem word_succ {a : Word} (h : a.toInt < Int64.maxValue.toInt) :
    (word (a.toInt + 1) : Checked σ Word) = pure (a + 1) := by
  have hmin := a.le_toInt
  rw [Int64.toInt_maxValue] at h
  exact word_add (b := 1) (by show _ ≤ a.toInt + 1; omega) (by show a.toInt + 1 < _; omega)

/-- There is a word after every address, since addresses end at `9999`: `word (a.toWord.toInt + 1)`
    does not abort. -/
theorem word_succ_address (a : Address) :
    (word (a.toWord.toInt + 1) : Checked σ Word) = pure (a.toWord + 1) := by
  have hindex := a.index_lt
  simp only [memorySize] at hindex
  exact word_succ (by rw [Address.toInt_toWord, Int64.toInt_maxValue]; omega)

/-- There is a word before every address: `word (a.toWord.toInt - 1)` does not abort, and it is `-1`
    before address `0`. -/
theorem word_pred_address (a : Address) :
    (word (a.toWord.toInt - 1) : Checked σ Word) = pure (a.toWord - 1) := by
  have hindex := a.index_lt
  simp only [memorySize] at hindex
  have hat := a.toInt_toWord
  exact word_sub (b := 1) (by show _ ≤ a.toWord.toInt - 1; omega) (by show a.toWord.toInt - 1 < _; omega)

/-- A number below `2^64` is a size: there `size exact` is `pure (UInt64.ofNat exact)`. -/
theorem size_eq {exact : Nat} (h : exact < 18446744073709551616) :
    (size exact : Checked σ UInt64) = pure (UInt64.ofNat exact) := if_pos h

/-- A number below `memorySize` is an index: there `index exact` is `pure ⟨exact, h⟩`. -/
theorem index_eq {exact : Nat} (h : exact < memorySize) :
    (index exact : Checked σ Address) = pure ⟨exact, h⟩ := dif_pos h

/-! ### Sequences -/

/-- Computations that run alike from every state are the same. -/
theorem ext {x y : Checked σ α} (h : ∀ s, exec x s = exec y s) : x = y := funext h

/-- An action without calculations runs as the action does, so `exec (ofAction x) s` is never
    `none`. -/
@[simp] theorem exec_ofAction (x : Action σ α) (s : σ) : exec (ofAction x) s = some (x.exec s) := rfl

/-- A result that is already there leaves the state: `exec (pure a) s = some (.ok a, s)`. -/
@[simp] theorem exec_pure (a : α) (s : σ) : exec (pure a : Checked σ α) s = some (.ok a, s) := rfl

/-- How a sequence runs: an abort or a fault of `x` is that of `x >>= f`, and otherwise `f a` goes
    on from the state that `x` leaves. -/
theorem exec_bind (x : Checked σ α) (f : α → Checked σ β) (s : σ) :
    exec (x >>= f) s =
      match exec x s with
      | none => none
      | some (.ok a, t) => exec (f a) t
      | some (.error e, t) => some (.error e, t) := by
  show (exec x s >>= _) = _
  rcases exec x s with - | ⟨e | a, t⟩ <;> rfl

/-- A result without calculations is that result: `ofExcept (.ok a) = pure a`. -/
@[simp] theorem ofExcept_ok (a : α) : (ofExcept (.ok a) : Checked σ α) = pure a := rfl

/-- A fault without calculations is that fault: `ofExcept (.error e) = throw e`. -/
@[simp] theorem ofExcept_error (e : Fault) : (ofExcept (.error e) : Checked σ α) = throw e := rfl

/-- Nothing comes after a fault: `throw e >>= f = throw e`. -/
@[simp] theorem throw_bind (e : Fault) (f : α → Checked σ β) :
    ((throw e : Checked σ α) >>= f) = throw e := rfl

/-- Checks in sequence: `ofExcept (x >>= f) = ofExcept x >>= fun a => ofExcept (f a)`. -/
theorem ofExcept_bind (x : Except Fault α) (f : α → Except Fault β) :
    (ofExcept (x >>= f) : Checked σ β) = ofExcept x >>= fun a => ofExcept (f a) := by
  cases x with
  | ok a => simp
  | error e => simp

/-- A check whose result is changed by `g` is the check, and then the change:
    `ofExcept x >>= fun a => pure (g a)`. -/
theorem ofExcept_map (g : α → β) (x : Except Fault α) :
    (ofExcept (x.map g) : Checked σ β) = ofExcept x >>= fun a => pure (g a) := by
  cases x with
  | ok a => simp [Except.map]
  | error e => simp [Except.map]

/-- What comes after `ofExcept x` may rely on its result: `f` and `g` need to agree only where
    `x = .ok a`. -/
theorem ofExcept_bind_congr {x : Except Fault α} {f g : α → Checked σ β}
    (h : ∀ a, x = .ok a → f a = g a) : ofExcept x >>= f = ofExcept x >>= g := by
  cases x with
  | ok a => rw [ofExcept_ok, pure_bind, pure_bind, h a rfl]
  | error e => rw [ofExcept_error, throw_bind, throw_bind]

/-- What comes after a look at the state may rely on it: `f s` and `g s` need to run alike only from
    `s` itself. -/
theorem get_bind_congr {f g : σ → Checked σ β} (h : ∀ s, exec (f s) s = exec (g s) s) :
    (get >>= f : Checked σ β) = get >>= g := ext h

/-- A fold whose steps do not abort does not abort: if `f b a = pure (g b a)` for each `a ∈ xs`,
    then `xs.foldlM f b = pure (xs.foldl g b)`. -/
theorem foldlM_eq {f : β → α → Checked σ β} {g : β → α → β} {xs : List α}
    (h : ∀ b, ∀ a ∈ xs, f b a = pure (g b a)) (b : β) : xs.foldlM f b = pure (xs.foldl g b) := by
  induction xs generalizing b with
  | nil => rfl
  | cons a xs ih =>
    rw [List.foldlM_cons, h b a List.mem_cons_self, pure_bind, List.foldl_cons]
    exact ih (fun b c hc => h b c (List.mem_cons_of_mem _ hc)) _

/-! ### Actions -/

/-- Actions in sequence: `ofAction (x >>= f) = ofAction x >>= fun a => ofAction (f a)`. -/
theorem ofAction_bind (x : Action σ α) (f : α → Action σ β) :
    ofAction (x >>= f) = ofAction x >>= fun a => ofAction (f a) := by
  refine ext fun s => ?_
  rw [exec_bind]
  show some (Action.exec (x >>= f) s) = _
  rw [Action.exec_bind]
  show _ = match some (Action.exec x s) with
    | none => none
    | some (.ok a, t) => some (Action.exec (f a) t)
    | some (.error e, t) => some (.error e, t)
  rcases Action.exec x s with ⟨e | a, t⟩ <;> rfl

/-- An action that only gives a result: `ofAction (pure a) = pure a`. -/
@[simp] theorem ofAction_pure (a : α) : (ofAction (pure a) : Checked σ α) = pure a := rfl

/-- An action that only looks at the state: `ofAction get = get`. -/
@[simp] theorem ofAction_get : (ofAction get : Checked σ σ) = get := rfl

/-- A check that an action makes is `ofExcept` of the check. -/
@[simp] theorem ofAction_ofExcept (x : Except Fault α) :
    (ofAction (Action.ofExcept x) : Checked σ α) = ofExcept x := rfl

/-- To observe a check gives its end as a value: `observe (ofExcept x) = pure x`. -/
@[simp] theorem observe_ofExcept (x : Except Fault α) :
    (observe (ofExcept x) : Checked σ (Except Fault α)) = pure x := rfl

/-! ### Computations that do not abort -/

/-- From a state, a computation does not abort and ends as an action does: with a result and a state that
    are related by `Q`, or with a fault and a state that are related by `E`. -/
structure Follows (x : Checked σ α) (y : Action σ α) (s : σ) (Q : α → σ → Prop) (E : Fault → σ → Prop) :
    Prop where
  exec_eq : exec x s = some (Action.exec y s)
  ends : Action.Ends y s Q E

section Follows

variable {x : Checked σ α} {y : Action σ α} {f : α → Checked σ β} {g : α → Action σ β} {s t : σ}
variable {Q : α → σ → Prop} {Q' : β → σ → Prop} {E : Fault → σ → Prop}

/-- An action follows itself, with whatever it `Ends` in. -/
theorem follows_ofAction (h : Action.Ends y s Q E) : Follows (ofAction y) y s Q E := ⟨rfl, h⟩

/-- One after the other: if `x` follows `y`, and `f a` follows `g a` from each state `t` with
    `Q a t`, then `x >>= f` follows `y >>= g`. -/
theorem Follows.bind (hx : Follows x y s Q E) (hf : ∀ a t, Q a t → Follows (f a) (g a) t Q' E) :
    Follows (x >>= f) (y >>= g) s Q' E := by
  obtain ⟨hexec, hends⟩ := hx
  rcases hy : Action.exec y s with ⟨e | a, t⟩
  -- A fault of `y` ends both: `hexec` says that `x` ends in the same fault.
  · rw [Action.ends_of_error hy] at hends
    refine ⟨?_, (Action.ends_of_error (Action.exec_bind_error hy)).mpr hends⟩
    rw [exec_bind, hexec, hy, Action.exec_bind_error hy]
  · rw [Action.ends_of_ok hy] at hends
    obtain ⟨hexec', hends'⟩ := hf a t hends
    refine ⟨?_, ?_⟩
    · rw [exec_bind, hexec, hy, Action.exec_bind_ok hy]
      exact hexec'
    · rw [Action.Ends, Action.exec_bind_ok hy]
      exact hends'

/-- A result comes from a run: `Q a t` may be strengthened by `Action.exec y s = (.ok a, t)`. -/
theorem Follows.with_exec (h : Follows x y s Q E) :
    Follows x y s (fun a t => Q a t ∧ Action.exec y s = (.ok a, t)) E := by
  refine ⟨h.exec_eq, ?_⟩
  have hends := h.ends
  rcases hy : Action.exec y s with ⟨e | a, t⟩
  · rw [Action.ends_of_error hy] at hends ⊢
    exact hends
  · rw [Action.ends_of_ok hy] at hends ⊢
    exact ⟨hends, rfl⟩

/-- One after the other, where it is only known of a run that succeeds that the numbers fit. -/
theorem Follows.bind_if {B : Prop} (hB : ∀ b u, Action.exec (y >>= g) s = (.ok b, u) → B)
    (hx : Follows x y s Q E)
    (hf : ∀ a t, Q a t → (∀ b u, Action.exec (g a) t = (.ok b, u) → B) → Follows (f a) (g a) t Q' E) :
    Follows (x >>= f) (y >>= g) s Q' E :=
  hx.with_exec.bind fun a t ⟨hQ, hy⟩ => hf a t hQ fun b u hb =>
    hB b u ((Action.exec_bind_ok hy).trans hb)

/-- The relations at the ends may be weakened: from `P` to `Q` at a result, from `D` to `E` at a
    fault. -/
theorem Follows.mono {P : α → σ → Prop} {D : Fault → σ → Prop} (h : Follows x y s P D)
    (hQ : ∀ a t, P a t → Q a t) (hE : ∀ e t, D e t → E e t) : Follows x y s Q E :=
  ⟨h.exec_eq, h.ends.mono hQ hE⟩

/-- Both may look at the state first. -/
theorem follows_get_bind {f : σ → Checked σ β} {g : σ → Action σ β} (h : Follows (f s) (g s) s Q' E) :
    Follows (get >>= f) (get >>= g) s Q' E := by
  refine ⟨?_, Action.ends_bind.mpr h.ends⟩
  rw [Action.exec_bind_ok (Action.exec_get s)]
  exact h.exec_eq

/-- Notices are left out, and so are looks at the state for their sake. -/
theorem follows_get_note {x : Checked σ α} {n : σ → Notice} {g : Unit → Action σ α} {Q : α → σ → Prop}
    (h : Follows x (g ()) s Q E) : Follows x (get >>= fun s => Action.note (n s) >>= g) s Q E := by
  refine ⟨?_, Action.ends_bind.mpr (Action.ends_bind.mpr h.ends)⟩
  rw [h.exec_eq, Action.exec_bind_ok (Action.exec_get s), Action.exec_bind_ok (Action.exec_note _ s)]

/-- A notice is left out: `x` follows `Action.note n >>= g` if it follows `g ()`. -/
theorem follows_note_bind {n : Notice} {g : Unit → Action σ β} {x : Checked σ β}
    (h : Follows x (g ()) s Q' E) : Follows x (Action.note n >>= g) s Q' E := by
  refine ⟨?_, Action.ends_bind.mpr h.ends⟩
  rw [h.exec_eq, Action.exec_bind_ok (Action.exec_note n s)]

/-- A result that is already there follows itself, where `Q a s`. -/
theorem follows_pure {a : α} (h : Q a s) : Follows (pure a) (pure a) s Q E := ⟨rfl, h⟩

/-- A fault follows itself, where `E e s`. -/
theorem follows_throw {e : Fault} (h : E e s) : Follows (throw e) (throw e) s Q E := ⟨rfl, h⟩

/-- To set the state to `t` follows itself, where `Q` holds of `t`. -/
theorem follows_set {Q : PUnit → σ → Prop} (h : Q ⟨⟩ t) : Follows (set t) (set t) s Q E := ⟨rfl, h⟩

/-- Both may set the state first. -/
theorem follows_set_bind {f : PUnit → Checked σ β} {g : PUnit → Action σ β}
    (h : Follows (f ⟨⟩) (g ⟨⟩) t Q' E) : Follows (set t >>= f) (set t >>= g) s Q' E :=
  Follows.bind (Q := fun _ u => u = t) ⟨rfl, rfl⟩ fun _ _ hu => hu ▸ h

/-- A check follows itself: `Q a s` is needed where `r = .ok a`, and `E e s` where
    `r = .error e`. -/
theorem follows_ofExcept {r : Except Fault α} (h : ∀ a, r = .ok a → Q a s)
    (he : ∀ e, r = .error e → E e s) : Follows (ofExcept r) (Action.ofExcept r) s Q E :=
  ⟨rfl, Action.ends_ofExcept.mpr ⟨h, he⟩⟩

/-- The outcome of an attempt follows the attempt: what the attempt notes is left out. -/
theorem follows_attempt {r : Attempt α} (h : ∀ a, r.outcome = .ok a → Q a s)
    (he : ∀ e, r.outcome = .error e → E e s) :
    Follows (ofExcept r.outcome) (Action.attempt r) s Q E := ⟨rfl, Action.ends_attempt.mpr ⟨h, he⟩⟩

/-- If `x` follows `y` then `observe x` follows `Action.observe y`, with the two relations read off
    the value: `Q (.ok a)` and `Q (.error e)`. -/
theorem Follows.observe {Q : Except Fault α → σ → Prop}
    (h : Follows x y s (fun a t => Q (.ok a) t) fun e t => Q (.error e) t) :
    Follows (observe x) (Action.observe y) s Q E := by
  refine ⟨?_, Action.ends_observe.mpr h.ends⟩
  show (exec x s).map _ = _
  rw [h.exec_eq]
  rfl

/-- A computation on a part follows on the whole: `zoom get put x` follows `Action.zoom get put y`
    from `s` if `x` follows `y` from `get s`. -/
theorem Follows.zoom {get : σ → ρ} {put : ρ → σ → σ} {x : Checked ρ α} {y : Action ρ α}
    (h : Follows x y (get s) (fun a t => Q a (put t s)) fun e t => E e (put t s)) :
    Follows (zoom get put x) (Action.zoom get put y) s Q E := by
  refine ⟨?_, Action.ends_zoom.mpr h.ends⟩
  show (exec x (get s)).map _ = _
  rw [h.exec_eq]
  rfl

end Follows

end Checked

end Timeshare
