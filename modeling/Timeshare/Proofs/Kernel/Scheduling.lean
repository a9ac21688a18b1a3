import Timeshare.Proofs.Kernel.Context
import Mathlib.Data.List.Induction

namespace Timeshare

/-!
# The order of turns

A ready process is not overtaken: whoever stands before another process in the ready queue has its turn
before the other one, whatever is created, released and put off in between.

* `Kernel.Operation.Dispatches`, `Kernel.Operation.Removes`, `Kernel.Operation.Enters` — an operation
  gives the processor to a process, takes it out of the ready queue, or puts it in.
* `Kernel.Stays r k ops` — a process that is ready stays in its queue through a history;
  `Kernel.ReadySince k₀ ops r i` — and it is there since the operation with the number `i`.
* `Kernel.Joined`, `Kernel.Sound.joined` — an operation lets at most one process into the queue, at the
  place of its priority.
* `Kernel.Before k p q` — one process stands before another in the queue.  One operation keeps this
  (`Kernel.Sound.before_apply`), and so does a history (`Kernel.Before.after`).
* `Kernel.turns_in_order` — the order of turns.
-/

namespace Kernel

open Timeshare.Action

variable {k k' k₀ : Kernel} {free : List FreeBlock} {ready waiting held ready' : List Record}
variable {m : Memory} {p q r : Record} {op : Operation} {ops ops' : List Operation} {i j : Nat}
variable {config : Config} {catalog : Catalog}

/-! ### Operations on the ready queue -/

/-- The operation `op` gives the processor to the process `r`. -/
def Operation.Dispatches (op : Operation) (k : Kernel) (r : Record) : Prop :=
  op = .cycle ∧ ∃ start stop status k', Turn r k start stop status k'

/-- The process `r` leaves the ready queue: it gets the processor, or the kernel is shut down. -/
def Operation.Removes (op : Operation) (k : Kernel) (r : Record) : Prop :=
  op.Dispatches k r ∨ op = .interrupt .shutdown

/-- The process `r` enters the ready queue: it is ready afterwards, and if it has been ready before,
    it had the processor in between. -/
def Operation.Enters (op : Operation) (k : Kernel) (r : Record) : Prop :=
  (op.apply k).isReady r = true ∧ (k.isReady r = true → op.Dispatches k r)

/-- Who is left in the ready queue when the next process has got the processor. -/
def Operation.remaining (op : Operation) (ready : List Record) : List Record :=
  match op with
  | .cycle => ready.tail
  | _ => ready

/-- At most one process joins the ready queue `ready`, at the place of its priority. -/
inductive Joined (m : Memory) (ready : List Record) : List Record → Prop where
  | nobody : Joined m ready ready
  | one {r : Record} {ahead behind : List Record} (h : r.Place m ready ahead behind) :
    Joined m ready (ahead ++ r :: behind)

/-- Those who were there stay, in the same order: `ready.Sublist ready'`. -/
theorem Joined.sublist (h : Joined m ready ready') : ready.Sublist ready' := by
  cases h with
  | nobody => exact List.Sublist.refl ready
  | one h =>
    obtain ⟨rfl, -, -⟩ := h
    exact (List.sublist_cons_self _ _).append_left _

/-- Who was not in `ready` has joined, at the place of its priority. -/
theorem Joined.place (h : Joined m ready ready') (hr : r ∈ ready') (hnot : r ∉ ready) :
    ∃ ahead behind, r.Place m ready ahead behind ∧ ready' = ahead ++ r :: behind := by
  cases h with
  | nobody => exact absurd hr hnot
  | one h =>
    rename_i x ahead behind
    obtain rfl : r = x := by
      rcases List.mem_cons.mp (List.perm_middle.mem_iff.mp hr) with hx | hmem
      · exact hx
      · exact absurd (h.eq ▸ hmem) hnot
    exact ⟨ahead, behind, h, rfl⟩

/-- Only a cycle takes a process out of the queue: any other operation has
    `op.remaining ready = ready`. -/
theorem Operation.remaining_of_ne (h : op ≠ .cycle) : op.remaining ready = ready := by
  cases op with
  | create program priority => rfl
  | cycle => exact absurd rfl h
  | interrupt i => rfl

/-- A process that has found its next place has joined the ready queue or has not, whatever the
    `outcome` is. -/
theorem Placed.joined {outcome : CycleOutcome} {free' : List FreeBlock} {waiting' : List Record}
    (h : Placed m r free ready waiting outcome free' ready' waiting') : Joined m ready ready' := by
  cases h with
  | preempted h => exact .one h
  | blocked _ => exact .nobody
  | terminated => exact .nobody
  | faulted _ => exact .nobody

/-- Every effect but a shutdown leaves all in the queue but the one that gets the processor
    (`op.remaining ready`), and lets at most one in. -/
theorem Change.joined {free' : List FreeBlock} {waiting' : List Record}
    (h : Change k free ready waiting op k' free' ready' waiting') (hop : op ≠ .interrupt .shutdown) :
    Joined k'.memory (op.remaining ready) ready' := by
  cases h with
  | nothing _ hcycle _ =>
    -- A cycle without an effect found nobody ready.
    by_cases hturn : op = .cycle
    · obtain rfl := hcycle hturn
      rw [hturn]
      exact .nobody
    · rw [Operation.remaining_of_ne hturn]
      exact .nobody
  | undone hasked _ =>
    rw [Operation.remaining_of_ne (Operation.ne_cycle hasked)]
    exact .nobody
  | created hasked _ hplace _ _ =>
    rw [Operation.remaining_of_ne (Operation.ne_cycle hasked)]
    exact .one hplace
  | turn hfirst _ _ _ hplaced _ _ =>
    rw [hfirst]
    exact hplaced.joined
  | released hcompletes _ _ hplace _ _ =>
    rw [hcompletes]
    exact .one hplace
  | shutDown _ _ _ => exact absurd rfl hop

namespace Sound

/-- The processor goes to the first ready process, in a cycle: `op.Dispatches k r` says
    `op = .cycle` and `ready.head? = some r`. -/
theorem dispatches_iff (h : Sound k free ready waiting []) :
    op.Dispatches k r ↔ op = .cycle ∧ ready.head? = some r := by
  constructor
  · rintro ⟨rfl, start, stop, status, k', hturn⟩
    obtain ⟨rest, rfl⟩ := h.of_turn hturn
    exact ⟨rfl, rfl⟩
  · rintro ⟨rfl, hfirst⟩
    obtain ⟨start, stop, status, k', hturn, -⟩ := h.exists_turn (h.isNext_iff.mpr hfirst)
    exact ⟨rfl, start, stop, status, k', hturn⟩

/-- Who does not get the processor is left in the queue: `r ∈ op.remaining ready`. -/
theorem mem_remaining (h : Sound k free ready waiting []) (hr : r ∈ ready)
    (hnot : ¬ op.Dispatches k r) : r ∈ op.remaining ready := by
  rw [h.dispatches_iff] at hnot
  cases op with
  | create program priority => exact hr
  | interrupt i => exact hr
  | cycle =>
    cases ready with
    | nil => exact hr
    | cons first rest =>
      refine (List.mem_cons.mp hr).resolve_left fun hfirst => hnot ⟨rfl, ?_⟩
      rw [hfirst]
      rfl

/-- Who gets the processor is not left in the queue: `r ∉ op.remaining ready`. -/
theorem not_mem_remaining (h : Sound k free ready waiting []) (hr : op.Dispatches k r) :
    r ∉ op.remaining ready := by
  obtain ⟨rfl, hfirst⟩ := h.dispatches_iff.mp hr
  obtain ⟨rest, rfl⟩ := List.head?_eq_some_iff.mp hfirst
  have hnodup := h.ledger.nodup
  rw [List.append_nil, List.cons_append, List.nodup_cons] at hnodup
  exact fun hrest => hnodup.1 (List.mem_append_left _ hrest)

/-- **One operation** other than a shutdown leaves `op.remaining ready` in the ready queue, and lets
    at most one in. -/
theorem joined (h : Sound k free ready waiting []) (hop : op ≠ .interrupt .shutdown) :
    ∃ free' ready' waiting', Sound (op.apply k) free' ready' waiting' []
      ∧ Joined (op.apply k).memory (op.remaining ready) ready' := by
  obtain ⟨k', free', ready', waiting', rfl, hchange, h'⟩ := h.change op
  exact ⟨free', ready', waiting', h', hchange.joined hop⟩

/-- Nobody is ready after a shutdown. -/
theorem not_isReady_shutdown (h : Sound k free ready waiting []) :
    ((Operation.interrupt .shutdown).apply k).isReady r = false := by
  obtain ⟨_, k', hexec, -, -, -, h', -⟩ := h.shutDown
  have happly : (Operation.interrupt .shutdown).apply k = k' := by
    rw [Operation.apply, Kernel.interrupt, hexec]
  rw [happly, Bool.eq_false_iff, ne_eq, h'.isReady_iff]
  exact List.not_mem_nil

/-- Whoever is not removed by `op` is still ready after it. -/
theorem isReady_apply (h : Sound k free ready waiting []) (hr : k.isReady r = true)
    (hstay : ¬ op.Removes k r) : (op.apply k).isReady r = true := by
  obtain ⟨hturn, hdown⟩ := not_or.mp hstay
  obtain ⟨_, _, _, h', hjoined⟩ := h.joined hdown
  exact h'.isReady_iff.mpr (hjoined.sublist.subset (h.mem_remaining (h.isReady_iff.mp hr) hturn))

/-- Whoever enters does so at the place of its priority among `op.remaining ready`. -/
theorem enters (h : Sound k free ready waiting []) (hr : op.Enters k r) :
    ∃ free' ahead behind waiting', Sound (op.apply k) free' (ahead ++ r :: behind) waiting' []
      ∧ r.Place (op.apply k).memory (op.remaining ready) ahead behind := by
  obtain ⟨hready, hturn⟩ := hr
  have hdown : op ≠ .interrupt .shutdown := by
    rintro rfl
    rw [h.not_isReady_shutdown] at hready
    exact Bool.false_ne_true hready
  obtain ⟨free', ready', waiting', h', hjoined⟩ := h.joined hdown
  -- Whoever is left has been ready before, and whoever has been ready enters only after a turn.
  have hnot : r ∉ op.remaining ready := by
    intro hmem
    have hbefore : r ∈ ready := by
      cases op with
      | create program priority => exact hmem
      | interrupt i => exact hmem
      | cycle => exact List.mem_of_mem_tail hmem
    exact h.not_mem_remaining (hturn (h.isReady_iff.mpr hbefore)) hmem
  obtain ⟨ahead, behind, hplace, rfl⟩ := hjoined.place (h'.isReady_iff.mp hready) hnot
  exact ⟨free', ahead, behind, waiting', h', hplace⟩

end Sound

/-! ### Staying in the queue -/

/-- The process `r`, which is ready, stays in its queue through a history: no operation removes
    it. -/
def Stays (r : Record) : Kernel → List Operation → Prop
  | _, [] => True
  | k, op :: ops => ¬ op.Removes k r ∧ Stays r (op.apply k) ops

/-- To stay through two histories, one after the other, is to stay through both: `ops` from `k`, and
    `ops'` from `k.after ops`. -/
theorem stays_append : Stays r k (ops ++ ops') ↔ Stays r k ops ∧ Stays r (k.after ops) ops' := by
  induction ops generalizing k with
  | nil => exact ⟨fun h => ⟨trivial, h⟩, fun h => h.2⟩
  | cons op ops ih =>
    show ¬ op.Removes k r ∧ Stays r (op.apply k) (ops ++ ops') ↔ _
    rw [ih, ← and_assoc]
    rfl

/-- A process is ready as long as it stays, and what it keeps all its life, the slots with
    `isLasting`, is in its record. -/
theorem Stays.isReady (h : Stays r k ops) (hk : Reachable config catalog k)
    (hr : k.isReady r = true) :
    (k.after ops).isReady r = true
      ∧ ∀ s, s.isLasting = true → r.get (k.after ops).memory s = r.get k.memory s := by
  induction ops generalizing k with
  | nil => exact ⟨hr, fun _ _ => rfl⟩
  | cons op ops ih =>
    obtain ⟨hstay, hrest⟩ := h
    obtain ⟨-, -, _, _, _, hsound⟩ := hk.atRest
    have hready := hsound.isReady_apply hr hstay
    obtain ⟨hlast, hslots⟩ := ih hrest (hk.apply op) hready
    exact ⟨hlast, fun s hs => (hslots s hs).trans (hsound.get_lasting (.inl hr) (.inl hready) hs)⟩

/-- Through a history without a shutdown, in which `p` stays, whoever has no turn stays. -/
theorem Stays.of_not_dispatched (hp : Stays p k ops)
    (hq : ∀ before op after, ops = before ++ op :: after → ¬ op.Dispatches (k.after before) q) :
    Stays q k ops := by
  induction ops generalizing k with
  | nil => trivial
  | cons op ops ih =>
    refine ⟨not_or.mpr ⟨hq [] op ops rfl, fun hdown => hp.1 (.inr hdown)⟩, ih hp.2 ?_⟩
    rintro before op' after rfl
    exact hq (op :: before) op' after rfl

/-- The process `r` is ready since the operation with the number `i`: it has entered the queue then,
    and has stayed there. -/
def ReadySince (k₀ : Kernel) (ops : List Operation) (r : Record) (i : Nat) : Prop :=
  ∃ before op later, ops = before ++ op :: later ∧ before.length = i
    ∧ op.Enters (k₀.after before) r ∧ Stays r (op.apply (k₀.after before)) later

/-- Every ready process has entered the queue with some operation `i`, if nobody was ready at the
    start. -/
theorem exists_readySince (hk : Reachable config catalog k₀) (hnone : ∀ r, k₀.isReady r = false)
    (hr : (k₀.after ops).isReady r = true) : ∃ i, ReadySince k₀ ops r i := by
  -- From the end of the history: the last operation has let it in, or it was ready before.
  induction ops using List.reverseRecOn with
  | nil =>
    have hstart : k₀.isReady r = true := hr
    rw [hnone] at hstart
    exact absurd hstart Bool.false_ne_true
  | append_singleton ops op ih =>
    rw [after_append] at hr
    have happly : (k₀.after ops).after [op] = op.apply (k₀.after ops) := rfl
    rw [happly] at hr
    by_cases henters : op.Enters (k₀.after ops) r
    · exact ⟨ops.length, ops, op, [], rfl, rfl, henters, trivial⟩
    -- It has been ready before, and did not have the processor.
    obtain ⟨hready, hturn⟩ := Classical.not_imp.mp fun h => henters ⟨hr, h⟩
    obtain ⟨-, -, _, _, _, hsound⟩ := (hk.after ops).atRest
    have hdown : op ≠ .interrupt .shutdown := by
      rintro rfl
      rw [hsound.not_isReady_shutdown] at hr
      exact Bool.false_ne_true hr
    obtain ⟨i, before, op', later, rfl, hlen, hentered, hstays⟩ := ih hready
    refine ⟨i, before, op', later ++ [op], by simp, hlen, hentered, stays_append.mpr ⟨hstays, ?_, ?_⟩⟩
    · rw [after_append] at hturn
      exact not_or.mpr ⟨hturn, hdown⟩
    · trivial

/-- Where `p` has entered the queue before `q`, it was there when `q` came, and both have stayed
    since. -/
theorem ReadySince.earlier (hp : ReadySince k₀ ops p i) (hq : ReadySince k₀ ops q j) (hij : i < j)
    (hk : Reachable config catalog k₀) :
    ∃ before op later, ops = before ++ op :: later ∧ (k₀.after before).isReady p = true
      ∧ ¬ op.Removes (k₀.after before) p ∧ op.Enters (k₀.after before) q
      ∧ Stays p (op.apply (k₀.after before)) later ∧ Stays q (op.apply (k₀.after before)) later := by
  obtain ⟨before, op, later, rfl, rfl, hentersp, hstaysp⟩ := hp
  obtain ⟨before', op', later', heq, rfl, hentersq, hstaysq⟩ := hq
  -- `p` entered at position `i` and `q` at `j`, so that the part before `p` is the shorter one.
  rcases List.append_eq_append_iff.mp heq with ⟨mid, rfl, hmid⟩ | ⟨mid, rfl, -⟩
  swap
  · rw [List.length_append] at hij
    omega
  cases mid with
  | nil =>
    rw [List.append_nil] at hij
    exact absurd hij (Nat.lt_irrefl _)
  | cons op₁ mid =>
    obtain ⟨rfl, rfl⟩ := List.cons.inj hmid
    have hafter : k₀.after (before ++ op :: mid) = (op.apply (k₀.after before)).after mid :=
      after_append k₀ before (op :: mid)
    obtain ⟨hmidp, hstay, hlater⟩ := stays_append.mp hstaysp
    rw [hafter] at hentersq hstaysq
    refine ⟨before ++ op :: mid, op', later', heq, ?_⟩
    rw [hafter]
    exact ⟨(hmidp.isReady ((hk.after before).apply op) hentersp.1).1, hstay, hentersq, hlater, hstaysq⟩

/-- No process enters the queue twice without leaving it: `i = j` if it is ready since both. -/
theorem ReadySince.unique (hi : ReadySince k₀ ops r i) (hj : ReadySince k₀ ops r j)
    (hk : Reachable config catalog k₀) : i = j := by
  have hne : ∀ {i j}, ReadySince k₀ ops r i → ReadySince k₀ ops r j → ¬ i < j := by
    intro i j hi hj hij
    obtain ⟨before, op, later, -, hready, hstay, henters, -⟩ := hi.earlier hj hij hk
    exact hstay (.inl (henters.2 hready))
  rcases Nat.lt_trichotomy i j with hij | hij | hij
  · exact absurd hij (hne hi hj)
  · exact hij
  · exact absurd hij (hne hj hi)

/-! ### Standing before another process -/

/-- The process `p` stands before `q` in the ready queue. -/
def Before (k : Kernel) (p q : Record) : Prop :=
  ∃ ready, k.readyRecords = .ok ready ∧ [p, q].Sublist ready

namespace Sound

/-- In a kernel in order, `k.Before p q` says that `[p, q]` is a sublist of the list `ready`. -/
theorem before_iff (h : Sound k free ready waiting held) : k.Before p q ↔ [p, q].Sublist ready := by
  rw [Before, h.readyRecords]
  constructor
  · rintro ⟨_, hready, hpq⟩
    obtain rfl := Except.ok.inj hready
    exact hpq
  · exact fun hpq => ⟨ready, rfl, hpq⟩

/-- Who stands behind another process does not get the processor: `k.Before p q` excludes
    `op.Dispatches k q`. -/
theorem not_dispatches (h : Sound k free ready waiting []) (hpq : k.Before p q) :
    ¬ op.Dispatches k q := by
  intro hq
  obtain ⟨-, hfirst⟩ := h.dispatches_iff.mp hq
  obtain ⟨rest, rfl⟩ := List.head?_eq_some_iff.mp hfirst
  have hnodup := h.ledger.nodup
  rw [List.append_nil, List.cons_append, List.nodup_cons] at hnodup
  -- The second one of the two is in the rest of the queue in any case.
  have hmem : q ∈ rest := by
    rcases List.sublist_cons_iff.mp (h.before_iff.mp hpq) with hrest | ⟨_, heq, hrest⟩
    · exact hrest.subset (by simp)
    · obtain ⟨-, rfl⟩ := List.cons.inj heq
      exact hrest.subset (by simp)
  exact hnodup.1 (List.mem_append_left _ hmem)

/-- **One operation.**  The process `p` stands before `q` as long as it stays. -/
theorem before_apply (h : Sound k free ready waiting []) (hpq : k.Before p q)
    (hp : ¬ op.Removes k p) : (op.apply k).Before p q := by
  obtain ⟨hturn, hdown⟩ := not_or.mp hp
  obtain ⟨_, _, _, h', hjoined⟩ := h.joined hdown
  have hsub := h.before_iff.mp hpq
  refine h'.before_iff.mpr (List.Sublist.trans ?_ hjoined.sublist)
  cases op with
  | create program priority => exact hsub
  | interrupt i => exact hsub
  | cycle =>
    cases ready with
    | nil => exact hsub
    | cons first rest =>
      -- Those who are not dispatched keep their order behind the first one.
      rcases List.sublist_cons_iff.mp hsub with hrest | ⟨_, heq, -⟩
      · exact hrest
      · obtain ⟨rfl, -⟩ := List.cons.inj heq
        exact absurd (h.dispatches_iff.mpr ⟨rfl, rfl⟩) hturn

/-- Whoever enters the queue stands behind those `p` who are left there and do not have a lower
    priority. -/
theorem before_of_enters (h : Sound k free ready waiting []) (hp : k.isReady p = true)
    (hstay : ¬ op.Removes k p) (hq : op.Enters k q)
    (hle : q.priority (op.apply k).memory ≤ p.priority (op.apply k).memory) :
    (op.apply k).Before p q := by
  obtain ⟨hturn, -⟩ := not_or.mp hstay
  obtain ⟨_, ahead, behind, _, h', hplace⟩ := h.enters hq
  exact h'.before_iff.mpr
    (hplace.pair_sublist (h.mem_remaining (h.isReady_iff.mp hp) hturn) hle)

end Sound

/-- **A history.**  The process `p` stands before `q` as long as it stays. -/
theorem Before.after (h : k.Before p q) (hk : Reachable config catalog k) (hp : Stays p k ops) :
    (k.after ops).Before p q := by
  induction ops generalizing k with
  | nil => exact h
  | cons op ops ih =>
    obtain ⟨-, -, _, _, _, hsound⟩ := hk.atRest
    exact ih (hsound.before_apply h hp.1) (hk.apply op) hp.2

/-- Who has come later, `i < j`, with a priority that is not higher, stands behind. -/
theorem ReadySince.before (hp : ReadySince k₀ ops p i) (hq : ReadySince k₀ ops q j) (hij : i < j)
    (hk : Reachable config catalog k₀)
    (hle : q.priority (k₀.after ops).memory ≤ p.priority (k₀.after ops).memory) :
    (k₀.after ops).Before p q := by
  obtain ⟨before, op, later, rfl, hready, hstay, henters, hlaterp, hlaterq⟩ := hp.earlier hq hij hk
  obtain ⟨-, -, _, _, _, hsound⟩ := (hk.after before).atRest
  have hk' := (hk.after before).apply op
  have hafter : k₀.after (before ++ op :: later) = (op.apply (k₀.after before)).after later :=
    after_append k₀ before (op :: later)
  rw [hafter] at hle ⊢
  -- The priorities are those that both had when the second one came.
  obtain ⟨-, hlastp⟩ := hlaterp.isReady hk' (hsound.isReady_apply hready hstay)
  obtain ⟨-, hlastq⟩ := hlaterq.isReady hk' henters.1
  have hle' : q.priority (op.apply (k₀.after before)).memory
      ≤ p.priority (op.apply (k₀.after before)).memory := by
    unfold Record.priority at hle ⊢
    rwa [hlastp .priority rfl, hlastq .priority rfl] at hle
  exact (hsound.before_of_enters hready hstay henters hle').after hk' hlaterp

/-- A process `p` that was put off stands behind every ready `q` that does not have a lower
    priority. -/
theorem Turn.before {start stop : Kernel} {status : Except Fault Status}
    (h : Turn p k start stop status k') (hk : Reachable config catalog k)
    (hcut : CycleOutcome.ofStatus status = .preempted) (hq : k'.isReady q = true) (hne : q ≠ p)
    (hle : p.priority k'.memory ≤ q.priority k'.memory) : k'.Before q p := by
  obtain ⟨-, -, free, ready, waiting, hsound⟩ := hk.atRest
  obtain ⟨rest, rfl⟩ := hsound.of_turn h
  obtain ⟨start', stop', status', k'', _, _, _, hturn, -, -, -, hplaced, h', -⟩ := hsound.turn
  obtain ⟨rfl, rfl, rfl, rfl⟩ := h.unique hturn
  rw [hcut] at hplaced
  cases hplaced with
  | preempted hplace =>
    have hmem := List.perm_middle.mem_iff.mp (h'.isReady_iff.mp hq)
    have hrest := (List.mem_cons.mp hmem).resolve_left hne
    exact h'.before_iff.mpr (hplace.pair_sublist (hplace.eq ▸ hrest) hle)

/-! ### Turns -/

/-- **The order of turns.**  In every history of a new kernel:

    * every ready process is ready since one operation, and leaves the queue only by getting the
      processor or by a shutdown;
    * of two ready processes, the one with the lower priority, or at equal priorities the one that is
      ready since a later operation, does not get the processor as long as the other one stays;
    * whoever was ready when a process was put off, with no lower priority, has had a turn before that
      process gets its next one. -/
theorem turns_in_order (hboot : (boot config catalog).outcome = .ok k₀) (ops : List Operation) :
    let k := k₀.after ops
    (∀ r, k.isReady r = true → ∃! i, ReadySince k₀ ops r i)
      ∧ (∀ r (op : Operation), k.isReady r = true → (op.apply k).isReady r = false → op.Removes k r)
      ∧ (∀ p q, k.isReady p = true → k.isReady q = true →
        (q.priority k.memory < p.priority k.memory ∨
          (q.priority k.memory = p.priority k.memory
            ∧ ∃ i j, ReadySince k₀ ops p i ∧ ReadySince k₀ ops q j ∧ i < j)) →
        ∀ later, Stays p k later → ∀ op : Operation, ¬ op.Dispatches (k.after later) q)
      ∧ ∀ p start stop status k', Turn p k start stop status k' →
        CycleOutcome.ofStatus status = .preempted →
        ∀ q, k'.isReady q = true → q ≠ p → p.priority k'.memory ≤ q.priority k'.memory →
        ∀ later, Stays p k' later → Operation.cycle.Dispatches (k'.after later) p →
          ∃ before after, later = before ++ .cycle :: after
            ∧ Operation.cycle.Dispatches (k'.after before) q := by
  intro k
  have hk₀ : Reachable config catalog k₀ := .boot hboot
  have hk : Reachable config catalog k := hk₀.after ops
  obtain ⟨-, -, free, ready, waiting, hsound⟩ := hk.atRest
  have hnone : ∀ r, k₀.isReady r = false := by
    intro r
    obtain ⟨-, -, _, h₀⟩ := boot_nobody hboot
    exact Bool.eq_false_iff.mpr fun hr => List.not_mem_nil (h₀.isReady_iff.mp hr)
  refine ⟨fun r hr => ?_, fun r op hr hgone => ?_, fun p q hp hq hpq later hstays op => ?_,
    fun p start stop status k' hturn hcut q hq hne hle later hstays hnext => ?_⟩
  · obtain ⟨i, hi⟩ := exists_readySince hk₀ hnone hr
    exact ⟨i, hi, fun j hj => hj.unique hi hk₀⟩
  · refine Classical.not_not.mp fun hstay => ?_
    rw [hsound.isReady_apply hr hstay] at hgone
    exact absurd hgone (by simp)
  · have hbefore : k.Before p q := by
      rcases hpq with hlt | ⟨heq, i, j, hi, hj, hij⟩
      · exact hsound.before_iff.mpr (hsound.standing.pair_sublist (hsound.isReady_iff.mp hp)
          (hsound.isReady_iff.mp hq) hlt)
      · exact hi.before hj hij hk₀ (heq ▸ Int64.le_refl _)
    obtain ⟨-, -, _, _, _, hsound'⟩ := (hk.after later).atRest
    exact hsound'.not_dispatches (hbefore.after hk hstays)
  · -- If the other one had no turn, it would still stand before the process that has its next one.
    refine Classical.not_not.mp fun hnot => ?_
    have hk' : Reachable config catalog k' := by
      have hcycle := hk.cycle
      rwa [hturn.exec_cycle] at hcycle
    have hq' : Stays q k' later := by
      refine hstays.of_not_dispatched ?_
      rintro before op after rfl hdispatch
      obtain rfl := hdispatch.1
      exact hnot ⟨before, after, rfl, hdispatch⟩
    obtain ⟨-, -, _, _, _, hsound'⟩ := (hk'.after later).atRest
    exact hsound'.not_dispatches ((hturn.before hk hcut hq hne hle).after hk' hq') hnext

/-- Two processes of the same priority take turns: the first one is put off, and has its second turn
    after the first one of the other. -/
theorem turns_in_order_alternate :
    let config : Config := { layout := ⟨⟨0, 9⟩, ⟨10, 29⟩, ⟨30, 89⟩⟩, timeSlice := 1, stackSize := 2 }
    let catalog := Catalog.ofList [("add", ⟨[(0, 11160), (1, 7), (2, 0)], 0⟩)]
    let p : Record := ⟨⟨30, by decide⟩⟩
    let q : Record := ⟨⟨52, by decide⟩⟩
    ∃ k₀ k' start stop status, (boot config catalog).outcome = .ok k₀
      ∧ Turn p (k₀.after [.create "add" 1, .create "add" 1]) start stop status k'
      ∧ Operation.cycle.Dispatches k' q ∧ Operation.cycle.Dispatches (k'.after [.cycle]) p := by
  intro config catalog p q
  obtain ⟨k₀, hboot, hfirst, houtcome, hready, hle, hother, hagain⟩ :
      ∃ k₀, (boot config catalog).outcome = .ok k₀ ∧
        let k := k₀.after [.create "add" 1, .create "add" 1]
        let turn := exec Kernel.cycle k
        k.isNext p = true ∧ turn.1.toOption.join.map (·.outcome) = some .preempted
          ∧ turn.2.isReady q = true ∧ p.priority turn.2.memory ≤ q.priority turn.2.memory
          ∧ turn.2.isNext p = false ∧ (turn.2.after [.cycle]).isNext p = true :=
    exists_boot (by decide +kernel)
  have hk : Reachable config catalog (k₀.after [.create "add" 1, .create "add" 1]) :=
    (Reachable.boot hboot).after _
  obtain ⟨-, -, _, _, _, h⟩ := hk.atRest
  obtain ⟨start, stop, status, k', hturn, -⟩ := h.exists_turn hfirst
  have hk' := hk.cycle
  rw [hturn.exec_cycle] at houtcome hready hle hother hagain hk'
  have hcut : CycleOutcome.ofStatus status = .preempted := Option.some.inj houtcome
  obtain ⟨-, -, _, _, _, h'⟩ := hk'.atRest
  obtain ⟨-, -, _, _, _, h''⟩ := (hk'.after [.cycle]).atRest
  -- The turn of the other process is no turn of the first one, and so this one stays in the queue.
  have hstays : Stays p k' [.cycle] := by
    refine ⟨not_or.mpr ⟨fun hdispatch => ?_, by simp⟩, trivial⟩
    rw [h'.isNext_iff.mpr (h'.dispatches_iff.mp hdispatch).2] at hother
    exact absurd hother (by simp)
  have hdispatch : Operation.cycle.Dispatches (k'.after [.cycle]) p :=
    h''.dispatches_iff.mpr ⟨rfl, h''.isNext_iff.mp hagain⟩
  obtain ⟨-, -, -, hbetween⟩ := turns_in_order hboot [.create "add" 1, .create "add" 1]
  obtain ⟨before, after, hlater, hq⟩ :=
    hbetween p start stop status k' hturn hcut q hready (by decide) hle [.cycle] hstays hdispatch
  -- There is no operation before the one in between.
  cases before with
  | nil => exact ⟨k₀, k', start, stop, status, hboot, hturn, hq, hdispatch⟩
  | cons op before => exact absurd (List.cons.inj hlater).2 (by simp)

end Kernel

end Timeshare
