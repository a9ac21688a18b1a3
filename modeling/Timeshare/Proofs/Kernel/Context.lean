import Timeshare.Proofs.Kernel.Change

namespace Timeshare

/-!
# Context switches

A process that leaves the processor and goes on later finds its registers as they were.  Between the
two, its record lies among free blocks and other records, and is relinked, while other processes are
created, run, wait and end.

* `Kernel.isReady`, `Kernel.isWaiting`, `Kernel.isNext` — where a process stands; it lives as long as
  it stands somewhere (`Kernel.Alive`).
* `Kernel.Lives`, `Kernel.Away` — the histories through which a process lives, and those in which
  moreover it does not get the processor.
* `Kernel.Sound.passage` — one operation leaves the saved registers of such a process alone, except for
  a character that the process has waited for.
* `Kernel.Away.saved` — so does a history.
* `Kernel.context_transparent` — the next turn of the process starts where the last one has ended.
-/

/-- The registers of a program that has got a character, in its register of results, or none. -/
def Registers.afterInput (g : Registers) : Option Char → Registers
  | none => g
  | some input => g.set .r1 (Word.ofChar input)

/-- Of two characters, one after the other, the newer one counts: `new.or old`. -/
theorem Registers.afterInput_or (g : Registers) (new old : Option Char) :
    (g.afterInput old).afterInput new = g.afterInput (new.or old) := by
  cases new with
  | none => rfl
  | some c =>
    cases old with
    | none => rfl
    | some c' => simp only [afterInput, set, Option.some_or, Vector.set_set]

namespace Kernel

open Timeshare.Action

variable {k k' : Kernel} {free : List FreeBlock} {ready waiting held : List Record} {r : Record}
variable {config : Config} {catalog : Catalog}

/-! ### Where a process stands -/

/-- Whether the process `r` is ready: whether its record is in the ready queue. -/
def isReady (k : Kernel) (r : Record) : Bool :=
  match k.readyRecords with
  | .ok rs => decide (r ∈ rs)
  | .error _ => false

/-- Whether the process `r` waits: whether its record is in the wait queue. -/
def isWaiting (k : Kernel) (r : Record) : Bool :=
  match k.waitingRecords with
  | .ok rs => decide (r ∈ rs)
  | .error _ => false

/-- Whether the process `r` is the first ready one, the next to get the processor. -/
def isNext (k : Kernel) (r : Record) : Bool :=
  match k.readyRecords with
  | .ok rs => decide (rs.head? = some r)
  | .error _ => false

/-- The process `r` lives, between operations, if it is in a queue. -/
def Alive (k : Kernel) (r : Record) : Prop := k.isReady r = true ∨ k.isWaiting r = true

namespace Sound

/-- In a kernel in order, `k.isReady r` says that `r` is in the list `ready`. -/
theorem isReady_iff (h : Sound k free ready waiting held) : k.isReady r = true ↔ r ∈ ready := by
  rw [Kernel.isReady, h.readyRecords]
  exact decide_eq_true_iff

/-- In a kernel in order, `k.isWaiting r` says that `r` is in the list `waiting`. -/
theorem isWaiting_iff (h : Sound k free ready waiting held) : k.isWaiting r = true ↔ r ∈ waiting := by
  rw [Kernel.isWaiting, h.waitingRecords]
  exact decide_eq_true_iff

/-- In a kernel in order, `k.isNext r` says that `r` is the first of the list `ready`. -/
theorem isNext_iff (h : Sound k free ready waiting held) :
    k.isNext r = true ↔ ready.head? = some r := by
  rw [Kernel.isNext, h.readyRecords]
  exact decide_eq_true_iff

/-- In a kernel in order, `k.Alive r` says that `r` is in one of the lists. -/
theorem alive_iff (h : Sound k free ready waiting held) : k.Alive r ↔ r ∈ ready ++ waiting := by
  rw [Alive, h.isReady_iff, h.isWaiting_iff, List.mem_append]

/-- A process does not wait while it is ready: `r ∈ ready` gives `r ∉ waiting`. -/
theorem not_waiting_of_ready (h : Sound k free ready waiting held) (hr : r ∈ ready) :
    r ∉ waiting := by
  intro hw
  have hnodup := (List.nodup_append.mp h.ledger.nodup).1
  exact (List.nodup_append.mp hnodup).2.2 r hr r hw rfl

end Sound

/-! ### Histories of a process -/

/-- The character that the operation `op` hands to the process `r`.  The process has waited, and
    does so no longer. -/
def Operation.given (op : Operation) (k : Kernel) (r : Record) : Option Char :=
  match op with
  | .interrupt (.inputCompletion _ input) =>
    if k.isWaiting r = true ∧ (op.apply k).isWaiting r = false then some input else none
  | _ => none

/-- The process `r` lives through all operations of a history from `k` on.  It may have turns in
    it. -/
inductive Lives (r : Record) (k : Kernel) : Kernel → Prop where
  | refl : Lives r k k
  | step {k' : Kernel} (h : Lives r k k') (op : Operation) (alive : (op.apply k').Alive r) :
    Lives r k (op.apply k')

/-- The process `r` lives through all operations of a history from `k` on and has no turn in it.
    The last character that it is given is told, too. -/
inductive Away (r : Record) (k : Kernel) : Option Char → Kernel → Prop where
  | refl : Away r k none k
  | step {k' : Kernel} {input : Option Char} (h : Away r k input k') (op : Operation)
    (noTurn : op = .cycle → k'.isNext r = false) (alive : (op.apply k').Alive r) :
    Away r k ((op.given k' r).or input) (op.apply k')

/-- A history from a kernel that comes about leads to one: `Reachable` carries over from `k` to
    `k'`. -/
theorem Lives.reachable (h : Lives r k k') (hk : Reachable config catalog k) :
    Reachable config catalog k' := by
  induction h with
  | refl => exact hk
  | step _ op _ ih => exact ih.apply op

/-- So does one in which a process is away. -/
theorem Away.reachable {input : Option Char} (h : Away r k input k')
    (hk : Reachable config catalog k) : Reachable config catalog k' := by
  induction h with
  | refl => exact hk
  | step _ op _ _ ih => exact ih.apply op

/-! ### One operation -/

/-- What the operation `op` does to the process `r` that has no turn in it.  Its registers stay in
    its record, and if it is given a character, then in the register of results. -/
structure Passage (k : Kernel) (r : Record) (op : Operation) : Prop where
  slots : ∀ s, s.isScheduling = false → s ≠ .gpr .r1 →
    r.get (op.apply k).memory s = r.get k.memory s
  result : r.get (op.apply k).memory (.gpr .r1)
    = ((op.given k r).map Word.ofChar).getD (r.get k.memory (.gpr .r1))
  ready : k.isReady r = true ∨ (op.given k r).isSome → (op.apply k).isReady r = true

/-- A process that waits on is given no character: `op.given k r = none`. -/
theorem Operation.given_eq_none {op : Operation}
    (h : k.isWaiting r = true → (op.apply k).isWaiting r = true) : op.given k r = none := by
  unfold given
  split
  · rw [if_neg]
    rintro ⟨hbefore, hafter⟩
    rw [h hbefore] at hafter
    exact absurd hafter (by simp)
  · rfl

/-- A process that is released is given the character of the completion, if there is one:
    `op.given k r = input`. -/
theorem Operation.given_completion {op : Operation} {pid : Word} {input : Option Char}
    (hop : op = .interrupt (.completion pid input)) (hbefore : k.isWaiting r = true)
    (hafter : (op.apply k).isWaiting r = false) : op.given k r = input := by
  subst hop
  cases input with
  | none => rfl
  | some input => exact if_pos ⟨hbefore, hafter⟩

namespace Sound

/-- A process that is not told of anything stays where it is, with its record: all slots but `.next`
    are kept. -/
theorem passage_of_kept {op : Operation} {free' : List FreeBlock} {ready' waiting' : List Record}
    (h : Sound k free ready waiting []) (h' : Sound (op.apply k) free' ready' waiting' [])
    (hkept : ∀ s, s ≠ .next → r.get (op.apply k).memory s = r.get k.memory s)
    (hready : r ∈ ready → r ∈ ready') (hwaiting : r ∈ waiting → r ∈ waiting') : Passage k r op := by
  have hslots : ∀ s, s.isScheduling = false → r.get (op.apply k).memory s = r.get k.memory s :=
    fun s hs => hkept s (Slot.ne_of_isScheduling hs).1
  have hgiven : op.given k r = none := Operation.given_eq_none fun hw =>
    h'.isWaiting_iff.mpr (hwaiting (h.isWaiting_iff.mp hw))
  refine ⟨fun s hs _ => hslots s hs, ?_, ?_⟩
  · rw [hgiven]
    exact hslots _ rfl
  · rw [hgiven]
    rintro (hr | hsome)
    · exact h'.isReady_iff.mpr (hready (h.isReady_iff.mp hr))
    · exact absurd hsome (by simp)

/-- A process that was released from `waiting` is ready, with the character that it was given. -/
theorem passage_released {op : Operation} {pid : Word} {input : Option Char} {free' : List FreeBlock}
    {ready' waiting' : List Record} (h : Sound k free ready waiting [])
    (h' : Sound (op.apply k) free' ready' waiting' [])
    (hop : op = .interrupt (.completion pid input)) (hreleased : Released k r input (op.apply k))
    (hr : r ∈ waiting) (hr' : r ∈ ready') : Passage k r op := by
  have hgiven : op.given k r = input := by
    refine Operation.given_completion hop (h.isWaiting_iff.mpr hr) ?_
    rw [Bool.eq_false_iff, ne_eq, h'.isWaiting_iff]
    exact h'.not_waiting_of_ready hr'
  refine ⟨hreleased.slots, ?_, fun _ => h'.isReady_iff.mpr hr'⟩
  rw [hgiven]
  exact hreleased.result

/-- **One operation.**  Whatever it does to others, a process that lives through it and has no turn
    in it keeps its registers, except for a character that it is given: `Passage k r op`. -/
theorem passage (h : Sound k free ready waiting []) (hr : k.Alive r) {op : Operation}
    (hturn : op = .cycle → k.isNext r = false) (halive : (op.apply k).Alive r) : Passage k r op := by
  rw [h.alive_iff] at hr
  obtain ⟨k', free', ready', waiting', happly, hchange, h'⟩ := h.change op
  rw [← happly] at h'
  -- One case for each effect that an operation can have.
  cases hchange with
  | nothing _ _ _ => exact h.passage_of_kept h' (fun _ _ => by rw [happly]) id id
  | undone _ hundone =>
    subst happly
    exact h.passage_of_kept h' (hundone.queued.kept.get r hr) id id
  | created _ _ hplace _ hkept =>
    subst happly
    refine h.passage_of_kept h' (hkept.get r hr) (fun hready => ?_) id
    rw [hplace.eq] at hready
    simp only [List.mem_append, List.mem_cons] at hready ⊢
    tauto
  | @turn q rest _ _ _ _ _ _ _ hfirst _ _ _ hplaced hkept _ =>
    subst hfirst happly
    -- The process that has its turn is another one.
    have hne : r ≠ q := by
      rintro rfl
      have hnext := hturn rfl
      rw [h.isNext_iff.mpr rfl] at hnext
      exact absurd hnext (by simp)
    exact h.passage_of_kept h' (hkept.get r ((List.mem_cons.mp hr).resolve_left hne))
      (fun hready => hplaced.mem_ready ((List.mem_cons.mp hready).resolve_left hne))
      hplaced.mem_waiting
  | @released _ _ _ q _ before after ahead behind hcompletes hwaits _ hplace hreleased hkept =>
    subst hwaits happly
    by_cases hq : r = q
    · subst hq
      exact h.passage_released h' hcompletes hreleased (by simp) (by simp)
    · obtain ⟨rfl, -, -⟩ := hplace
      simp only [List.mem_append, List.mem_cons, hq, false_or] at hr
      refine h.passage_of_kept h' (hkept.get r ?_) (fun hready => ?_) fun hwaiting => ?_
      · simpa only [List.mem_append] using hr
      · simp only [List.mem_append, List.mem_cons] at hready ⊢
        tauto
      · simpa only [List.mem_append, List.mem_cons, hq, false_or] using hwaiting
  | shutDown _ _ _ =>
    -- After it, no process lives.
    rw [h'.alive_iff] at halive
    exact absurd halive (by simp)

/-- What a process keeps all its life (`s.isLasting`) stays in its record through every operation,
    also through its own turns. -/
theorem get_lasting (h : Sound k free ready waiting []) (hr : k.Alive r) {op : Operation}
    (halive : (op.apply k).Alive r) {s : Slot} (hs : s.isLasting = true) :
    r.get (op.apply k).memory s = r.get k.memory s := by
  -- Its own turn, or an operation in which it has none.
  by_cases hown : op = .cycle ∧ k.isNext r = true
  · obtain ⟨rfl, hnext⟩ := hown
    obtain ⟨rest, rfl⟩ := List.head?_eq_some_iff.mp (h.isNext_iff.mp hnext)
    have hnodup := h.ledger.nodup
    rw [List.append_nil, List.cons_append, List.nodup_cons] at hnodup
    rcases h.cycle with ⟨hnil, -⟩ | ⟨q, _, _, k', _, _, _, hready, hexec, -, -, hplaced, h', -, hlasting⟩
    · exact absurd hnil (by simp)
    obtain ⟨rfl, rfl⟩ := List.cons.inj hready
    have happly : Operation.cycle.apply k = k' := by rw [Operation.apply, hexec]
    rw [happly] at halive ⊢
    exact hlasting ((hplaced.mem_iff hnodup.1).mp (h'.alive_iff.mp halive)) s hs
  · have hpass := h.passage hr (fun hop => Bool.eq_false_iff.mpr fun hnext => hown ⟨hop, hnext⟩) halive
    refine hpass.slots s (Slot.isScheduling_of_isLasting hs).2 ?_
    rintro rfl
    exact absurd hs (by simp [Slot.isLasting])

end Sound

/-! ### Histories -/

/-- A process that lives at the start of a history that it lives through lives at its end:
    `k'.Alive r`. -/
theorem Lives.alive (h : Lives r k k') (hr : k.Alive r) : k'.Alive r := by
  cases h with
  | refl => exact hr
  | step _ _ alive => exact alive

/-- A process that lives at the start of a history in which it is away lives at its end:
    `k'.Alive r`. -/
theorem Away.alive {input : Option Char} (h : Away r k input k') (hr : k.Alive r) : k'.Alive r := by
  cases h with
  | refl => exact hr
  | step _ _ _ alive => exact alive

/-- What a process keeps all its life, the slots with `isLasting`, stays in its record through a
    history. -/
theorem Lives.get_lasting (h : Lives r k k') (hk : Reachable config catalog k) (hr : k.Alive r)
    {s : Slot} (hs : s.isLasting = true) : r.get k'.memory s = r.get k.memory s := by
  induction h with
  | refl => rfl
  | step h op alive ih =>
    obtain ⟨-, -, _, _, _, hsound⟩ := (h.reachable hk).atRest
    exact (hsound.get_lasting (h.alive hr) alive hs).trans ih

/-- A history in which a process has no turn is one that it lives through. -/
theorem Away.lives {input : Option Char} (h : Away r k input k') : Lives r k k' := by
  induction h with
  | refl => exact .refl
  | step _ op _ alive ih => exact ih.step op alive

/-- If the registers `g` are in the record of a process before an operation in which it has no turn,
    then `g.afterInput (op.given k r)` are there after it. -/
theorem Passage.saved {op : Operation} {g : Registers} (h : Passage k r op)
    (hs : r.Saved g k.memory) : r.Saved (g.afterInput (op.given k r)) (op.apply k).memory := by
  have hresult := h.result
  rw [hs.gpr] at hresult
  -- Only the register of results depends on whether a character was given.
  cases hgiven : op.given k r with
  | none =>
    rw [hgiven] at hresult
    refine ⟨fun i => ?_, ?_, ?_⟩
    · by_cases hi : i = .r1
      · rw [hi]
        exact hresult
      · exact (h.slots _ rfl fun hgpr => hi (Slot.gpr.inj hgpr)).trans (hs.gpr i)
    · exact (h.slots _ rfl (by simp)).trans hs.sp
    · exact (h.slots _ rfl (by simp)).trans hs.pc
  | some c =>
    rw [hgiven] at hresult
    refine ⟨fun i => ?_, ?_, ?_⟩
    · by_cases hi : i = .r1
      · rw [hi, Registers.afterInput, Registers.get_set_self]
        exact hresult
      · rw [Registers.afterInput, Registers.get_set_of_ne _ _ (Ne.symm hi), ← hs.gpr]
        exact h.slots _ rfl fun hgpr => hi (Slot.gpr.inj hgpr)
    · exact (h.slots _ rfl (by simp)).trans hs.sp
    · exact (h.slots _ rfl (by simp)).trans hs.pc

/-- **A history.**  The registers that are in the record when a process is put aside are there until
    it has its next turn, with the character that it was given: `r.Saved (g.afterInput input)`; and
    if it was given one, it is ready. -/
theorem Away.saved {input : Option Char} {g : Registers} (h : Away r k input k')
    (hk : Reachable config catalog k) (hr : k.Alive r) (hs : r.Saved g k.memory) :
    r.Saved (g.afterInput input) k'.memory ∧ (input.isSome → k'.isReady r = true) := by
  induction h with
  | refl => exact ⟨hs, fun hnone => absurd hnone (by simp)⟩
  | step h op noTurn alive ih =>
    obtain ⟨-, -, _, _, _, hsound⟩ := (h.reachable hk).atRest
    have hpass := hsound.passage (h.alive hr) noTurn alive
    refine ⟨?_, fun hsome => hpass.ready ?_⟩
    · rw [← Registers.afterInput_or]
      exact hpass.saved ih.1
    · rw [Option.isSome_or, Bool.or_eq_true] at hsome
      exact hsome.symm.imp_left ih.2

/-- The process whose turn it is has been the first ready one: `ready = r :: rest`. -/
theorem Sound.of_turn {start stop : Kernel} {status : Except Fault Status}
    (h : Sound k free ready waiting []) (hturn : Turn r k start stop status k') :
    ∃ rest, ready = r :: rest := by
  obtain @⟨k₁, hpop, -, -, -, -⟩ := hturn
  cases ready with
  | nil =>
    rw [h.popReady_nil] at hpop
    exact absurd (Except.ok.inj (Prod.mk.inj hpop).1) (by simp)
  | cons q rest =>
    obtain ⟨k', hpop', -⟩ := h.popReady_cons
    obtain rfl := Option.some.inj (Except.ok.inj (Prod.mk.inj (hpop'.symm.trans hpop)).1)
    exact ⟨rest, rfl⟩

/-- A process that leaves the processor and goes on lives, its registers are in its record, and so
    is all that it keeps: the slots with `isLasting` are those of `k`. -/
theorem Turn.putAside {start stop : Kernel} {status : Except Fault Status}
    (h : Turn r k start stop status k') (hk : Reachable config catalog k)
    (hgo : (CycleOutcome.ofStatus status).goesOn = true) :
    Reachable config catalog k' ∧ k'.Alive r ∧ r.Saved stop.registers k'.memory
      ∧ ∀ s, s.isLasting = true → r.get k'.memory s = r.get k.memory s := by
  obtain ⟨rfl, -, free, ready, waiting, hsound⟩ := hk.atRest
  obtain ⟨rest, rfl⟩ := hsound.of_turn h
  obtain ⟨start', stop', status', k'', _, _, _, hturn, hstart, hcontained, -, hplaced, h', -, hleft⟩ :=
    hsound.turn
  -- There is one turn, so that what is known of the turn of a sound kernel is known of this one.
  obtain ⟨rfl, rfl, rfl, rfl⟩ := h.unique hturn
  have hnodup := hsound.ledger.nodup
  rw [List.append_nil, List.cons_append, List.nodup_cons] at hnodup
  have hwithin := hsound.ledger.within hsound.fits (x := r) (by simp)
  have hreachable := hk.cycle
  rw [h.exec_cycle] at hreachable
  have haside := hleft.putAside hgo
  exact ⟨hreachable, h'.alive_iff.mpr ((hplaced.mem_iff hnodup.1).mpr hgo), haside.saved,
    fun s hs => hstart.get_lasting hsound.valid.layout hwithin hcontained haside hs⟩

/-- The next process gets its turn, with the registers in its record:
    `r.restoreContext k.memory`. -/
theorem Sound.exists_turn (h : Sound k free ready waiting []) (hnext : k.isNext r = true) :
    ∃ start stop status k', Turn r k start stop status k'
      ∧ start.machine.cpu = r.restoreContext k.memory k.machine.cpu := by
  obtain ⟨rest, rfl⟩ := List.head?_eq_some_iff.mp (h.isNext_iff.mp hnext)
  obtain ⟨start, stop, status, k', _, _, _, hturn, hstart, -⟩ := h.turn
  exact ⟨start, stop, status, k', hturn, hstart.cpu⟩

/-- The end of an output that releases the process `r` reports the content of its register of
    results. -/
theorem Sound.exec_output (h : Sound k free ready waiting []) {pid : Word}
    {result : Except Fault InterruptOutcome}
    (hexec : exec (Kernel.interrupt (.outputCompletion pid)) k = (result, k'))
    (hbefore : k.isWaiting r = true) (hafter : k'.isWaiting r = false) :
    result = .ok (.output pid (r.get k.memory (.gpr .r1))) := by
  rw [Kernel.interrupt] at hexec
  rcases h.deliverOutput pid with
    hnone | ⟨before, q, after, ahead, behind, k'', rfl, -, ⟨rfl, -, -⟩, hsome, -, h', -⟩
  · obtain ⟨-, rfl⟩ := Prod.mk.inj (hnone.symm.trans hexec)
    rw [hbefore] at hafter
    exact absurd hafter (by simp)
  · obtain ⟨rfl, rfl⟩ := Prod.mk.inj (hsome.symm.trans hexec)
    rw [h.isWaiting_iff] at hbefore
    rw [Bool.eq_false_iff, ne_eq, h'.isWaiting_iff] at hafter
    -- The process that was released is the only one that waits no longer.
    have hq : r = q := by
      simp only [List.mem_append, List.mem_cons] at hbefore hafter
      tauto
    rw [hq]

/-- **Context switches.**  A process that was created in a kernel that came about anyhow, has lived on,
    and has left the processor to go on later, starts its next turn with the general registers, the
    stack pointer and the program counter that it left with, except for the character that it was
    given; it runs with the privilege of programs, and on the stack that it got when it was created.
    If it is released by the end of an output, what is shown is the content of the register of results
    that it left with. -/
theorem context_transparent {k₀ k₁ k₂ k₃ k₄ start stop : Kernel} {program : String} {priority : Word}
    {status : Except Fault Status} {input : Option Char} (hk : Reachable config catalog k₀)
    (hcreate : exec (Kernel.create program priority) k₀ = (.ok r, k₁)) (hlives : Lives r k₁ k₂)
    (hturn : Turn r k₂ start stop status k₃)
    (hgo : (CycleOutcome.ofStatus status).goesOn = true) (haway : Away r k₃ input k₄) :
    ∃ stack p m, (k₀.userPool.allocate k₀.memory config.stackSize).outcome = .ok (stack, p, m)
      ∧ (k₄.isNext r = true → ∃ start' stop' status' k₅, Turn r k₄ start' stop' status' k₅
        ∧ start'.registers.gpr = (stop.registers.afterInput input).gpr
        ∧ start'.registers.sp = stop.registers.sp ∧ start'.registers.pc = stop.registers.pc
        ∧ start'.registers.privilege = .user
        ∧ start'.machine.cpu.stack = some (.ofSize stack.toWord config.stackSize))
      ∧ ∀ pid result k₅, exec (Kernel.interrupt (.outputCompletion pid)) k₄ = (result, k₅) →
        k₄.isWaiting r = true → k₅.isWaiting r = false →
        result = .ok (.output pid (stop.registers.get .r1)) := by
  obtain ⟨hconfig, -, free, ready, waiting, h₀⟩ := hk.atRest
  -- The stack is in the record once the process is created, and stays there.
  obtain ⟨k₁', hexec, -, -, -, -, hend⟩ := h₀.create program priority
  obtain ⟨hres, rfl⟩ := Prod.mk.inj (hexec.symm.trans hcreate)
  rcases hend with ⟨_, _, hfail, -⟩ | ⟨x, free₁, ahead, behind, hok, -, hnew, h₁⟩
  · exact absurd (hres.symm.trans hfail) (by simp)
  obtain rfl := Except.ok.inj (hres.symm.trans hok)
  obtain ⟨stack, p, m, hstack, hstart, hsize⟩ := hnew.stack
  rw [hconfig] at hstack hsize
  have hreach₁ : Reachable config catalog k₁' := by
    have := hk.create program priority
    rwa [hcreate] at this
  have halive₁ : k₁'.Alive r := h₁.alive_iff.mpr (by simp)
  have hreach₂ := hlives.reachable hreach₁
  -- The turn ends with the registers in the record, and they stay there until the next one.
  obtain ⟨hreach₃, halive₃, hsaved₃, hlasting₃⟩ := hturn.putAside hreach₂ hgo
  obtain ⟨hsaved, hready⟩ := haway.saved hreach₃ halive₃ hsaved₃
  have hlasting : ∀ s, s.isLasting = true → r.get k₄.memory s = r.get k₁'.memory s := fun s hs =>
    (haway.lives.get_lasting hreach₃ halive₃ hs).trans
      ((hlasting₃ s hs).trans (hlives.get_lasting hreach₁ halive₁ hs))
  obtain ⟨-, -, free₄, ready₄, waiting₄, h₄⟩ := (haway.reachable hreach₃).atRest
  refine ⟨stack, p, m, hstack, fun hnext => ?_, fun pid result k₅ hexec hbefore hafter => ?_⟩
  · obtain ⟨start', stop', status', k₅, hturn', hcpu⟩ := h₄.exists_turn hnext
    rw [hsaved.restoreContext, hlasting _ rfl, hlasting _ rfl, hstart, hsize] at hcpu
    refine ⟨start', stop', status', k₅, hturn', ?_, ?_, ?_, ?_, ?_⟩
    all_goals simp only [Kernel.registers, hcpu]
    · cases input <;> rfl
    · cases input <;> rfl
  · rw [h₄.exec_output hexec hbefore hafter, hsaved.gpr]
    -- A process that still waits was given no character.
    cases input with
    | none => rfl
    | some c =>
      exact absurd (h₄.isWaiting_iff.mp hbefore)
        (h₄.not_waiting_of_ready (h₄.isReady_iff.mp (hready rfl)))

/-- A process asks for a character, waits, is given one, and has its next turn. -/
theorem context_transparent_input :
    let config : Config := { layout := ⟨⟨0, 9⟩, ⟨10, 29⟩, ⟨30, 89⟩⟩, stackSize := 2 }
    let catalog := Catalog.ofList [("ask", ⟨[(0, 126000), (1, 8), (2, 0)], 0⟩)]
    ∃ k₁ k₃ k₄ start stop status start' stop' status' k₅,
      let r : Record := ⟨⟨30, by decide⟩⟩
      Reachable config catalog k₁ ∧ Turn r k₁ start stop status k₃
        ∧ CycleOutcome.ofStatus status = .blocked .inputCompletion
        ∧ Away r k₃ (some (Char.ofNat 97)) k₄ ∧ Turn r k₄ start' stop' status' k₅
        ∧ start'.registers.gpr = (stop.registers.set .r1 97).gpr
        ∧ start'.registers.pc = stop.registers.pc
        ∧ start'.machine.cpu.stack = some ⟨10, 11⟩ := by
  intro config catalog
  let r : Record := ⟨⟨30, by decide⟩⟩
  -- The history is run: creation, a turn that ends in a wait, and a character.
  obtain ⟨k₀, hboot, hcreated, hfirst, houtcome, hgiven, hnext, hready, hstack⟩ :
      ∃ k₀, (boot config catalog).outcome = .ok k₀ ∧
        let created := exec (Kernel.create "ask" 1) k₀
        let turn := exec Kernel.cycle created.2
        let input := Operation.interrupt (.inputCompletion 1 (Char.ofNat 97))
        created.1 = .ok r ∧ created.2.isNext r = true
          ∧ turn.1.toOption.join.map (·.outcome) = some (.blocked .inputCompletion)
          ∧ input.given turn.2 r = some (Char.ofNat 97) ∧ (input.apply turn.2).isNext r = true
          ∧ (input.apply turn.2).isReady r = true
          ∧ (k₀.userPool.allocate k₀.memory 2).outcome.toOption.map (·.1.toWord) = some 10 :=
    exists_boot (by decide +kernel)
  have hcreate : exec (Kernel.create "ask" 1) k₀ = (.ok r, (exec (Kernel.create "ask" 1) k₀).2) :=
    Prod.ext hcreated rfl
  have hk₁ := (Reachable.boot hboot).create "ask" 1
  obtain ⟨-, -, _, _, _, h₁⟩ := hk₁.atRest
  obtain ⟨start, stop, status, k₃, hturn, -⟩ := h₁.exists_turn hfirst
  rw [hturn.exec_cycle] at houtcome hgiven hnext hready
  have hblocked : CycleOutcome.ofStatus status = .blocked .inputCompletion :=
    Option.some.inj houtcome
  have haway := (Away.refl (r := r) (k := k₃)).step
    (.interrupt (.inputCompletion 1 (Char.ofNat 97))) (fun h => absurd h (by simp)) (.inl hready)
  rw [hgiven] at haway
  obtain ⟨stack, p, m, hallocate, hresume, -⟩ := context_transparent (.boot hboot) hcreate .refl hturn
    (by rw [hblocked]; rfl) haway
  obtain ⟨start', stop', status', k₅, hturn', hgpr, -, hpc, -, hbounds⟩ := hresume hnext
  refine ⟨_, k₃, _, start, stop, status, start', stop', status', k₅, hk₁, hturn, hblocked, haway,
    hturn', hgpr, hpc, ?_⟩
  rw [hallocate] at hstack
  have hten : stack.toWord = 10 := Option.some.inj hstack
  rw [hbounds, hten]
  decide

end Kernel

end Timeshare
