import Timeshare.Proofs.Kernel.Calls
import Timeshare.Proofs.Kernel.Moments
import Mathlib.Data.List.Chain

namespace Timeshare

/-!
# Programs stay on their stacks

Every process gets a block of the user pool as its stack when it is created, and an empty stack pointer.
From then on the stack pointer is one below the block or in it, on the processor and in the record of the
process, whatever the program executes, and however often it waits.

* `Moment.Confined b m` — what an instruction does to a stack with the window `b`.
* `Kernel.HandsOn sp ms sp'` — each instruction starts with the stack pointer that the one before has
  left.
* `Kernel.LeftAlone level ms` — nothing but pushes and pops changes the words above a level.
* `Kernel.HandsOn.lifo` — what is pushed is popped in the reverse order, as long as it is left alone.
* `Kernel.Seated k r b` — between operations, the stack of a process is the window `b`.
* `Kernel.Seated.apply` — one operation; `Kernel.stack_confined` — a history.
-/

open Timeshare.Action

/-! ### One instruction -/

/-- What an instruction does to a stack with the window `b`: the stack pointer is in the window
    before and after it, a push fails just on the full stack and a pop just on the empty one, and
    nothing but a push or a pop that succeeds moves the stack pointer.  The words that they write
    and read are in the window, so that the check of the range of operands accepts them. -/
structure Moment.Confined (b : StackBounds) (m : Moment) : Prop where
  stack : m.machine.cpu.stack = some b
  before : b.Admits m.machine.cpu.registers.sp
  after : b.Admits m.after.cpu.registers.sp
  push_full : ∀ i o u, m.machine.next? = some (i, o, u) → i.opcode = .push →
    m.machine.cpu.registers.sp = b.limit →
    exec (Machine.step m.handler) m.machine = (.error .stackOverflow, u)
      ∧ u.cpu.registers.sp = m.machine.cpu.registers.sp ∧ u.memory = m.machine.memory
  push_room : ∀ i o u, m.machine.next? = some (i, o, u) → i.opcode = .push →
    m.machine.cpu.registers.sp ≠ b.limit →
    ∃ a : Address, (a.index : Int) = m.machine.cpu.registers.sp.toInt + 1 ∧ b.Contains a
      ∧ u.cpu.reachable (u.cpu.registers.sp + 1) = .ok a
      ∧ exec (Machine.step m.handler) m.machine = (.ok (i, .proceed),
        Machine.withSp { u with memory := m.machine.memory.write a o.value }
          (m.machine.cpu.registers.sp + 1))
  pop_empty : ∀ i o u, m.machine.next? = some (i, o, u) → i.opcode = .pop →
    m.machine.cpu.registers.sp.toInt = b.base.toInt - 1 →
    exec (Machine.step m.handler) m.machine = (.error .stackUnderflow, u)
      ∧ u.cpu.registers.sp = m.machine.cpu.registers.sp ∧ u.memory = m.machine.memory
  pop_word : ∀ i o u, m.machine.next? = some (i, o, u) → i.opcode = .pop →
    m.machine.cpu.registers.sp.toInt ≠ b.base.toInt - 1 →
    ∃ a : Address, (a.index : Int) = m.machine.cpu.registers.sp.toInt ∧ b.Contains a
      ∧ u.cpu.reachable u.cpu.registers.sp = .ok a
      ∧ exec (Machine.step m.handler) m.machine = exec (Machine.takeOff i o.location
        (m.machine.memory.read a) (m.machine.cpu.registers.sp - 1)) u
  others : m.machine.stackEvent? m.handler = none →
    m.after.cpu.registers.sp = m.machine.cpu.registers.sp

/-- The word that an instruction pushes or pops, if it succeeds in that. -/
def Moment.event? (m : Moment) : Option Machine.StackEvent := m.machine.stackEvent? m.handler

namespace Machine

variable {s t : Machine Pool} {b : StackBounds} {r : Record}

/-- An instruction keeps the stack pointer in the window `b`. -/
theorem Bounded.successor (h : Bounded b s) :
    Bounded b (Machine.successor (Service.handler r) s) :=
  successor_of_step (fun _ cost h => h.tick cost) (h.step (Service.handler_keepsSp r))

/-- What an instruction does to the stack pointer, and to memory in a push, is what its event
    says. -/
theorem Bounded.event (h : Bounded b s) :
    StackStep b s (Machine.successor (Service.handler r) s) (s.stackEvent? (Service.handler r)) :=
  (h.stackStep (Service.handler_keepsSp r)).congr successor_sp successor_memory

/-- **An instruction** of a process whose stack pointer is in the window is confined to it:
    `Moment.Confined b`. -/
theorem Bounded.confined (h : Bounded b s) : Moment.Confined b ⟨r, s⟩ where
  stack := h.stack
  before := h.admits
  after := h.successor.admits
  push_full i o u hnext hi hfull :=
    ⟨h.push_full _ hnext hi hfull, (next?_still h.valid hnext).2.sp, (next?_still h.valid hnext).2.memory⟩
  push_room i o u hnext hi hroom := h.push_room _ hnext hi hroom
  pop_empty i o u hnext hi hempty :=
    ⟨h.pop_empty _ hnext hi hempty, (next?_still h.valid hnext).2.sp, (next?_still h.valid hnext).2.memory⟩
  pop_word i o u hnext hi hword := h.pop_word (Service.handler r) hnext hi hword
  others hnone := by
    have hevent := h.event (r := r)
    rw [show s.stackEvent? (Service.handler r) = none from hnone] at hevent
    cases hevent with
    | same hsp => exact hsp

end Machine

namespace Kernel

open Timeshare.Machine (Bounded Stacked Undisturbed StackEvent StackStep)

variable {k k' : Kernel} {free : List FreeBlock} {ready waiting held : List Record} {r : Record}
variable {config : Config} {catalog : Catalog} {b : StackBounds} {level : Int} {sp sp' : Word}
variable {ms ms' : List Moment}

/-! ### Many instructions -/

/-- From `sp` to `sp'`, each instruction of `ms` starts with the stack pointer that the one before
    has left. -/
def HandsOn (sp : Word) : List Moment → Word → Prop
  | [], sp' => sp' = sp
  | m :: ms, sp' => m.machine.cpu.registers.sp = sp ∧ HandsOn m.after.cpu.registers.sp ms sp'

/-- Two rows of instructions hand the stack pointer on if both do, with the same `q` in between. -/
theorem handsOn_append :
    HandsOn sp (ms ++ ms') sp' ↔ ∃ q, HandsOn sp ms q ∧ HandsOn q ms' sp' := by
  induction ms generalizing sp with
  | nil => exact ⟨fun h => ⟨sp, rfl, h⟩, fun ⟨_, hq, h⟩ => hq ▸ h⟩
  | cons m ms ih =>
    rw [List.cons_append, HandsOn, ih]
    exact ⟨fun ⟨hm, q, h, h'⟩ => ⟨q, ⟨hm, h⟩, h'⟩, fun ⟨q, ⟨hm, h⟩, h'⟩ => ⟨hm, q, h, h'⟩⟩

/-- The last instruction leaves the stack pointer `sp'`. -/
theorem HandsOn.last (h : HandsOn sp ms sp') {m : Moment} (hm : m ∈ ms.getLast?) :
    m.after.cpu.registers.sp = sp' := by
  obtain ⟨before, rfl⟩ := List.getLast?_eq_some_iff.mp hm
  obtain ⟨_, -, -, hlast⟩ := handsOn_append.mp h
  exact hlast.symm

/-- A path of a run from `s` to `t` hands the stack pointer on. -/
theorem handsOn_path {s t : Machine Pool} {ms : List (Machine Pool)}
    (h : Machine.Path (Service.handler r) s ms t) :
    HandsOn s.cpu.registers.sp (ms.map (Moment.mk r)) t.cpu.registers.sp := by
  induction ms generalizing s with
  | nil =>
    obtain rfl := h
    rfl
  | cons m ms ih =>
    obtain ⟨rfl, hrest⟩ := h
    exact ⟨rfl, ih hrest⟩

/-- Nothing but pushes and pops changes the words above `level` that are on the stack, neither an
    instruction nor whatever happens before the next one. -/
structure LeftAlone (level : Int) (ms : List Moment) : Prop where
  within : ∀ m ∈ ms, Undisturbed level m.machine m.after
  between : ms.IsChain fun m m' => Memory.SameOn
    (fun a => level < a.index ∧ (a.index : Int) ≤ m'.machine.cpu.registers.sp.toInt)
    m.after.memory m'.machine.memory

/-- The rest of the instructions leave the words alone as well. -/
theorem LeftAlone.tail {m : Moment} (h : LeftAlone level (m :: ms)) : LeftAlone level ms :=
  ⟨fun n hn => h.within n (List.mem_cons_of_mem _ hn), (List.isChain_cons.mp h.between).2⟩

/-- What is on the stack after an instruction, `ws`, is there before the next one. -/
theorem LeftAlone.stacked {m : Moment} {ws : List Word} (h : LeftAlone level (m :: ms))
    (hhands : HandsOn m.after.cpu.registers.sp ms sp') (hws : Stacked level m.after ws) :
    ∀ n ∈ ms.head?, Stacked level n.machine ws := by
  intro n hn
  have hnext := (List.isChain_cons.mp h.between).1
  obtain ⟨rest, rfl⟩ := List.head?_eq_some_iff.mp hn
  obtain ⟨hsp, -⟩ := hhands
  have hlevel := hws.sp
  refine ⟨hsp ▸ hlevel, hws.words.congr ((hnext n hn).mono fun a ha => ?_)⟩
  rw [hsp, hlevel]
  exact ha

/-- **Last in, first out.**  Above `level` there are the words `ws'`.  If words `vs` are pushed and
    then as many are popped as there are now, then those come first that were pushed last:
    `ws = vs.reverse ++ ws'`. -/
theorem HandsOn.lifo (h : HandsOn sp ms sp') (hb : ∀ m ∈ ms, Bounded b m.machine)
    (halone : LeftAlone level ms) {vs ws ws' : List Word} (hsp : sp.toInt = level + ws'.length)
    (hstacked : ∀ m ∈ ms.head?, Stacked level m.machine ws')
    (hevents : ms.filterMap Moment.event? = vs.map .pushed ++ ws.map .popped)
    (hlength : ws.length = vs.length + ws'.length) :
    ws = vs.reverse ++ ws' ∧ sp'.toInt = level := by
  -- Instruction by instruction: `ws'` is what is on the stack above the level.
  induction ms generalizing sp vs ws ws' with
  | nil =>
    obtain rfl := h
    rw [List.filterMap_nil, eq_comm, List.append_eq_nil_iff, List.map_eq_nil_iff,
      List.map_eq_nil_iff] at hevents
    obtain ⟨rfl, rfl⟩ := hevents
    obtain rfl : ws' = [] := List.eq_nil_of_length_eq_zero (by simpa using hlength.symm)
    exact ⟨rfl, by simpa using hsp⟩
  | cons m ms ih =>
    obtain ⟨-, hrest⟩ := h
    have hm : Stacked level m.machine ws' := hstacked m rfl
    have hstep : StackStep b m.machine m.after m.event? := (hb m List.mem_cons_self).event
    have hsame := halone.within m List.mem_cons_self
    have hgo : ∀ {vs ws us : List Word}, Stacked level m.after us →
        ms.filterMap Moment.event? = vs.map .pushed ++ ws.map .popped →
        ws.length = vs.length + us.length → ws = vs.reverse ++ us ∧ sp'.toInt = level :=
      fun hus => ih hrest (fun n hn => hb n (List.mem_cons_of_mem _ hn)) halone.tail hus.sp
        (halone.stacked hrest hus)
    rw [List.filterMap_cons] at hevents
    -- It pushes or pops nothing, pushes the first of `vs`, or pops the first of `ws`.
    cases hevent : m.event? with
    | none =>
      rw [hevent] at hevents hstep
      exact hgo (hm.same hstep hsame) hevents hlength
    | some event =>
      rw [hevent] at hevents hstep
      simp only [] at hevents
      cases vs with
      | cons v vs =>
        rw [List.map_cons, List.cons_append, List.cons.injEq] at hevents
        obtain ⟨rfl, hevents⟩ := hevents
        rw [List.length_cons] at hlength
        rw [List.reverse_cons, List.append_assoc, List.singleton_append]
        exact hgo (hm.pushed hstep) hevents (by rw [List.length_cons]; omega)
      | nil =>
        cases ws with
        | nil => exact absurd hevents (by simp)
        | cons w ws =>
          cases ws' with
          | nil => exact absurd hlength (by simp)
          | cons w' ws' =>
            rw [List.map_nil, List.nil_append, List.map_cons, List.cons.injEq] at hevents
            obtain ⟨rfl, hevents⟩ := hevents
            obtain ⟨rfl, hpopped⟩ := hm.popped hstep hsame
            simp only [List.length_cons, List.length_nil] at hlength
            obtain ⟨rfl, hend⟩ := @hgo [] _ _ hpopped hevents (by simp only [List.length_nil]; omega)
            exact ⟨rfl, hend⟩

/-! ### Between operations -/

/-- Between operations, the stack of the process `r` is the window `b`, which lies where programs
    may reach, and the stack pointer in its record is in the window. -/
structure Seated (k : Kernel) (r : Record) (b : StackBounds) : Prop where
  window : .ofSize (r.get k.memory .stackStart) (r.get k.memory .stackSize) = b
  first : (k.config.layout.operandRange.start.toNat : Int) ≤ b.base.toInt
  last : b.limit.toInt ≤ k.config.layout.operandRange.last.toNat
  admits : b.Admits (r.get k.memory .sp)

/-- The window of a stack that was handed out is where its block is: from `a` to `a + n - 1`,
    without a wrap. -/
theorem window_toInt {region : Region} (hr : region.Fits) {a : Address} {n : Word} (hn : 1 ≤ n.toInt)
    (h : FreeBlock.Within ⟨a, max n minBlockSize⟩ region) :
    let b := StackBounds.ofSize a.toWord n
    b.base.toInt = a.index ∧ b.limit.toInt = a.index + n.toInt - 1
      ∧ (region.start.toNat : Int) ≤ b.base.toInt ∧ b.limit.toInt ≤ region.last.toNat := by
  have hone : (1 : Word).toInt = 1 := rfl
  have hlow := h.start_le
  have hhigh := h.le_last
  have hlast := hr.last_lt
  have hbase := Address.toInt_toWord a
  rw [show FreeBlock.size ⟨a, max n minBlockSize⟩ = max n minBlockSize from rfl,
    Word.toInt_max] at hhigh
  simp only [memorySize] at hlow hhigh hlast
  -- The block ends in memory, so that neither the sum nor the difference wraps around.
  have hend : (a.toWord + n).toInt = a.index + n.toInt := by
    rw [Word.toInt_add] <;> omega
  have hlimit : (a.toWord + n - 1).toInt = a.index + n.toInt - 1 := by
    rw [Word.toInt_sub] <;> omega
  refine ⟨hbase, hlimit, ?_, ?_⟩
  · show (region.start.toNat : Int) ≤ a.toWord.toInt
    omega
  · show (a.toWord + n - 1).toInt ≤ region.last.toNat
    omega

/-- **A new process** has the block at `stack` as its stack, which the user pool has handed out, and
    the stack is empty. -/
theorem Sound.NewProcess.seated (hnew : Sound.NewProcess k r k') (h : Framed k)
    (hconfig : k'.config = k.config) {stack : Address} {p : Pool} {m : Memory}
    (hstack : (k.userPool.allocate k.memory k.config.stackSize).outcome = .ok (stack, p, m)) :
    let b := StackBounds.ofSize stack.toWord k.config.stackSize
    Seated k' r b ∧ b.base.toInt = stack.index
      ∧ b.limit.toInt = stack.index + k.config.stackSize.toInt - 1
      ∧ r.get k'.memory .stackStart = stack.toWord
      ∧ r.get k'.memory .stackSize = k.config.stackSize := by
  -- The stack in the record is the one that the pool hands out, since the request has one outcome.
  obtain ⟨stack', p', m', hstack', hstart, hsize⟩ := hnew.stack
  obtain rfl : stack = stack' := by
    have hsame := hstack.symm.trans hstack'
    rw [Except.ok.injEq, Prod.mk.injEq] at hsame
    exact hsame.1
  have hL := h.valid.layout
  obtain ⟨hwithin, -⟩ := Pool.allocate_confined (h.userRegion ▸ hL.userPool) hstack
  rw [h.userRegion] at hwithin
  obtain ⟨hbase, hlimit, hfirst, hlast⟩ := window_toInt hL.userPool h.valid.one_le_stack hwithin
  -- A stack lies behind the program area, so that `stack - 1` is no negative number.
  have hprogram := hL.userProgram.start_le
  have hpool := hL.program_lt_pool
  have hone : (1 : Word).toInt = 1 := rfl
  have hindex := stack.index_lt
  simp only [memorySize] at hindex
  have hsp : (stack.toWord - 1).toInt = stack.index - 1 := by
    have hstack := Address.toInt_toWord stack
    rw [Word.toInt_sub] <;> omega
  refine ⟨⟨by rw [hstart, hsize], ?_, ?_, ?_⟩, hbase, hlimit, hstart, hsize⟩
  · rw [hconfig]
    refine Int.le_trans (Int.ofNat_le.mpr ?_) hfirst
    show k.config.layout.userProgram.start.toNat ≤ k.config.layout.userPool.start.toNat
    omega
  · rw [hconfig]
    exact hlast
  · have hle := h.valid.one_le_stack
    rw [(hnew.block _ _ _ hstack).sp, StackBounds.Admits, hsp, hbase, hlimit]
    omega

/-- What stays in the record of a process keeps it on its stack: `.stackStart`, `.stackSize`, and a
    stack pointer that `b` admits. -/
theorem Seated.congr (h : Seated k r b) (hconfig : k'.config = k.config)
    (hstart : r.get k'.memory .stackStart = r.get k.memory .stackStart)
    (hsize : r.get k'.memory .stackSize = r.get k.memory .stackSize)
    (hadmits : b.Admits (r.get k'.memory .sp)) : Seated k' r b where
  window := by rw [hstart, hsize, h.window]
  first := hconfig ▸ h.first
  last := hconfig ▸ h.last
  admits := hadmits

/-- A process that gets the processor is on its stack: `Bounded b start.machine`. -/
theorem Seated.dispatched {start : Kernel} (h : Seated k r b) (hframed : Framed k)
    (hstart : Dispatched r k start) : Bounded b start.machine := by
  have hlayout : start.machine.cpu.layout = k.config.layout := by
    rw [hstart.cpu]
    exact hframed.layout
  refine ⟨hlayout ▸ hframed.valid.layout, ?_, hlayout ▸ h.first, hlayout ▸ h.last, ?_⟩
  · rw [hstart.cpu, ← h.window]
    rfl
  · rw [hstart.cpu]
    exact h.admits

/-- **One operation.**  Its instructions, `own r (op.moments k)`, find the process on its stack and
    hand the stack pointer on, and if the process lives on, it stays on its stack. -/
theorem Seated.apply (hseat : Seated k r b) (hk : Reachable config catalog k) (hr : k.Alive r)
    (op : Operation) :
    (∀ m ∈ own r (op.moments k), Bounded b m.machine) ∧
      ∃ sp, HandsOn (r.get k.memory .sp) (own r (op.moments k)) sp
        ∧ ((op.apply k).Alive r → Seated (op.apply k) r b ∧ r.get (op.apply k).memory .sp = sp) := by
  obtain ⟨hconfig, -, free, ready, waiting, h⟩ := hk.atRest
  have hconfig' : (op.apply k).config = k.config := (hk.apply op).atRest.1.trans hconfig.symm
  -- Either the process has its own turn, or nothing of it is executed.
  by_cases hown : op = .cycle ∧ k.isNext r = true
  · obtain ⟨rfl, hnext⟩ := hown
    obtain ⟨rest, rfl⟩ := List.head?_eq_some_iff.mp (h.isNext_iff.mp hnext)
    obtain ⟨start, stop, status, k', _, _, _, hturn, hstart, hcontained, -, hplaced, h', -, hleft⟩ :=
      h.turn
    obtain ⟨ms, hms, hpath⟩ := hturn.moments
    have happly : Operation.cycle.apply k = k' := by rw [Operation.apply, hturn.exec_cycle]
    have hmoments : own r (Operation.cycle.moments k) = ms.map (Moment.mk r) := by
      show own r k.moments = _
      rw [hms, own_map]
    obtain ⟨hall, hstop⟩ := hpath.invariant (P := Bounded b) (fun s hs => hs.successor)
      (hseat.dispatched h.toFramed hstart)
    have hhands := handsOn_path hpath
    have hsp : start.machine.cpu.registers.sp = r.get k.memory .sp := by
      rw [hstart.cpu]
      rfl
    rw [happly] at hconfig'
    rw [hmoments, happly]
    refine ⟨fun m hm => ?_, _, hsp ▸ hhands, fun halive => ?_⟩
    · obtain ⟨s, hs, rfl⟩ := List.mem_map.mp hm
      exact hall s hs
    -- A process that lives on has been put aside.
    have hnodup := h.ledger.nodup
    rw [List.append_nil, List.cons_append, List.nodup_cons] at hnodup
    have haside := hleft.putAside ((hplaced.mem_iff hnodup.1).mp (h'.alive_iff.mp halive))
    have hwithin := h.ledger.within h.fits (x := r) (by simp)
    have hlasting : ∀ s, s.isLasting = true → r.get k'.memory s = r.get k.memory s := fun s hs =>
      hstart.get_lasting h.valid.layout hwithin hcontained haside hs
    refine ⟨hseat.congr hconfig' (hlasting _ rfl) (hlasting _ rfl) ?_, haside.saved.sp⟩
    rw [haside.saved.sp]
    exact hstop.admits
  · have hturn : op = .cycle → k.isNext r = false := fun hop =>
      Bool.eq_false_iff.mpr fun hnext => hown ⟨hop, hnext⟩
    rw [h.own_nil hturn]
    refine ⟨by simp, _, rfl, fun halive => ?_⟩
    have hpass := h.passage hr hturn halive
    have hsp := hpass.slots .sp rfl (by simp)
    refine ⟨hseat.congr hconfig' (hpass.slots _ rfl (by simp))
      (hpass.slots _ rfl (by simp)) ?_, hsp⟩
    rw [hsp]
    exact hseat.admits

/-- A process that lives on stays on its stack: `Seated k' r b`. -/
theorem Lives.seated (h : Lives r k k') (hk : Reachable config catalog k) (hr : k.Alive r)
    (hseat : Seated k r b) : Seated k' r b := by
  induction h with
  | refl => exact hseat
  | step h op alive ih =>
    obtain ⟨-, _, -, hgo⟩ := ih.apply (h.reachable hk) (h.alive hr) op
    exact (hgo alive).1

/-- **A history** of a process that lives: all its instructions, `own r (k.trace ops)`, find it on
    its stack, and hand the stack pointer on. -/
theorem Seated.after (hseat : Seated k r b) (hk : Reachable config catalog k) {ops : List Operation}
    (hr : k.Alive r) (hlives : AliveBefore r k ops) :
    (∀ m ∈ own r (k.trace ops), Bounded b m.machine) ∧
      ∃ sp, HandsOn (r.get k.memory .sp) (own r (k.trace ops)) sp
        ∧ ((k.after ops).Alive r →
          Seated (k.after ops) r b ∧ r.get (k.after ops).memory .sp = sp) := by
  induction ops generalizing k with
  | nil => exact ⟨by simp [trace, own], _, rfl, fun _ => ⟨hseat, rfl⟩⟩
  | cons op ops ih =>
    obtain ⟨hr', hlives⟩ := hlives
    obtain ⟨hfirst, sp, hhands, hgo⟩ := hseat.apply hk hr op
    rw [trace, own_append]
    cases ops with
    | nil =>
      refine ⟨?_, sp, ?_, hgo⟩
      · simpa [trace, own] using hfirst
      · simpa [trace, own] using hhands
    | cons op' ops =>
      -- The process lives before the next operation.
      obtain ⟨hseat', hsp⟩ := hgo hlives.1
      obtain ⟨hrest, sp', hhands', hend⟩ := ih hseat' (hk.apply op) hlives.1 hlives
      refine ⟨fun m hm => ?_, sp', handsOn_append.mpr ⟨sp, hhands, hsp ▸ hhands'⟩, hend⟩
      rcases List.mem_append.mp hm with hm | hm
      · exact hfirst m hm
      · exact hrest m hm

/-- **Stacks are confined.**  Every process that lives in a kernel that comes about was created there, and
    has got a block of the user pool as its stack.  As long as it lives, its record tells this stack and a
    stack pointer in it or one below it, and with the latter it goes on: in any history, each of its
    instructions starts with the stack pointer that the one before has left.  It is confined to the stack
    by all of them.  If some of them, one after the other, push words and then pop as many, and nothing
    else happens to the words in between, then the words come back in the reverse order, and the stack
    pointer is what it was. -/
theorem stack_confined (hk : Reachable config catalog k) (hr : k.Alive r) {ops : List Operation}
    (hlives : AliveBefore r k ops) :
    ∃ k₀ program priority k₁ stack p m, Reachable config catalog k₀
      ∧ exec (Kernel.create program priority) k₀ = (.ok r, k₁) ∧ Lives r k₁ k
      ∧ (k₀.userPool.allocate k₀.memory config.stackSize).outcome = .ok (stack, p, m) ∧
      let b := StackBounds.ofSize stack.toWord config.stackSize
      b.base.toInt = stack.index ∧ b.limit.toInt = stack.index + config.stackSize.toInt - 1
        ∧ r.get k.memory .stackStart = stack.toWord ∧ r.get k.memory .stackSize = config.stackSize
        ∧ b.Admits (r.get k.memory .sp)
        ∧ (∃ sp, HandsOn (r.get k.memory .sp) (own r (k.trace ops)) sp
          ∧ ((k.after ops).Alive r → r.get (k.after ops).memory .sp = sp))
        ∧ (∀ m ∈ own r (k.trace ops), m.Confined b)
        ∧ ∀ part, part <:+: own r (k.trace ops) → ∀ first ∈ part.head?, ∀ last ∈ part.getLast?,
          ∀ vs ws : List Word, vs.length = ws.length →
          part.filterMap Moment.event? = vs.map .pushed ++ ws.map .popped →
          LeftAlone first.machine.cpu.registers.sp.toInt part →
          ws = vs.reverse ∧ last.after.cpu.registers.sp = first.machine.cpu.registers.sp := by
  -- The stack is in the record once the process is created, and stays there.
  obtain ⟨k₀, program, priority, k₁, hk₀, hcreate, hold, hk₁, halive₁, hconfig₁, hnew⟩ :=
    hk.exists_newProcess hr
  obtain ⟨hconfig, -, free, ready, waiting, h₀⟩ := hk₀.atRest
  obtain ⟨stack, p, m, hstack, -⟩ := hnew.stack
  obtain ⟨hseat₁, hbase, hlimit, hstart, hsize⟩ := hnew.seated h₀.toFramed hconfig₁ hstack
  rw [hconfig] at hseat₁ hbase hlimit hsize hstack
  have hseat : Seated k r (.ofSize stack.toWord config.stackSize) := hold.seated hk₁ halive₁ hseat₁
  obtain ⟨hbounded, sp, hhands, hgo⟩ := hseat.after hk hr hlives
  refine ⟨k₀, program, priority, k₁, stack, p, m, hk₀, hcreate, hold, hstack, hbase, hlimit,
    (hold.get_lasting hk₁ halive₁ rfl).trans hstart, (hold.get_lasting hk₁ halive₁ rfl).trans hsize,
    hseat.admits, ⟨sp, hhands, fun halive => (hgo halive).2⟩,
    fun m hm => (hbounded m hm).confined, fun part hpart first hfirst last hlast vs ws hlen hevents
      halone => ?_⟩
  -- A part of the instructions hands the stack pointer on as well.
  obtain ⟨before, behind', hown⟩ := hpart
  rw [← hown] at hhands hbounded
  obtain ⟨q', hfront, -⟩ := handsOn_append.mp hhands
  obtain ⟨q, -, hmiddle⟩ := handsOn_append.mp hfront
  obtain ⟨rest, rfl⟩ := List.head?_eq_some_iff.mp hfirst
  obtain ⟨rfl, -⟩ := id hmiddle
  obtain ⟨hwords, hsp⟩ := hmiddle.lifo (fun m hm => hbounded m (by simp only [List.mem_append]; tauto))
    halone (show _ = _ + (([] : List Word).length : Int) by simp) (fun m hm => by
      obtain rfl := Option.some.inj hm
      exact ⟨by simp, trivial⟩) hevents (by simpa using hlen.symm)
  rw [List.append_nil] at hwords
  exact ⟨hwords, (hmiddle.last hlast).trans (Int64.toInt_inj.mp hsp)⟩

/-- A process pushes a word, pops it and halts. -/
theorem stack_confined_push :
    let config : Config := { layout := ⟨⟨0, 9⟩, ⟨10, 29⟩, ⟨30, 89⟩⟩, stackSize := 2 }
    let catalog := Catalog.ofList [("push", ⟨[(0, 106000), (1, 7), (2, 111200), (3, 0)], 0⟩)]
    let r : Record := ⟨⟨30, by decide⟩⟩
    ∃ k, Reachable config catalog k ∧ k.Alive r ∧ AliveBefore r k [.cycle]
      ∧ (own r (k.trace [.cycle])).map Moment.event? = [some (.pushed 7), some (.popped 7), none]
      ∧ ∃ stack : Address, ∀ m ∈ own r (k.trace [.cycle]), m.Confined (.ofSize stack.toWord 2) := by
  intro config catalog r
  obtain ⟨k₀, hboot, hready, hevents⟩ : ∃ k₀, (boot config catalog).outcome = .ok k₀ ∧
      let k := (exec (Kernel.create "push" 1) k₀).2
      k.isReady r = true ∧ (own r (k.trace [.cycle])).map Moment.event?
        = [some (.pushed 7), some (.popped 7), none] := exists_boot (by decide +kernel)
  have hk := (Reachable.boot hboot).create "push" 1
  have hlives : AliveBefore r (exec (Kernel.create "push" 1) k₀).2 [.cycle] := ⟨.inl hready, trivial⟩
  obtain ⟨-, -, -, -, stack, -, -, -, -, -, -, -, -, -, -, -, -, hconfined, -⟩ :=
    stack_confined hk (.inl hready) hlives
  exact ⟨_, hk, .inl hready, hlives, hevents, stack, hconfined⟩

end Kernel

end Timeshare
