import Timeshare.Process.Record
import Timeshare.Proofs.Action
import Timeshare.Proofs.Memory

namespace Timeshare

/-!
# Process records in memory

A record that lies in a region has all its words, and its slots are different words.

* `Record.Within r region` — the record lies in the region; this is what `Record.ofAddress` checks
  (`Record.ofAddress_eq_ok_iff`).
* `Record.get_set_self`, `Record.get_set_of_ne`, `Record.get_congr` — reading a slot after a write to
  it, to another slot of the record, and to words outside the record.
* `Record.sameOn_set` and its companions — every operation on a record writes to its own words only.
* `Record.Kept rs m n`, `Record.Untouched rs m n` — from the memory `m` to `n`, nothing but the links of
  the records `rs` changes, or nothing at all.
* `Record.OnlySlots slots m n` — from the memory `m` to `n`, nothing but the given slots changes.
* `Record.get_saveContext` — saving the registers leaves the other slots alone.
* `Record.Saved r g m` — the registers `g` stand in the record `r`; this is so once they are saved, and
  then they are restored (`Record.saved_saveContext`, `Record.Saved.restoreContext`).
-/

/-- Different slots are different words: `s.offset = s'.offset` only if `s = s'`. -/
theorem Slot.offset_inj {s s' : Slot} : s.offset = s'.offset ↔ s = s' := by
  constructor
  · intro h
    cases s <;> cases s' <;>
      simp only [offset, Slot.gpr.injEq, reduceCtorEq, Fin.ext_iff] at h ⊢ <;> omega
  · rintro rfl
    rfl

/-- A slot that is no part of the saved registers. -/
def Slot.isKernels : Slot → Bool
  | gpr _ | sp | pc | psr => false
  | _ => true

/-- A slot that changes whenever a process moves: its link, its state, and what it waits for. -/
def Slot.isScheduling : Slot → Bool
  | next | state | reason => true
  | _ => false

/-- A slot that stays when a process moves is none of `next`, `state` and `reason`. -/
theorem Slot.ne_of_isScheduling {s : Slot} (h : s.isScheduling = false) :
    s ≠ .next ∧ s ≠ .state ∧ s ≠ .reason := by
  refine ⟨?_, ?_, ?_⟩ <;>
    · rintro rfl
      exact absurd h (by decide)

/-- A slot that a process keeps all its life. -/
def Slot.isLasting : Slot → Bool
  | pid | priority | stackStart | stackSize => true
  | _ => false

/-- A slot that a process keeps all its life is one of the kernel's, `isKernels`, and stays when the
    process moves, since it is not `isScheduling`. -/
theorem Slot.isScheduling_of_isLasting {s : Slot} (h : s.isLasting = true) :
    s.isKernels = true ∧ s.isScheduling = false := by
  cases s <;> simp_all [isLasting, isKernels, isScheduling]

/-- The saved registers, with `isKernels = false`, are not touched when a process moves. -/
theorem Slot.isScheduling_of_isKernels {s : Slot} (h : s.isKernels = false) :
    s.isScheduling = false := by
  cases s <;> simp_all [isKernels, isScheduling]

namespace Record

/-- The words of a record. -/
def span (r : Record) : Span := ⟨r.address.index, 22⟩

/-- A record lies in a region. -/
structure Within (r : Record) (region : Region) : Prop where
  start_le : region.start.toNat ≤ r.address.index
  le_last : r.address.index + 22 ≤ region.last.toNat + 1

variable {r : Record} {region : Region} {m n : Memory} {s s' : Slot} {w : Word} {i : Nat}

/-! ### Where a record lies -/

/-- The record `r` is found at the address `a` iff it is at `a` and lies in the region. -/
theorem ofAddress_eq_ok_iff (hr : region.Fits) {a : Address} :
    ofAddress a region = .ok r ↔ r.address = a ∧ r.Within region := by
  have hsize : recordSize.toInt = 22 := by decide
  -- The check of the region is all that is asked of an address.
  have hspan : region.containsSpan a.toWord recordSize = true ↔ Within ⟨a⟩ region := by
    rw [hr.containsSpan_toWord, hsize]
    constructor
    · rintro ⟨-, hs, hl⟩
      exact ⟨hs, by show a.index + 22 ≤ _; omega⟩
    · rintro ⟨hs, hl⟩
      have hl' : a.index + 22 ≤ region.last.toNat + 1 := hl
      exact ⟨by omega, hs, by omega⟩
  -- Where the check succeeds the word is one of an address, so that nothing else can fail.
  unfold ofAddress ofWord
  split
  · rename_i h
    rw [Address.ofWord, Address.ofWord?_toWord]
    have hin := hspan.mp h
    constructor
    · intro hok
      obtain rfl := Except.ok.inj hok
      exact ⟨rfl, hin⟩
    · rintro ⟨rfl, -⟩
      rfl
  · rename_i h
    constructor
    · intro hok
      exact absurd hok (by simp)
    · rintro ⟨rfl, hin⟩
      exact absurd (hspan.mpr hin) h

/-- A record that lies in the region is found at its address:
    `Record.ofAddress r.address region = .ok r`. -/
theorem Within.ofAddress (hr : region.Fits) (h : r.Within region) :
    Record.ofAddress r.address region = .ok r := (ofAddress_eq_ok_iff hr).mpr ⟨rfl, h⟩

theorem span_pos (r : Record) : 0 < r.span.size := Nat.zero_lt_succ 21

/-- Every word of a record in a region is one of the region: `a ∈ r.span` gives `a ∈ region`. -/
theorem Within.mem_of_span (h : r.Within region) {a : Address} (ha : a ∈ r.span) : a ∈ region := by
  rw [Span.mem_iff] at ha
  have hs : r.span.start = r.address.index := rfl
  have hz : r.span.size = 22 := rfl
  have := h.start_le
  have := h.le_last
  rw [Region.mem_iff]
  omega

/-- The word `i` of a record is at the address `a` iff `a.index = r.address.index + i`. -/
theorem wordAddress_eq_some_iff {a : Address} :
    r.wordAddress i = some a ↔ a.index = r.address.index + i := by
  rw [wordAddress, Address.ofInt?_eq_some_iff]
  omega

/-- The slots of a record are words of `r.span`. -/
theorem mem_span_of_wordAddress {a : Address} (h : r.wordAddress s.offset = some a) :
    a ∈ r.span := by
  rw [wordAddress_eq_some_iff] at h
  have := s.offset_lt
  rw [Span.mem_iff, h]
  show r.address.index ≤ _ ∧ _ < r.address.index + 22
  omega

/-- All words of a record are in memory. -/
def InMemory (r : Record) : Prop := r.address.index + 22 ≤ memorySize

/-- A record in a region that fits has all its words in memory. -/
theorem Within.inMemory (hr : region.Fits) (h : r.Within region) : r.InMemory := by
  have := hr.last_lt
  have := h.le_last
  unfold InMemory
  omega

/-- A record that is found in a region that fits has all its words in memory. -/
theorem InMemory.of_ofAddress {a : Address} (hr : region.Fits) (h : ofAddress a region = .ok r) :
    r.InMemory := ((ofAddress_eq_ok_iff hr).mp h).2.inMemory hr

/-- In a region that fits, every slot of a record has an address: `r.wordAddress s.offset`
    exists. -/
theorem Within.exists_wordAddress (hr : region.Fits) (h : r.Within region) (s : Slot) :
    ∃ a, r.wordAddress s.offset = some a :=
  Option.isSome_iff_exists.mp (isSome_wordAddress (h.inMemory hr) s.offset_lt)

/-! ### Reading and writing slots -/

/-- A slot depends on the words of its record alone: memories that agree on `r.span` give the
    same. -/
theorem get_congr (h : Memory.SameOn (· ∈ r.span) m n) (s : Slot) : r.get m s = r.get n s := by
  unfold get
  cases ha : r.wordAddress s.offset with
  | none => rfl
  | some a => exact h a (mem_span_of_wordAddress ha)

/-- The link `r.next` depends on the words of its record alone. -/
theorem next_congr (h : Memory.SameOn (· ∈ r.span) m n) : r.next m = r.next n := by
  rw [next, next, get_congr h]

/-- Writing `w` to the slot `s` puts it where `s` is read. -/
theorem get_set_self (hr : region.Fits) (h : r.Within region) : r.get (r.set m s w) s = w := by
  obtain ⟨a, ha⟩ := h.exists_wordAddress hr s
  simp only [get, set, setWord, ha, Option.map_some, Option.getD_some, Memory.read_write_self]

/-- Writing the slot `s` leaves every other slot `s'` of the record. -/
theorem get_set_of_ne (hne : s ≠ s') : r.get (r.set m s w) s' = r.get m s' := by
  unfold get set setWord
  cases ha : r.wordAddress s.offset with
  | none => rfl
  | some a =>
    cases ha' : r.wordAddress s'.offset with
    | none => rfl
    | some a' =>
      -- Different slots are different words, also where the record is cut off by the end of memory.
      have hoff : s.offset ≠ s'.offset := fun h => hne (Slot.offset_inj.mp h)
      rw [wordAddress_eq_some_iff] at ha ha'
      have hindex : a ≠ a' := fun h => hoff (by rw [h] at ha; omega)
      simp only [Option.map_some, Option.getD_some, Memory.read_write_of_ne _ _ hindex]

/-! ### Records that are kept -/

/-- The words of a record behind its link, those without a meaning included. -/
def Body (r : Record) (a : Address) : Prop := a ∈ r.span ∧ a ≠ r.address

/-- A slot that is not the link depends on `r.Body`, the words behind the link, alone. -/
theorem get_congr_body (h : Memory.SameOn r.Body m n) (hs : s ≠ .next) : r.get n s = r.get m s := by
  unfold get
  cases ha : r.wordAddress s.offset with
  | none => rfl
  | some a =>
    have hne : a ≠ r.address := by
      rintro rfl
      rw [wordAddress_eq_some_iff] at ha
      exact hs (Slot.offset_inj.mp (show s.offset = Slot.next.offset by
        show s.offset = 0
        omega))
    exact (h a ⟨mem_span_of_wordAddress ha, hne⟩).symm

/-- Of some records, nothing but the links has changed. -/
def Kept (rs : List Record) (m n : Memory) : Prop := ∀ r ∈ rs, Memory.SameOn r.Body m n

section Kept

variable {rs rs' : List Record} {o : Memory}

@[refl] theorem Kept.refl (rs : List Record) (m : Memory) : Kept rs m m :=
  fun _ _ => Memory.SameOn.refl _ m

/-- Being kept is transitive. -/
theorem Kept.trans (h : Kept rs m n) (h' : Kept rs n o) : Kept rs m o :=
  fun r hr => (h r hr).trans (h' r hr)

/-- Being kept is symmetric. -/
theorem Kept.symm (h : Kept rs m n) : Kept rs n m := fun r hr => (h r hr).symm

/-- The slots of a record that is kept are the same, its link apart: `r.get n s = r.get m s` for
    `s ≠ .next`. -/
theorem Kept.get (h : Kept rs m n) (r : Record) (hr : r ∈ rs) (s : Slot) (hs : s ≠ .next) :
    r.get n s = r.get m s := get_congr_body (h r hr) hs

/-- Keeping the records `rs` keeps any of them. -/
theorem Kept.mono (h : Kept rs m n) (hsub : ∀ r ∈ rs', r ∈ rs) : Kept rs' m n :=
  fun r hr => h r (hsub r hr)

/-- Of some records, no word has changed. -/
def Untouched (rs : List Record) (m n : Memory) : Prop := ∀ r ∈ rs, Memory.SameOn (· ∈ r.span) m n

@[refl] theorem Untouched.refl (rs : List Record) (m : Memory) : Untouched rs m m :=
  fun _ _ => Memory.SameOn.refl _ m

/-- Being untouched is transitive. -/
theorem Untouched.trans (h : Untouched rs m n) (h' : Untouched rs n o) : Untouched rs m o :=
  fun r hr => (h r hr).trans (h' r hr)

/-- Leaving the records `rs` untouched leaves any of them untouched. -/
theorem Untouched.mono (h : Untouched rs m n) (hsub : ∀ r ∈ rs', r ∈ rs) : Untouched rs' m n :=
  fun r hr => h r (hsub r hr)

/-- Records that are `Untouched` are `Kept`. -/
theorem Untouched.kept (h : Untouched rs m n) : Kept rs m n :=
  fun r hr => (h r hr).mono fun _ ha => ha.1

end Kept

/-! ### Operations on a record -/

/-- Writing one of the `22` words changes nothing outside `r.span`. -/
theorem sameOn_setWord (hi : i < 22) : Memory.SameOn (· ∉ r.span) m (r.setWord m i w) := by
  unfold setWord
  split
  · rename_i a ha
    rw [wordAddress_eq_some_iff] at ha
    refine Memory.sameOn_not_write (p := (· ∈ r.span)) ?_
    rw [Span.mem_iff, ha]
    show r.address.index ≤ _ ∧ _ < r.address.index + 22
    omega
  · exact Memory.SameOn.refl _ m

/-- Writing a slot changes nothing outside `r.span`. -/
theorem sameOn_set : Memory.SameOn (· ∉ r.span) m (r.set m s w) := sameOn_setWord s.offset_lt

/-- The link is the first word of a record, at `r.address`, and writing it changes no other. -/
theorem sameOn_setNext {l : Link} : Memory.SameOn (· ≠ r.address) m (r.setNext m l) := by
  unfold setNext set setWord
  split
  · rename_i a ha
    obtain rfl : a = r.address := by
      rw [wordAddress_eq_some_iff] at ha
      exact Address.ext ha
    exact Memory.sameOn_write (not_not_intro rfl)
  · exact Memory.SameOn.refl _ m

/-- Writing the two slots of the stack changes nothing outside `r.span`. -/
theorem sameOn_setStack {start : Address} {size : Word} :
    Memory.SameOn (· ∉ r.span) m (r.setStack m start size) := sameOn_set.trans sameOn_set

/-- Writing several slots, one after the other, changes nothing outside `r.span`. -/
theorem sameOn_foldl_set {α : Type} (slot : α → Slot) (word : α → Word) (xs : List α) :
    Memory.SameOn (· ∉ r.span) m (xs.foldl (fun m x => r.set m (slot x) (word x)) m) := by
  induction xs generalizing m with
  | nil => exact Memory.SameOn.refl _ m
  | cons x xs ih => exact sameOn_set.trans ih

/-- Writing several slots leaves a slot `s` that is none of them. -/
theorem get_foldl_set {α : Type} {slot : α → Slot} (word : α → Word) {xs : List α}
    (h : ∀ x ∈ xs, slot x ≠ s) :
    r.get (xs.foldl (fun m x => r.set m (slot x) (word x)) m) s = r.get m s := by
  induction xs generalizing m with
  | nil => rfl
  | cons x xs ih =>
    rw [List.foldl_cons, ih fun y hy => h y (List.mem_cons_of_mem _ hy)]
    exact get_set_of_ne (h x List.mem_cons_self)

/-- Clearing a record changes nothing outside `r.span`. -/
theorem sameOn_clear : Memory.SameOn (· ∉ r.span) m (r.clear m) := by
  -- One word after the other, by induction on the list of the words that are left.
  have h : ∀ (is : List Nat) (m : Memory), (∀ i ∈ is, i < 22) →
      Memory.SameOn (· ∉ r.span) m (is.foldl (r.setWord · · 0) m) := by
    intro is
    induction is with
    | nil => exact fun m _ => Memory.SameOn.refl _ m
    | cons i is ih =>
      intro m his
      exact (sameOn_setWord (his i List.mem_cons_self)).trans
        (ih _ fun j hj => his j (List.mem_cons_of_mem _ hj))
  exact h _ m fun i hi => List.mem_range.mp hi

/-- Making a record changes nothing outside `r.span`. -/
theorem sameOn_init {pid priority : Word} :
    Memory.SameOn (· ∉ r.span) m (r.init m pid priority) := by
  unfold init setNext setState setReason
  exact ((((sameOn_clear.trans sameOn_set).trans sameOn_set).trans sameOn_set).trans
    sameOn_set).trans sameOn_set

/-- A new record has the number that it was made with:
    `r.get (r.init m pid priority) .pid = pid`. -/
theorem get_init_pid (hr : region.Fits) (h : r.Within region) {pid priority : Word} :
    r.get (r.init m pid priority) .pid = pid := by
  unfold init setState setReason
  rw [get_set_of_ne (by simp), get_set_of_ne (by simp), get_set_of_ne (by simp), get_set_self hr h]

/-- Saving the registers changes nothing outside `r.span`. -/
theorem sameOn_saveContext {c : Cpu} : Memory.SameOn (· ∉ r.span) m (r.saveContext m c) := by
  unfold saveContext
  exact (((sameOn_foldl_set .gpr c.registers.get Register.all).trans sameOn_set).trans
    sameOn_set).trans sameOn_set

/-- Saving the registers leaves a slot `s` with `s.isKernels`, which the kernel knows the process
    by. -/
theorem get_saveContext {c : Cpu} (hs : s.isKernels = true) :
    r.get (r.saveContext m c) s = r.get m s := by
  -- Every slot that is saved is one of the program.
  have hne : ∀ s' : Slot, s'.isKernels = false → s' ≠ s := by
    rintro s' hs' rfl
    rw [hs] at hs'
    exact absurd hs' (by simp)
  unfold saveContext
  rw [get_set_of_ne (hne _ rfl), get_set_of_ne (hne _ rfl), get_set_of_ne (hne _ rfl)]
  exact get_foldl_set c.registers.get fun x _ => hne _ rfl

/-! ### Changes of single slots -/

/-- At an address stands a slot of a record. -/
def Holds (r : Record) (s : Slot) (a : Address) : Prop := r.wordAddress s.offset = some a

/-- From one memory to another, given slots of records change, and nothing else. -/
def OnlySlots (slots : List (Record × Slot)) (m n : Memory) : Prop :=
  Memory.SameOn (fun a => ∀ x ∈ slots, ¬ x.1.Holds x.2 a) m n

section OnlySlots

variable {xs ys : List (Record × Slot)} {o : Memory}

theorem OnlySlots.refl (xs : List (Record × Slot)) (m : Memory) : OnlySlots xs m m :=
  Memory.SameOn.refl _ m

/-- If only the slots `xs` change, then only slots of a longer list `ys` do. -/
theorem OnlySlots.mono (h : OnlySlots xs m n) (hsub : ∀ x ∈ xs, x ∈ ys) : OnlySlots ys m n :=
  Memory.SameOn.mono h fun _ ha x hx => ha x (hsub x hx)

/-- If the slots `xs` change and then the slots `ys`, then all in all `xs ++ ys` do. -/
theorem OnlySlots.trans (h : OnlySlots xs m n) (h' : OnlySlots ys n o) :
    OnlySlots (xs ++ ys) m o :=
  Memory.SameOn.trans (h.mono fun _ hx => List.mem_append_left _ hx)
    (h'.mono fun _ hx => List.mem_append_right _ hx)

/-- If only slots of `r` change, then nothing outside `r.span` does. -/
theorem OnlySlots.sameOn (h : OnlySlots xs m n) (hxs : ∀ x ∈ xs, x.1 = r) :
    Memory.SameOn (· ∉ r.span) m n :=
  Memory.SameOn.mono h fun _ ha x hx hholds => ha (hxs x hx ▸ mem_span_of_wordAddress hholds)

/-- Writing the slot `s` changes only this slot. -/
theorem onlySlots_set : OnlySlots [(r, s)] m (r.set m s w) := by
  unfold set setWord
  split
  · rename_i a ha
    exact Memory.sameOn_write fun hnot => hnot (r, s) List.mem_cons_self ha
  · exact OnlySlots.refl _ m

/-- If only the slots `xs` of separate records change, then a slot `s` of a record `r` stays, as
    long as no slot of `xs` is `s`. -/
theorem OnlySlots.get {rs : List Record} (h : OnlySlots xs m n) (hsep : Separate span rs)
    (hr : r ∈ rs) (hxs : ∀ x ∈ xs, x.1 ∈ rs ∧ x.2 ≠ s) :
    r.get n s = r.get m s := by
  unfold Record.get
  cases ha : r.wordAddress s.offset with
  | none => rfl
  | some a =>
    refine (h a fun x hx hholds => ?_).symm
    obtain ⟨hmem, hne⟩ := hxs x hx
    -- Either it is another slot of the record, or one of a record that is apart from it.
    by_cases hxr : x.1 = r
    · rw [Holds, hxr] at hholds
      rw [wordAddress_eq_some_iff] at ha hholds
      exact hne (Slot.offset_inj.mp (by omega))
    · exact (hsep.apart hmem hr hxr).not_mem (mem_span_of_wordAddress hholds)
        (mem_span_of_wordAddress ha)

end OnlySlots

/-! ### Saved registers -/

/-- Where words are written to different slots, each `slot x` has its `word x` afterwards. -/
theorem get_foldl_set_self {α : Type} {slot : α → Slot} (hslot : ∀ x y, slot x = slot y → x = y)
    (word : α → Word) (hr : region.Fits) (h : r.Within region) {xs : List α} {x : α} (hx : x ∈ xs) :
    r.get (xs.foldl (fun m x => r.set m (slot x) (word x)) m) (slot x) = word x := by
  induction xs generalizing m with
  | nil => exact absurd hx (by simp)
  | cons y xs ih =>
    rw [List.foldl_cons]
    by_cases hmem : x ∈ xs
    · exact ih hmem
    · -- The word of `x` is written first, and no other slot is this one.
      obtain rfl : x = y := (List.mem_cons.mp hx).resolve_right hmem
      have hne : ∀ y ∈ xs, slot y ≠ slot x := by
        intro y hy hyx
        rw [hslot y x hyx] at hy
        exact hmem hy
      rw [get_foldl_set word hne, get_set_self hr h]

/-- The registers of a program stand in a record: the general ones, the stack pointer and the program
    counter. -/
structure Saved (r : Record) (g : Registers) (m : Memory) : Prop where
  gpr : ∀ i, r.get m (.gpr i) = g.get i
  sp : r.get m .sp = g.sp
  pc : r.get m .pc = g.pc

/-- Saved registers stay where they are as long as their slots, those with `isKernels = false`,
    do. -/
theorem Saved.congr {g : Registers} (h : r.Saved g m)
    (hn : ∀ s, s.isKernels = false → r.get n s = r.get m s) : r.Saved g n :=
  ⟨fun i => (hn _ rfl).trans (h.gpr i), (hn _ rfl).trans h.sp, (hn _ rfl).trans h.pc⟩

/-- Saving the registers of the processor `c` leaves `r.Saved c.registers`. -/
theorem saved_saveContext (hr : region.Fits) (h : r.Within region) (c : Cpu) :
    r.Saved c.registers (r.saveContext m c) := by
  have hall : ∀ i : Register, i ∈ Register.all := by decide
  unfold saveContext
  refine ⟨fun i => ?_, ?_, ?_⟩
  · rw [get_set_of_ne (by simp), get_set_of_ne (by simp), get_set_of_ne (by simp)]
    exact get_foldl_set_self (fun _ _ hxy => Slot.gpr.inj hxy) _ hr h (hall i)
  · rw [get_set_of_ne (by simp), get_set_of_ne (by simp), get_set_self hr h]
  · rw [get_set_of_ne (by simp), get_set_self hr h]

/-- What is restored depends on the slots that stay when a process moves, those with
    `isScheduling = false`. -/
theorem restoreContext_congr (h : ∀ s, s.isScheduling = false → r.get n s = r.get m s) (c : Cpu) :
    r.restoreContext n c = r.restoreContext m c := by
  have hgprs : r.gprs n = r.gprs m := by
    unfold gprs
    congr 1
    funext i
    exact h _ rfl
  rw [restoreContext, restoreContext, hgprs, h .sp rfl, h .pc rfl, h .stackStart rfl,
    h .stackSize rfl]

/-- **What was saved is restored:** the registers `g`, with the privilege level of programs and the
    window of the stack that the record tells. -/
theorem Saved.restoreContext {g : Registers} (h : r.Saved g m) (c : Cpu) :
    r.restoreContext m c = { c with
      registers := { c.registers with gpr := g.gpr, sp := g.sp, pc := g.pc, privilege := .user }
      stack := some (.ofSize (r.get m .stackStart) (r.get m .stackSize)) } := by
  have hgpr : r.gprs m = g.gpr := by
    ext i hi
    rw [gprs, Vector.getElem_ofFn]
    exact h.gpr ⟨i, hi⟩
  rw [Record.restoreContext, hgpr, h.sp, h.pc]

end Record

end Timeshare
