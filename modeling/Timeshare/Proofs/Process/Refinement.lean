import Timeshare.Proofs.Process.InPlace
import Timeshare.Proofs.Process.Order

namespace Timeshare

/-!
# Queues as lists

A queue stands for the list of its records, and its operations for operations on lists: the ready queue
for a list in the order of the priorities, the wait queue for a stack from which records are also taken
by number.  All this holds for queues of any region, as long as their records lie there.

* `Linked region m l rs` — from the link `l` on, the records are `rs`; they lie in the region, all their
  words are in memory, and they share none.
* `Entered`, `Left` — what is so when a record has entered a queue, or has left one.
* `ReadyQueue.insertAll`, `ReadyQueue.Drains` — a queue is filled, and taken from until it is empty.
* `ReadyQueue.refines_sorted_list`, `WaitQueue.refines_stack` — the operations on lists, what they change
  in memory, and that nothing changes where they fail.
-/

/-! ### Records that lie in a region -/

/-- The region that is all of memory. -/
def Region.memory : Region := ⟨0, 9999⟩

theorem Region.memory_fits : Region.memory.Fits := ⟨by decide, by decide⟩

namespace Record

variable {region : Region} {r : Record}

/-- A record lies in the region that is all of memory iff all its words are in memory. -/
theorem within_memory_iff : r.Within .memory ↔ r.InMemory := by
  have hstart : Region.memory.start.toNat = 0 := rfl
  have hlast : Region.memory.last.toNat + 1 = memorySize := rfl
  constructor
  · exact Within.inMemory Region.memory_fits
  · intro h
    exact ⟨by rw [hstart]; exact Nat.zero_le _, hlast ▸ h⟩

/-- A record lies in a region, as far as queues ask for it, and all its words are in memory.  The region
    itself may reach beyond memory. -/
structure Lies (region : Region) (r : Record) : Prop where
  found : Record.ofAddress r.address region = .ok r
  inMemory : r.InMemory

/-- In a region that fits, `Lies` is `Within`: nothing else is asked for. -/
theorem lies_iff (hr : region.Fits) : Lies region r ↔ r.Within region :=
  ⟨fun h => ((ofAddress_eq_ok_iff hr).mp h.found).2, fun h => ⟨h.ofAddress hr, h.inMemory hr⟩⟩

/-- A region has room for few records that share no word: `rs.length * 22 ≤ region.length`. -/
theorem length_mul_le (hr : region.Fits) {rs : List Record} (hsep : Separate span rs)
    (hwithin : ∀ r ∈ rs, r.Within region) : rs.length * 22 ≤ region.length.toNat := by
  show rs.length * 22 ≤ region.span.size
  refine hsep.length_mul_le (fun r _ => Nat.le_refl 22) fun r hr' i hi => ?_
  have hstart := (hwithin r hr').start_le
  have hlast := (hwithin r hr').le_last
  have hlen := hr.length_toNat
  rw [Span.mem_words] at hi ⊢
  obtain ⟨hle, hlt⟩ := hi
  have hle' : r.address.index ≤ i := hle
  have hlt' : i < r.address.index + 22 := hlt
  exact ⟨Nat.le_trans hstart hle', by show i < region.start.toNat + region.length.toNat; omega⟩

/-- A record that lies in any region lies in all of memory. -/
theorem Lies.within_memory (h : Lies region r) : r.Within .memory :=
  within_memory_iff.mpr h.inMemory

/-- A record that lies in any region is found in all of memory. -/
theorem Lies.found_memory (h : Lies region r) : Record.ofAddress r.address .memory = .ok r :=
  h.within_memory.ofAddress Region.memory_fits

/-- A record that lies in the region passes the check: `checkMember region r` ends with `.ok ()`. -/
theorem Lies.checkMember (h : Lies region r) : (checkMember region r).outcome = .ok () := by
  rw [Timeshare.checkMember, h.found]
  rfl

end Record

/-! ### Linked lists of records -/

/-- From a link on, a list of records is threaded through memory.  They lie in a region, and no two of
    them share a word. -/
structure Linked (region : Region) (m : Memory) (l : Link) (rs : List Record) : Prop where
  chain : Chain Record.address (fun r next => r.next m = .ok next) l rs .none
  lies : ∀ r ∈ rs, r.Lies region
  separate : Separate Record.span rs

section Linked

variable {region : Region} {m : Memory} {l : Link} {rs : List Record} {r : Record}

/-- A linked list of any region is a chain in all of memory. -/
theorem Linked.recordChain (h : Linked region m l rs) : RecordChain .memory m l rs :=
  h.chain.imp fun r hr _ hnext => ⟨(h.lies r hr).within_memory, hnext⟩

/-- A chain in all of memory is a linked list of a region if its records lie there and share no
    word. -/
theorem RecordChain.linked (h : RecordChain .memory m l rs) (hlies : ∀ r ∈ rs, r.Lies region)
    (hsep : Separate Record.span rs) : Linked region m l rs :=
  ⟨h.imp fun _ _ _ hnode => hnode.link, hlies, hsep⟩

/-- An empty list starts at `none`. -/
theorem linked_nil_iff : Linked region m l [] ↔ l = .none :=
  ⟨fun h => h.chain, fun h => ⟨h, by simp, List.Pairwise.nil⟩⟩

/-- A list that starts at an address `a` has a first record, which is there, and a rest that starts
    at its link. -/
theorem Linked.exists_cons {a : Address} (h : Linked region m (.node a) rs) :
    ∃ r rest next, rs = r :: rest ∧ r.address = a ∧ r.Lies region ∧ r.next m = .ok next
      ∧ Linked region m next rest := by
  obtain ⟨r, rest, next, rfl, hr, hnext, hrest⟩ := h.chain.exists_cons
  obtain ⟨hlies, hlrest⟩ := List.forall_mem_cons.mp h.lies
  exact ⟨r, rest, next, rfl, hr, hlies, hnext, hrest, hlrest, h.separate.tail⟩

/-- No list is longer than memory: its records share no word, so that `rs.length ≤ memorySize`. -/
theorem Linked.length_le (h : Linked region m l rs) : rs.length ≤ memorySize := by
  have hmul : rs.length * 22 ≤ memorySize := Record.length_mul_le Region.memory_fits h.separate
    fun r hr => (h.lies r hr).within_memory
  omega

/-- **Reading a queue.**  Where the region fits, `rs` is linked from `l` on iff `records` gives `rs`
    and no two of them share a word. -/
theorem linked_iff_records (hr : region.Fits) :
    Linked region m l rs ↔ records region m l = .ok rs ∧ Separate Record.span rs := by
  rw [records_eq_ok_iff hr]
  constructor
  · intro h
    have hwithin : ∀ r ∈ rs, r.Within region := fun r hr' => (Record.lies_iff hr).mp (h.lies r hr')
    refine ⟨⟨h.chain.imp fun r hr' _ hnext => ⟨hwithin r hr', hnext⟩, ?_⟩, h.separate⟩
    exact (Nat.le_div_iff_mul_le (by decide)).mpr (Record.length_mul_le hr h.separate hwithin)
  · rintro ⟨⟨hchain, -⟩, hsep⟩
    exact ⟨hchain.imp fun _ _ _ hnode => hnode.link,
      fun r hr' => (Record.lies_iff hr).mpr (hchain.records_within r hr'), hsep⟩

/-- Memory with a queue of three records, at the words 0, 22 and 44, and another record at the word 66.
    Their numbers are 1, 2, 2 and 4, and their priorities 5, 3, 1 and 5. -/
def Linked.sample : Memory :=
  Memory.zero.writeWords 0 [22, 1, 1, 0, 5] |>.writeWords 22 [44, 2, 1, 0, 3]
    |>.writeWords 44 [-1, 2, 1, 0, 1] |>.writeWords 66 [0, 4, 1, 0, 5]

/-- The records of this memory. -/
def Linked.sampleRecord (i : Fin 4) : Record :=
  ⟨⟨22 * i.val, by have := i.isLt; unfold memorySize; omega⟩⟩

/-- The first three records of the sample are linked, in this order. -/
theorem Linked.sample_linked : Linked ⟨0, 87⟩ sample (.node (sampleRecord 0).address)
    [sampleRecord 0, sampleRecord 1, sampleRecord 2] :=
  (linked_iff_records ⟨by decide, by decide⟩).mpr ⟨by decide +kernel, by unfold Separate; decide⟩

/-- The priorities of the four records of the sample. -/
theorem Linked.sample_priorities :
    (sampleRecord 0).priority sample = 5 ∧ (sampleRecord 1).priority sample = 3
      ∧ (sampleRecord 2).priority sample = 1 ∧ (sampleRecord 3).priority sample = 5 := by
  decide +kernel

/-- All four records of the sample lie in the region from `0` to `87`. -/
theorem Linked.sampleRecord_lies (i : Fin 4) : (sampleRecord i).Lies ⟨0, 87⟩ := by
  refine (Record.lies_iff ⟨by decide, by decide⟩).mpr ⟨Nat.zero_le _, ?_⟩
  have hi := i.isLt
  show 22 * i.val + 22 ≤ 88
  omega

end Linked

/-- A record has entered a queue between two parts of its list: it has a new state, and besides its state,
    only its link and that of the record before it have changed. -/
structure Entered (region : Region) (state : ProcessState) (m : Memory) (ahead behind : List Record)
    (p : Record) (l : Link) (m' : Memory) : Prop where
  linked : Linked region m' l (ahead ++ p :: behind)
  state : p.state? m' = some state
  frame : Record.OnlySlots ((p, .state) :: Record.links (p :: ahead.getLast?.toList)) m m'

/-- A record has left a queue from between two parts of its list: its link is ended, and only this link
    and that of the record before it have changed. -/
structure Left (region : Region) (m : Memory) (before after : List Record) (r : Record) (l : Link)
    (m' : Memory) : Prop where
  linked : Linked region m' l (before ++ after)
  next : r.next m' = .ok .none
  frame : Record.OnlySlots (Record.links (r :: before.getLast?.toList)) m m'

/-- A record `p` that enters changes no priority, neither in the queue nor of records that are
    apart: `x.priority m' = x.priority m`. -/
theorem Entered.priority_eq {region : Region} {state : ProcessState} {m m' : Memory}
    {ahead behind all : List Record} {p x : Record} {l : Link}
    (h : Entered region state m ahead behind p l m')
    (hsep : Separate Record.span all) (hsub : ∀ y ∈ ahead ++ p :: behind, y ∈ all) (hx : x ∈ all) :
    x.priority m' = x.priority m := by
  have hp : p ∈ all := hsub p (List.mem_append_right _ List.mem_cons_self)
  refine h.frame.get hsep hx fun y hy => ?_
  rcases List.mem_cons.mp hy with rfl | hy
  · exact ⟨hp, by simp⟩
  · obtain ⟨z, hz, rfl⟩ := List.mem_map.mp hy
    refine ⟨?_, by simp⟩
    rcases List.mem_cons.mp hz with rfl | hz
    · exact hp
    · exact hsub z (List.mem_append_left _ (List.mem_of_getLast? (Option.mem_toList.mp hz)))

/-! ### One operation of a queue -/

section Operations

variable {region : Region} {m : Memory} {l : Link} {rs : List Record} {r p : Record}

/-- The first record leaves a queue: `detachFirst` gives it and ends its link. -/
theorem Linked.detachFirst (h : Linked region m l (r :: rs)) :
    ∃ next, detachFirst region l m = .ok (some (r, next, r.setNext m .none))
      ∧ Left region m [] rs r next (r.setNext m .none) := by
  obtain ⟨hl, hrest⟩ := List.forall_mem_cons.mp h.lies
  obtain ⟨next, hdetach, hchain, -⟩ :=
    detachFirst_cons Region.memory_fits h.recordChain h.separate
  refine ⟨next, ?_, RecordChain.linked hchain hrest h.separate.tail,
    Record.next_setNext Region.memory_fits hl.within_memory, Record.onlySlots_set⟩
  -- The region only matters to the check of the record.
  obtain rfl : l = .node r.address := h.chain.1
  rw [← hdetach, Timeshare.detachFirst, Timeshare.detachFirst, hl.found, hl.found_memory]

namespace ReadyQueue

/-- A search for a place asks no more of its region than that the records lie there: it ends as in
    `.memory`. -/
theorem position_memory (h : Linked region m l rs) (priority : Word) (fuel : Nat)
    (previous : Option Record) :
    position region m priority fuel previous l = position .memory m priority fuel previous l := by
  induction fuel generalizing l rs previous with
  | zero => cases l <;> rfl
  | succ fuel ih =>
    cases l with
    | none => rfl
    | node a =>
      obtain ⟨r, rest, next, rfl, rfl, hr, hnext, hrest⟩ := h.exists_cons
      simp only [position, hr.found, hr.found_memory, hnext, ok_bind, ih hrest]

variable {q : ReadyQueue}

/-- Insertion by priority ends as in `.memory`, up to the region of the queue. -/
theorem insert_memory (h : Linked q.region m q.head rs) (hp : p.Lies q.region) :
    (q.insert m p).outcome
      = (insert ⟨.memory, q.head⟩ m p).outcome.map fun x => (⟨q.region, x.1.head⟩, x.2) := by
  simp only [insert, Attempt.outcome_seq, hp.checkMember,
    outcome_checkMember Region.memory_fits hp.within_memory, ok_bind, Attempt.outcome_ofExcept,
    position_memory h]
  cases position .memory m (p.priority m) memorySize none q.head with
  | error e => rfl
  | ok place =>
    obtain ⟨previous, following⟩ := place
    cases previous <;> rfl

/-- **A record enters** a list in order at its place, behind all records of the same or a higher
    priority. -/
theorem insert_linked (h : Linked q.region m q.head rs)
    (hsorted : rs.Pairwise fun x y => y.priority m ≤ x.priority m) (hp : p.Lies q.region)
    (hapart : ∀ r ∈ rs, p.span.Apart r.span) :
    ∃ ahead behind head m', p.Place m rs ahead behind
      ∧ (q.insert m p).outcome = .ok ({ q with head }, m')
      ∧ Entered q.region .ready m ahead behind p head m' := by
  have hsep : Separate Record.span (p :: rs) := List.pairwise_cons.mpr ⟨hapart, h.separate⟩
  obtain ⟨ahead, behind, head, m', hrs, hahead, hbehind, hout, hchain, hlinks, hframe⟩ :=
    insert_spec (q := ⟨.memory, q.head⟩) Region.memory_fits h.recordChain h.length_le
      hp.within_memory hsep
  -- The list with the record at its place is the old list with the record in front, permuted.
  have hperm : (ahead ++ p :: behind).Perm (p :: rs) := hrs ▸ List.perm_middle
  refine ⟨ahead, behind, head, m', Record.place_of_sorted hsorted hrs hahead hbehind, ?_,
    RecordChain.linked hchain (fun x hx => ?_) (hsep.perm hperm.symm fun hxy => hxy.symm),
    (hlinks.marks Region.memory_fits hp.within_memory List.mem_cons_self).1, hframe⟩
  · rw [insert_memory h hp, hout]
    rfl
  · rcases List.mem_cons.mp (hperm.mem_iff.mp hx) with rfl | hx
    · exact hp
    · exact h.lies x hx

/-- The first record `r` leaves the ready queue, and `rs` are left. -/
theorem pop_linked (h : Linked q.region m q.head (r :: rs)) :
    ∃ head m', q.pop m = .ok (some (r, { q with head }, m'))
      ∧ Left q.region m [] rs r head m' := by
  obtain ⟨next, hdetach, hleft⟩ := h.detachFirst
  refine ⟨next, _, ?_, hleft⟩
  rw [pop, hdetach]
  rfl

end ReadyQueue

namespace WaitQueue

/-- A search for a number asks no more of its region than that the records lie there: it ends as in
    `.memory`. -/
theorem find_memory (h : Linked region m l rs) (pid : Word) (fuel : Nat) (previous : Option Record) :
    find region m pid fuel previous l = find .memory m pid fuel previous l := by
  induction fuel generalizing l rs previous with
  | zero => cases l <;> rfl
  | succ fuel ih =>
    cases l with
    | none => rfl
    | node a =>
      obtain ⟨r, rest, next, rfl, rfl, hr, hnext, hrest⟩ := h.exists_cons
      simp only [find, hr.found, hr.found_memory, hnext, ok_bind, ih hrest]

variable {q : WaitQueue}

/-- Insertion in front ends as in `.memory`, up to the region of the queue. -/
theorem insert_memory (hp : p.Lies q.region) :
    (q.insert m p).outcome
      = (insert ⟨.memory, q.head⟩ m p).outcome.map fun x => (⟨q.region, x.1.head⟩, x.2) := by
  simp only [insert, Attempt.outcome_seq, hp.checkMember,
    outcome_checkMember Region.memory_fits hp.within_memory, ok_bind]
  rfl

/-- **A record enters** the wait queue in front: the list is `p :: rs`. -/
theorem insert_linked (h : Linked q.region m q.head rs) (hp : p.Lies q.region)
    (hapart : ∀ r ∈ rs, p.span.Apart r.span) :
    ∃ head m', (q.insert m p).outcome = .ok ({ q with head }, m')
      ∧ Entered q.region .waiting m [] rs p head m' := by
  have hsep : Separate Record.span (p :: rs) := List.pairwise_cons.mpr ⟨hapart, h.separate⟩
  obtain ⟨m', hout, hchain, hlinks, hframe⟩ := insert_spec (q := ⟨.memory, q.head⟩)
    Region.memory_fits h.recordChain hp.within_memory hsep
  refine ⟨.node p.address, m', ?_,
    RecordChain.linked hchain (List.forall_mem_cons.mpr ⟨hp, h.lies⟩) hsep,
    (hlinks.marks Region.memory_fits hp.within_memory List.mem_cons_self).1, hframe⟩
  rw [insert_memory hp, hout]
  rfl

/-- The first record `r` leaves the wait queue, and `rs` are left. -/
theorem pop_linked (h : Linked q.region m q.head (r :: rs)) :
    ∃ head m', q.pop m = .ok (some (r, { q with head }, m'))
      ∧ Left q.region m [] rs r head m' := by
  obtain ⟨next, hdetach, hleft⟩ := h.detachFirst
  refine ⟨next, _, ?_, hleft⟩
  rw [pop, hdetach]
  rfl

/-- Removal by number ends as in `.memory`, up to the region of the queue. -/
theorem remove_memory (h : Linked q.region m q.head rs) (pid : Word) :
    q.remove m pid = (remove ⟨.memory, q.head⟩ m pid).map fun x =>
      (x.1, ⟨q.region, x.2.1.head⟩, x.2.2) := by
  rw [remove, remove, find_memory h]
  cases find .memory m pid memorySize none q.head with
  | error e => rfl
  | ok found =>
    obtain ⟨previous, r, following⟩ := found
    cases previous <;> rfl

/-- **A record leaves by its number:** of those with the number `pid`, the first one. -/
theorem remove_linked {before after : List Record} {pid : Word}
    (h : Linked q.region m q.head (before ++ r :: after)) (hbefore : ∀ p ∈ before, p.pid m ≠ pid)
    (hpid : r.pid m = pid) :
    ∃ head m', q.remove m pid = .ok (r, { q with head }, m')
      ∧ Left q.region m before after r head m' := by
  obtain ⟨head, m', hremove, hchain, -, hnext, hframe⟩ := remove_first (q := ⟨.memory, q.head⟩)
    Region.memory_fits h.recordChain h.length_le h.separate hbefore hpid
  have hsub : (before ++ after).Sublist (before ++ r :: after) :=
    (List.sublist_cons_self r after).append_left before
  refine ⟨head, m', ?_, RecordChain.linked hchain (fun x hx => h.lies x (hsub.subset hx))
    (h.separate.sublist hsub), hnext, hframe⟩
  rw [remove_memory h, hremove]
  rfl

/-- If no record has the number `pid`, then removal fails with `pidNotFound`. -/
theorem remove_linked_none {pid : Word} (h : Linked q.region m q.head rs)
    (hpid : ∀ p ∈ rs, p.pid m ≠ pid) : q.remove m pid = .error .pidNotFound := by
  rw [remove_memory h, remove_none (q := ⟨.memory, q.head⟩) Region.memory_fits h.recordChain
    h.length_le hpid]
  rfl

end WaitQueue

end Operations

/-! ### Filling a queue, and taking from it -/

namespace ReadyQueue

variable {q : ReadyQueue} {m m' : Memory} {rs ps out : List Record}

/-- Inserts records, one after the other. -/
def insertAll (q : ReadyQueue) (m : Memory) (ps : List Record) :
    Except Fault (ReadyQueue × Memory) :=
  ps.foldlM (fun s p => (s.1.insert s.2 p).outcome) (q, m)

/-- The records that leave a queue when its first one is taken until there is none. -/
inductive Drains : ReadyQueue → Memory → List Record → Prop where
  | empty {q : ReadyQueue} {m : Memory} (hpop : q.pop m = .ok none) : Drains q m []
  | take {q q' : ReadyQueue} {m m' : Memory} {r : Record} {rs : List Record}
      (hpop : q.pop m = .ok (some (r, q', m'))) (rest : Drains q' m' rs) : Drains q m (r :: rs)

/-- A queue that holds `rs` is emptied, and its records leave it in this order: `Drains q m out` iff
    `out = rs`. -/
theorem drains_linked (h : Linked q.region m q.head rs) : Drains q m out ↔ out = rs := by
  -- By induction on the records that are left in the queue.
  induction rs generalizing q m out with
  | nil =>
    have hpop : q.pop m = .ok none := pop_nil (linked_nil_iff.mp h)
    constructor
    · rintro (_ | ⟨htake, -⟩)
      · rfl
      · exact absurd (hpop.symm.trans htake) (by simp)
    · rintro rfl
      exact .empty hpop
  | cons r rs ih =>
    obtain ⟨head, m', hpop, hleft⟩ := pop_linked h
    have ih := @ih { q with head } m'
    constructor
    · rintro (hempty | ⟨htake, hrest⟩)
      · exact absurd (hpop.symm.trans hempty) (by simp)
      · have heq := hpop.symm.trans htake
        simp only [Except.ok.injEq, Option.some.injEq, Prod.mk.injEq] at heq
        obtain ⟨rfl, rfl, rfl⟩ := heq
        rw [(ih hleft.linked).mp hrest]
    · rintro rfl
      exact .take hpop ((ih hleft.linked).mpr rfl)

/-- **Filling a queue.**  Inserting `ps` into a list in order leaves a list `rs'` in order with the
    ranks of `rs ++ ps`: of one priority, those that come later stand behind. -/
theorem insertAll_linked (h : Linked q.region m q.head rs)
    (hsorted : rs.Pairwise fun x y => y.priority m ≤ x.priority m)
    (hps : ∀ p ∈ ps, p.Lies q.region) (hsep : Separate Record.span (rs ++ ps)) :
    ∃ head m' rs', q.insertAll m ps = .ok ({ q with head }, m')
      ∧ Linked q.region m' head rs'
      ∧ (rs'.Pairwise fun x y => y.priority m ≤ x.priority m)
      ∧ Record.SameRanks m rs' (rs ++ ps) := by
  induction ps generalizing q m rs with
  | nil =>
    refine ⟨q.head, m, rs, rfl, h, hsorted, ?_⟩
    rw [List.append_nil]
    exact fun _ => rfl
  | cons p ps ih =>
    obtain ⟨hp, hps⟩ := List.forall_mem_cons.mp hps
    have hapart : ∀ r ∈ rs, p.span.Apart r.span := fun r hr =>
      ((List.pairwise_append.mp hsep).2.2 r hr p List.mem_cons_self).symm
    obtain ⟨ahead, behind, head, m₁, hplace, hinsert, hentered⟩ := insert_linked h hsorted hp hapart
    have hperm : (ahead ++ p :: behind ++ ps).Perm (rs ++ p :: ps) := hplace.perm [] ps
    -- No priority changes, so that the order is the one that there was.
    have hpriority : ∀ x ∈ ahead ++ p :: behind ++ ps, x.priority m₁ = x.priority m := fun x hx =>
      hentered.priority_eq hsep (fun y hy => hperm.mem_iff.mp (List.mem_append_left _ hy))
        (hperm.mem_iff.mp hx)
    obtain ⟨head', m', rs', hall, hlinked, hsorted', hranks⟩ := @ih { q with head } m₁ _
      hentered.linked
      (Record.sorted_congr (hplace.sorted hsorted) fun x hx => hpriority x (List.mem_append_left _ hx))
      hps (hsep.perm hperm.symm fun hxy => hxy.symm)
    -- The induction hypothesis speaks of priorities in `m₁`; they are those in `m`.
    have hback : ∀ x ∈ rs', x.priority m = x.priority m₁ := fun x hx =>
      (hpriority x (hranks.mem_iff.mp hx)).symm
    refine ⟨head', m', rs', ?_, hlinked, Record.sorted_congr hsorted' hback, ?_⟩
    · rw [insertAll, List.foldlM_cons, hinsert, ok_bind]
      exact hall
    · have hlast := (hranks.congr hback).trans (hplace.sameRanks.append_right ps)
      rwa [List.append_assoc, List.singleton_append] at hlast

/-- **The ready queue is a list in the order of the priorities**, and a stable one.  A record enters
    behind all that have the same or a higher priority; the first record leaves; records that have
    entered an empty queue leave it in the order of `Record.byPriority`.  Done in place, and on any
    memory whatsoever, an operation that fails changes nothing.  On a chain that comes back to
    itself the fault of `position` stands for a walk that never ends. -/
theorem refines_sorted_list (q : ReadyQueue) (m : Memory) :
    (∀ rs p, Linked q.region m q.head rs →
      (rs.Pairwise fun x y => y.priority m ≤ x.priority m) → p.Lies q.region →
      (∀ r ∈ rs, p.span.Apart r.span) →
      ∃ ahead behind head m', p.Place m rs ahead behind
        ∧ (q.insert m p).outcome = .ok ({ q with head }, m')
        ∧ Entered q.region .ready m ahead behind p head m') ∧
    (∀ r rs, Linked q.region m q.head (r :: rs) →
      ∃ head m', q.pop m = .ok (some (r, { q with head }, m'))
        ∧ Left q.region m [] rs r head m') ∧
    (∀ ps, q.head = .none → (∀ p ∈ ps, p.Lies q.region) → Separate Record.span ps →
      ∃ head m', q.insertAll m ps = .ok ({ q with head }, m')
        ∧ ∀ out, Drains { q with head } m' out ↔ out = Record.byPriority m ps) ∧
    (∀ p, QueueSite.Performs (QueueSite.makeReady p) ⟨q.region, q.head, m⟩
      ((q.insert m p).outcome.map fun x => ((), x.1.head, x.2))) ∧
    QueueSite.Performs QueueSite.detach ⟨q.region, q.head, m⟩ ((q.pop m).map fun x => match x with
      | none => (none, q.head, m)
      | some (r, q', m') => (some r, q'.head, m')) := by
  refine ⟨fun rs p h hsorted hp hapart => insert_linked h hsorted hp hapart,
    fun r rs h => pop_linked h, fun ps hhead hps hsep => ?_,
    fun p => QueueSite.makeReady_performs _ p, ?_⟩
  · obtain ⟨head, m', rs, hall, hlinked, hsorted, hranks⟩ :=
      insertAll_linked (linked_nil_iff.mpr hhead) List.Pairwise.nil hps hsep
    refine ⟨head, m', hall, fun out => ?_⟩
    rw [List.nil_append] at hranks
    rw [← Record.eq_byPriority hranks hsorted]
    exact drains_linked hlinked
  · convert QueueSite.detach_performs ⟨q.region, q.head, m⟩ using 1
    rw [pop]
    rcases detachFirst q.region q.head m with e | _ | x <;> rfl

open Linked in
/-- The record `3` is inserted behind `0`, which has the same priority, and before `1` and `2` with
    lower ones; four records that come in another order leave in the order of the priorities; and a
    record beyond the region is refused. -/
theorem refines_sorted_list_sample :
    (∃ head m', (insert ⟨⟨0, 87⟩, .node (sampleRecord 0).address⟩ sample (sampleRecord 3)).outcome
        = .ok (⟨⟨0, 87⟩, head⟩, m')
      ∧ Linked ⟨0, 87⟩ m' head [sampleRecord 0, sampleRecord 3, sampleRecord 1, sampleRecord 2]
      ∧ (sampleRecord 3).state? m' = some .ready) ∧
    (∃ head m', pop ⟨⟨0, 87⟩, .node (sampleRecord 0).address⟩ sample
        = .ok (some (sampleRecord 0, ⟨⟨0, 87⟩, head⟩, m'))
      ∧ Linked ⟨0, 87⟩ m' head [sampleRecord 1, sampleRecord 2]) ∧
    (∃ head m', insertAll ⟨⟨0, 87⟩, .none⟩ sample
        [sampleRecord 2, sampleRecord 3, sampleRecord 1, sampleRecord 0] = .ok (⟨⟨0, 87⟩, head⟩, m')
      ∧ Drains ⟨⟨0, 87⟩, head⟩ m' [sampleRecord 3, sampleRecord 0, sampleRecord 1, sampleRecord 2]) ∧
    Action.exec (QueueSite.makeReady ⟨⟨100, by decide⟩⟩)
        ⟨⟨0, 87⟩, .node (sampleRecord 0).address, sample⟩
      = (.error .invalidMemoryAddress, ⟨⟨0, 87⟩, .node (sampleRecord 0).address, sample⟩) := by
  obtain ⟨hinsert, hpop, -, hperforms, -⟩ :=
    refines_sorted_list ⟨⟨0, 87⟩, .node (sampleRecord 0).address⟩ sample
  obtain ⟨-, -, hsort, -⟩ := refines_sorted_list ⟨⟨0, 87⟩, .none⟩ sample
  obtain ⟨h₀, h₁, h₂, h₃⟩ := sample_priorities
  refine ⟨?_, ?_, ?_, ?_⟩
  · obtain ⟨ahead, behind, head, m', hplace, hout, hentered⟩ := hinsert _ (sampleRecord 3)
      sample_linked (by simp [h₀, h₁, h₂]) (sampleRecord_lies 3) (by decide)
    refine ⟨head, m', hout, ?_, hentered.state⟩
    -- Only one place is behind the record with the same priority and before the others.
    obtain ⟨heq, hahead, hbehind⟩ := hplace
    have hfirst : sampleRecord 0 ∉ behind := fun h => absurd (hbehind _ h) (by simp [h₀, h₃])
    have hsecond : sampleRecord 1 ∉ ahead := fun h => absurd (hahead _ h) (by simp [h₁, h₃])
    have hlinked := hentered.linked
    rcases ahead with _ | ⟨x, _ | ⟨y, ahead⟩⟩
    · rw [List.nil_append] at heq
      exact absurd (heq ▸ List.mem_cons_self) hfirst
    · obtain ⟨rfl, rfl⟩ := List.cons.inj heq
      exact hlinked
    · obtain ⟨rfl, hrest⟩ := List.cons.inj heq
      obtain ⟨rfl, -⟩ := List.cons.inj hrest
      exact absurd (List.mem_cons_of_mem _ List.mem_cons_self) hsecond
  · obtain ⟨head, m', hout, hleft⟩ := hpop _ _ sample_linked
    exact ⟨head, m', hout, hleft.linked⟩
  · obtain ⟨head, m', hall, hdrains⟩ := hsort
      [sampleRecord 2, sampleRecord 3, sampleRecord 1, sampleRecord 0] rfl
      (by simp [sampleRecord_lies]) (by unfold Separate; decide)
    refine ⟨head, m', hall, (hdrains _).mpr ?_⟩
    simp [Record.byPriority, List.mergeSort, List.MergeSort.Internal.splitInTwo, h₀, h₁, h₂, h₃]
  · rw [(hperforms _).exec]
    rfl

end ReadyQueue

namespace WaitQueue

/-- **The wait queue is a stack** from which records are also taken by number.  A record enters in
    front; the first record leaves; of the records with number `pid`, the first one leaves, and
    without one the result is `pidNotFound`.  Done in place, and on any memory whatsoever, an
    operation that fails changes nothing.  On a chain that comes back to itself the fault of `find`
    stands for a walk that never ends. -/
theorem refines_stack (q : WaitQueue) (m : Memory) :
    (∀ rs p, Linked q.region m q.head rs → p.Lies q.region → (∀ r ∈ rs, p.span.Apart r.span) →
      ∃ head m', (q.insert m p).outcome = .ok ({ q with head }, m')
        ∧ Entered q.region .waiting m [] rs p head m') ∧
    (∀ r rs, Linked q.region m q.head (r :: rs) →
      ∃ head m', q.pop m = .ok (some (r, { q with head }, m'))
        ∧ Left q.region m [] rs r head m') ∧
    (∀ before r after pid, Linked q.region m q.head (before ++ r :: after) →
      (∀ p ∈ before, p.pid m ≠ pid) → r.pid m = pid →
      ∃ head m', q.remove m pid = .ok (r, { q with head }, m')
        ∧ Left q.region m before after r head m') ∧
    (∀ rs pid, Linked q.region m q.head rs → (∀ p ∈ rs, p.pid m ≠ pid) →
      Action.exec (QueueSite.removeWaiting pid) ⟨q.region, q.head, m⟩
        = (.error .pidNotFound, ⟨q.region, q.head, m⟩)) ∧
    (∀ p, QueueSite.Performs (QueueSite.makeWaiting p) ⟨q.region, q.head, m⟩
      ((q.insert m p).outcome.map fun x => ((), x.1.head, x.2))) ∧
    (∀ pid, QueueSite.Performs (QueueSite.removeWaiting pid) ⟨q.region, q.head, m⟩
      ((q.remove m pid).map fun x => (x.1, x.2.1.head, x.2.2))) ∧
    QueueSite.Performs QueueSite.detach ⟨q.region, q.head, m⟩ ((q.pop m).map fun x => match x with
      | none => (none, q.head, m)
      | some (r, q', m') => (some r, q'.head, m')) := by
  refine ⟨fun rs p h hp hapart => insert_linked h hp hapart, fun r rs h => pop_linked h,
    fun before r after pid h hbefore hpid => remove_linked h hbefore hpid, fun rs pid h hpid => ?_,
    fun p => QueueSite.makeWaiting_performs _ p, fun pid => QueueSite.removeWaiting_performs _ pid, ?_⟩
  · rw [(QueueSite.removeWaiting_performs _ pid).exec, remove_linked_none h hpid]
    rfl
  -- The two ways to write the outcome differ in where the queue is put together.
  · convert QueueSite.detach_performs ⟨q.region, q.head, m⟩ using 1
    rw [pop]
    rcases detachFirst q.region q.head m with e | _ | x <;> rfl

open Linked in
/-- A record is inserted in front; of the two records with the number `2`, the first one leaves from
    the middle; nobody has the number `9`; and a record beyond the region is refused. -/
theorem refines_stack_sample :
    (∃ head m', (insert ⟨⟨0, 87⟩, .node (sampleRecord 0).address⟩ sample (sampleRecord 3)).outcome
        = .ok (⟨⟨0, 87⟩, head⟩, m')
      ∧ Linked ⟨0, 87⟩ m' head [sampleRecord 3, sampleRecord 0, sampleRecord 1, sampleRecord 2]
      ∧ (sampleRecord 3).state? m' = some .waiting) ∧
    (∃ head m', pop ⟨⟨0, 87⟩, .node (sampleRecord 0).address⟩ sample
        = .ok (some (sampleRecord 0, ⟨⟨0, 87⟩, head⟩, m'))
      ∧ Linked ⟨0, 87⟩ m' head [sampleRecord 1, sampleRecord 2]) ∧
    (∃ head m', remove ⟨⟨0, 87⟩, .node (sampleRecord 0).address⟩ sample 2
        = .ok (sampleRecord 1, ⟨⟨0, 87⟩, head⟩, m')
      ∧ Linked ⟨0, 87⟩ m' head [sampleRecord 0, sampleRecord 2]
      ∧ (sampleRecord 1).next m' = .ok .none) ∧
    Action.exec (QueueSite.removeWaiting 9) ⟨⟨0, 87⟩, .node (sampleRecord 0).address, sample⟩
      = (.error .pidNotFound, ⟨⟨0, 87⟩, .node (sampleRecord 0).address, sample⟩) ∧
    Action.exec (QueueSite.makeWaiting ⟨⟨100, by decide⟩⟩)
        ⟨⟨0, 87⟩, .node (sampleRecord 0).address, sample⟩
      = (.error .invalidMemoryAddress, ⟨⟨0, 87⟩, .node (sampleRecord 0).address, sample⟩) := by
  obtain ⟨hinsert, hpop, hremove, hnone, hperforms, -⟩ :=
    refines_stack ⟨⟨0, 87⟩, .node (sampleRecord 0).address⟩ sample
  refine ⟨?_, ?_, ?_, hnone _ 9 sample_linked (by decide +kernel), ?_⟩
  · obtain ⟨head, m', hout, hentered⟩ := hinsert _ (sampleRecord 3) sample_linked
      (sampleRecord_lies 3) (by decide)
    exact ⟨head, m', hout, hentered.linked, hentered.state⟩
  · obtain ⟨head, m', hout, hleft⟩ := hpop _ _ sample_linked
    exact ⟨head, m', hout, hleft.linked⟩
  · obtain ⟨head, m', hout, hleft⟩ := hremove [sampleRecord 0] (sampleRecord 1) [sampleRecord 2] 2
      sample_linked (by decide +kernel) (by decide +kernel)
    exact ⟨head, m', hout, hleft.linked, hleft.next⟩
  · rw [(hperforms _).exec]
    rfl

end WaitQueue

end Timeshare
