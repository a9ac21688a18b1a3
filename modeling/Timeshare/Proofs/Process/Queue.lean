import Timeshare.Process.Queue
import Timeshare.Proofs.Chain
import Timeshare.Proofs.Process.Record

namespace Timeshare

/-!
# Queues whose chain is in order

Where the records of a queue form a chain and do not overlap, the operations of the queue are
operations on the list of its records.

* `RecordChain region m l rs` — the records from the link `l` on are `rs`, and all of them lie in the
  region; reading a queue succeeds exactly where there is such a list (`records_eq_ok_iff`).
* `Record.OnlyLinks rs m n` — from the memory `m` to `n`, only links of the records `rs` change.
* `Record.linkFrom`, `Chain.linkFrom` — a list goes on elsewhere behind a record; `Record.links rs` — the
  links of the records `rs`.
* `ReadyQueue.insert_spec`, `ReadyQueue.pop_cons` — insertion by priority, and the first record.
* `WaitQueue.insert_spec`, `WaitQueue.pop_cons`, `WaitQueue.remove_first` — insertion in front, the
  first record, and removal by number.
-/

/-- A record lies in a region and links to the next record. -/
structure Record.Node (region : Region) (m : Memory) (r : Record) (next : Link) : Prop where
  within : r.Within region
  link : r.next m = .ok next

/-- The records from a link on. -/
abbrev RecordChain (region : Region) (m : Memory) (l : Link) (rs : List Record) : Prop :=
  Chain Record.address (Record.Node region m) l rs .none

variable {region : Region} {m n : Memory} {l l' : Link} {r p : Record} {rs : List Record}

/-- A record links to `next` as long as its words stay. -/
theorem Record.Node.congr {next : Link} (h : r.Node region m next)
    (hmn : Memory.SameOn (· ∈ r.span) m n) : r.Node region n next :=
  ⟨h.within, Record.next_congr hmn ▸ h.link⟩

/-- A chain of records `rs` stays one as long as the words of its records do. -/
theorem Chain.congr_records (h : Chain Record.address (Record.Node region m) l rs l')
    (hmn : ∀ r ∈ rs, Memory.SameOn (· ∈ r.span) m n) :
    Chain Record.address (Record.Node region n) l rs l' :=
  h.imp fun r hr _ hnode => hnode.congr (hmn r hr)

/-- All records of a chain lie in its region. -/
theorem Chain.records_within (h : Chain Record.address (Record.Node region m) l rs l') :
    ∀ r ∈ rs, r.Within region := by
  induction rs generalizing l with
  | nil => simp
  | cons r rs ih =>
    obtain ⟨-, next, hr, hrest⟩ := h
    exact List.forall_mem_cons.mpr ⟨hr.within, ih hrest⟩

/-! ### Reading a queue -/

/-- From the link `l` on, the records `rs` can be read with `fuel` iff they are a chain that starts
    there and has at most `fuel` records. -/
theorem recordsFrom_eq_ok_iff (hr : region.Fits) {fuel : Nat} :
    recordsFrom region m fuel l = .ok rs ↔ RecordChain region m l rs ∧ rs.length ≤ fuel := by
  induction fuel generalizing l rs with
  | zero =>
    cases l with
    | none =>
      simp only [recordsFrom, Except.ok.injEq]
      constructor
      · rintro rfl
        exact ⟨rfl, Nat.le_refl _⟩
      · rintro ⟨h, -⟩
        exact h.eq_nil.symm
    | node a =>
      -- There is a record and no fuel: a chain from here on would be too long.
      simp only [recordsFrom, reduceCtorEq, false_iff, not_and]
      intro h
      obtain ⟨r, rest, next, rfl, -⟩ := h.exists_cons
      simp
  | succ fuel ih =>
    cases l with
    | none =>
      simp only [recordsFrom, Except.ok.injEq]
      constructor
      · rintro rfl
        exact ⟨rfl, Nat.zero_le _⟩
      · rintro ⟨h, -⟩
        exact h.eq_nil.symm
    | node a =>
      simp only [recordsFrom, bind_eq_ok_iff]
      constructor
      · rintro ⟨r, hrec, next, hnext, rest, hrest, hrs⟩
        obtain ⟨rfl, hwithin⟩ := (Record.ofAddress_eq_ok_iff hr).mp hrec
        obtain rfl := Except.ok.inj hrs
        obtain ⟨hchain, hlen⟩ := ih.mp hrest
        exact ⟨⟨rfl, next, ⟨hwithin, hnext⟩, hchain⟩, Nat.succ_le_succ hlen⟩
      · rintro ⟨h, hlen⟩
        obtain ⟨r, rest, next, rfl, rfl, hnode, hrest⟩ := h.exists_cons
        exact ⟨r, hnode.within.ofAddress hr, next, hnode.link, rest,
          ih.mpr ⟨hrest, Nat.le_of_succ_le_succ hlen⟩, rfl⟩

/-- **Reading a queue** gives `rs` iff `rs` is a chain from `l` on with no more records than the
    region has room for, which is one for `22` words. -/
theorem records_eq_ok_iff (hr : region.Fits) :
    records region m l = .ok rs ↔
      RecordChain region m l rs ∧ rs.length ≤ region.length.toNat / 22 :=
  recordsFrom_eq_ok_iff hr

/-- A record that lies in the region passes the check, `checkMember`. -/
theorem outcome_checkMember (hr : region.Fits) (h : r.Within region) :
    (checkMember region r).outcome = .ok () := by
  rw [checkMember, h.ofAddress hr]
  rfl

/-! ### Links -/

namespace Record

/-- The links of some records. -/
def links (rs : List Record) : List (Record × Slot) := rs.map (·, .next)

/-- Of some records, only the links have changed, and nothing else in memory. -/
structure OnlyLinks (rs : List Record) (m n : Memory) : Prop where
  frame : Memory.SameOn (fun a => ∀ r ∈ rs, a ∉ r.span) m n
  kept : Kept rs m n

theorem OnlyLinks.refl (rs : List Record) (m : Memory) : OnlyLinks rs m m :=
  ⟨Memory.SameOn.refl _ m, Kept.refl rs m⟩

/-- Changes of links only, one after the other, are a change of links only. -/
theorem OnlyLinks.trans {o : Memory} (h : OnlyLinks rs m n) (h' : OnlyLinks rs n o) :
    OnlyLinks rs m o := ⟨h.frame.trans h'.frame, h.kept.trans h'.kept⟩

/-- The slots of a record are the same, its link apart: `r.get n s = r.get m s` for `s ≠ .next`. -/
theorem OnlyLinks.slots (h : OnlyLinks rs m n) (r : Record) (hr : r ∈ rs) (s : Slot) (hs : s ≠ .next) :
    r.get n s = r.get m s := h.kept.get r hr s hs

/-- The links are the first words of the records, so that nothing but `links rs` changes. -/
theorem OnlyLinks.onlySlots (h : OnlyLinks rs m n) : OnlySlots (links rs) m n := by
  intro a ha
  by_cases hin : ∃ r ∈ rs, a ∈ r.span
  · obtain ⟨r, hr, hspan⟩ := hin
    refine h.kept r hr a ⟨hspan, ?_⟩
    rintro rfl
    exact ha (r, .next) (List.mem_map_of_mem hr) (wordAddress_eq_some_iff.mpr rfl)
  · exact h.frame a fun r hr hspan => hin ⟨r, hr, hspan⟩

/-- Linking in a record `r` whose state was set changes nothing outside the queue and the record. -/
theorem OnlyLinks.frame_setState {state : ProcessState}
    (h : OnlyLinks (r :: rs) (r.setState m state) n) :
    Memory.SameOn (fun a => ∀ x ∈ r :: rs, a ∉ x.span) m n := by
  have hstate : Memory.SameOn (· ∉ r.span) m (r.setState m state) := sameOn_set
  exact (hstate.mono fun a ha => ha r List.mem_cons_self).trans h.frame

/-- A change of the links of `rs` keeps all records of a separate list that holds them. -/
theorem OnlyLinks.kept_all {all : List Record} (h : OnlyLinks rs m n) (hsep : Separate span all)
    (hsub : ∀ r ∈ rs, r ∈ all) : Kept all m n := by
  intro x hx
  by_cases hmem : x ∈ rs
  · exact h.kept x hmem
  · refine h.frame.mono fun a ha r hr => ?_
    exact (hsep.apart hx (hsub r hr) fun hxr => hmem (hxr ▸ hr)).not_mem ha.1

/-- Writing the link of one of separate records, `p.setNext m l`, is a change of links only. -/
theorem onlyLinks_setNext (hsep : Separate span rs) (hp : p ∈ rs) :
    OnlyLinks rs m (p.setNext m l) := by
  refine ⟨sameOn_set.mono fun a ha => ha p hp, fun r hr => ?_⟩
  by_cases hrp : r = p
  · rw [hrp]
    exact sameOn_setNext.mono fun a ha => ha.2
  · exact sameOn_set.mono fun a ha => (hsep.apart hr hp hrp).not_mem ha.1

/-- Memory in which the list goes on elsewhere behind a record; at the start of a list there is no
    record to change. -/
def linkFrom (previous : Option Record) (m : Memory) (l : Link) : Memory :=
  match previous with
  | none => m
  | some p => p.setNext m l

variable {previous : Option Record}

/-- Letting a list go on elsewhere, `linkFrom`, changes the link of the record `previous`, if there
    is one. -/
theorem onlySlots_linkFrom : OnlySlots (links previous.toList) m (linkFrom previous m l) := by
  cases previous with
  | none => exact OnlySlots.refl _ m
  | some p => exact onlySlots_set

/-- Letting a list go on elsewhere, `linkFrom`, is a change of links only. -/
theorem onlyLinks_linkFrom (hsep : Separate span rs) (hp : ∀ p ∈ previous, p ∈ rs) :
    OnlyLinks rs m (linkFrom previous m l) := by
  cases previous with
  | none => exact OnlyLinks.refl rs m
  | some p => exact onlyLinks_setNext hsep (hp p rfl)

/-- Letting a list go on elsewhere changes no word outside the record `previous`. -/
theorem sameOn_linkFrom :
    Memory.SameOn (fun a => ∀ p ∈ previous, a ∉ p.span) m (linkFrom previous m l) := by
  cases previous with
  | none => exact Memory.SameOn.refl _ m
  | some p => exact sameOn_set.mono fun a ha => ha p rfl

/-- The link that was written is read back: `r.next (r.setNext m l) = .ok l`. -/
theorem next_setNext (hr : region.Fits) (h : r.Within region) : r.next (r.setNext m l) = .ok l := by
  rw [next, setNext, get_set_self hr h, Link.ofWord_toWord]

end Record

/-- A first part of a chain gets another end `mid` when its last record is linked there; the list
    starts at `relinked rs l mid`. -/
theorem Chain.linkFrom (hr : region.Fits) (mid : Link)
    (h : Chain Record.address (Record.Node region m) l rs l') (hsep : Separate Record.span rs)
    (hmn : ∀ r ∈ rs, Memory.SameOn (· ∈ r.span) m n) :
    Chain Record.address (Record.Node region (Record.linkFrom rs.getLast? n mid))
      (relinked rs l mid) rs mid := by
  have hn := h.congr_records hmn
  refine hn.relink ?_ ?_
  · intro r hr' next hnode
    refine hnode.congr (Record.sameOn_linkFrom.mono fun a ha p hp => ?_)
    exact (hsep.last hr' hp).not_mem ha
  · intro p hp next hnode
    refine ⟨hnode.within, ?_⟩
    rw [Option.mem_def.mp hp]
    exact Record.next_setNext hr hnode.within

/-! ### The ready queue -/

namespace ReadyQueue

variable {q : ReadyQueue}

/-- The search for the place of a priority cuts the chain into `ahead`, where no priority is lower,
    and `behind`, which starts with a lower one, and gives the last record of `ahead` and the link
    to `behind`. -/
theorem position_spec (previous : Option Record) (hr : region.Fits) (priority : Word) {fuel : Nat}
    (h : RecordChain region m l rs) (hfuel : rs.length ≤ fuel) :
    ∃ ahead behind mid, rs = ahead ++ behind ∧ (∀ p ∈ ahead, priority ≤ p.priority m)
      ∧ (∀ p ∈ behind.head?, p.priority m < priority)
      ∧ Chain Record.address (Record.Node region m) l ahead mid
      ∧ RecordChain region m mid behind
      ∧ position region m priority fuel previous l = .ok (ahead.getLast?.or previous, mid) := by
  -- By induction on the fuel, which is enough for the chain that is left.
  induction fuel generalizing l rs previous with
  | zero =>
    obtain rfl := List.eq_nil_of_length_eq_zero (Nat.le_zero.mp hfuel)
    obtain rfl : l = .none := h
    exact ⟨[], [], .none, rfl, by simp, by simp, rfl, rfl, rfl⟩
  | succ fuel ih =>
    cases l with
    | none =>
      obtain rfl := h.eq_nil
      exact ⟨[], [], .none, rfl, by simp, by simp, rfl, rfl, rfl⟩
    | node a =>
      obtain ⟨p, rest, next, rfl, rfl, hnode, hrest⟩ := h.exists_cons
      by_cases hlt : p.priority m < priority
      · -- The first record of a lower priority ends the search.
        refine ⟨[], p :: rest, .node p.address, rfl, by simp, by simpa using hlt, rfl, h, ?_⟩
        simp only [position, hnode.within.ofAddress hr, ok_bind, hlt, if_true]
        rfl
      · obtain ⟨ahead, behind, mid, rfl, hahead, hbehind, hfront, hback, hpos⟩ :=
          ih (some p) hrest (Nat.le_of_succ_le_succ hfuel)
        refine ⟨p :: ahead, behind, mid, rfl,
          List.forall_mem_cons.mpr ⟨Int64.not_lt.mp hlt, hahead⟩, hbehind,
          ⟨rfl, next, hnode, hfront⟩, hback, ?_⟩
        simp only [position, hnode.within.ofAddress hr, ok_bind, hlt, if_false, hnode.link]
        rw [hpos, List.getLast?_cons]
        cases ahead.getLast? <;> rfl

/-- What `insert` leaves if the place is between `previous` and `mid`: the state of the record is
    set, its link leads to `mid`, and the list leads to it from `previous`. -/
theorem outcome_insert (hr : q.region.Fits) (hwithin : r.Within q.region)
    {previous : Option Record} {mid : Link}
    (hpos : position q.region m (r.priority m) memorySize none q.head = .ok (previous, mid)) :
    (q.insert m r).outcome = .ok
      ({ q with head := if previous.isNone then .node r.address else q.head },
        Record.linkFrom previous (r.setNext (r.setState m .ready) mid) (.node r.address)) := by
  simp only [insert, Attempt.outcome_seq, outcome_checkMember hr hwithin, ok_bind,
    Attempt.outcome_ofExcept, hpos]
  cases previous <;> rfl

/-- **Insertion by priority.**  The record goes behind all records of the same or a higher priority,
    and before the others: the chain is `ahead ++ r :: behind`.  Besides its state, only the links
    of `r` and of the last record of `ahead` change. -/
theorem insert_spec (hr : q.region.Fits) (hq : RecordChain q.region m q.head rs)
    (hlen : rs.length ≤ memorySize) (hwithin : r.Within q.region)
    (hsep : Separate Record.span (r :: rs)) :
    ∃ ahead behind head m', rs = ahead ++ behind ∧ (∀ p ∈ ahead, r.priority m ≤ p.priority m)
      ∧ (∀ p ∈ behind.head?, p.priority m < r.priority m)
      ∧ (q.insert m r).outcome = .ok ({ q with head }, m')
      ∧ RecordChain q.region m' head (ahead ++ r :: behind)
      ∧ Record.OnlyLinks (r :: rs) (r.setState m .ready) m'
      ∧ Record.OnlySlots ((r, .state) :: Record.links (r :: ahead.getLast?.toList)) m m' := by
  obtain ⟨ahead, behind, mid, rfl, hahead, hbehind, hfront, hback, hpos⟩ :=
    position_spec none hr (r.priority m) hq hlen
  rw [Option.or_none] at hpos
  obtain ⟨hapart, hrest⟩ := List.pairwise_cons.mp hsep
  obtain ⟨hsepahead, -, -⟩ := List.pairwise_append.mp hrest
  have hmem : ∀ p ∈ ahead.getLast?, p ∈ ahead := fun p hp => List.mem_of_getLast? hp
  have hframe : Memory.SameOn (· ∉ r.span) m (r.setNext (r.setState m .ready) mid) :=
    Record.sameOn_set.trans Record.sameOn_set
  -- Nothing but the record itself is written to before it is linked in.
  have hothers : ∀ p ∈ ahead ++ behind, Memory.SameOn (· ∈ p.span) m
      (r.setNext (r.setState m .ready) mid) := fun p hp =>
    hframe.mono fun a ha => (hapart p hp).symm.not_mem ha
  refine ⟨ahead, behind, _, _, rfl, hahead, hbehind, outcome_insert hr hwithin hpos, ?_, ?_,
    (Record.onlySlots_set.trans Record.onlySlots_set).trans Record.onlySlots_linkFrom⟩
  · have hhead : (if ahead.getLast?.isNone then .node r.address else q.head)
        = relinked ahead q.head (.node r.address) := by
      rw [relinked]
      cases ahead.getLast? <;> rfl
    rw [hhead]
    refine chain_append.mpr ⟨.node r.address, hfront.linkFrom hr _ hsepahead fun p hp =>
      hothers p (List.mem_append_left _ hp), rfl, mid, ?_, ?_⟩
    · have hnode : r.Node q.region (r.setNext (r.setState m .ready) mid) mid :=
        ⟨hwithin, Record.next_setNext hr hwithin⟩
      refine hnode.congr (Record.sameOn_linkFrom.mono fun a ha p hp => ?_)
      exact (hapart p (List.mem_append_left _ (hmem p hp))).not_mem ha
    · -- The records behind it are not touched at all.
      refine hback.congr_records fun p hp => ?_
      refine (hothers p (List.mem_append_right _ hp)).trans
        (Record.sameOn_linkFrom.mono fun a ha p' hp' => ?_)
      exact ((List.pairwise_append.mp hrest).2.2 p' (hmem p' hp') p hp).symm.not_mem ha
  · refine (Record.onlyLinks_setNext hsep List.mem_cons_self).trans
      (Record.onlyLinks_linkFrom hsep fun p hp => ?_)
    exact List.mem_cons_of_mem _ (List.mem_append_left _ (hmem p hp))

end ReadyQueue

/-! ### Taking the first record -/

/-- The first record `r` is detached from a chain `r :: rs`: its link is ended, and `rs` is the
    chain. -/
theorem detachFirst_cons (hr : region.Fits)
    (h : RecordChain region m l (r :: rs)) (hsep : Separate Record.span (r :: rs)) :
    ∃ next, detachFirst region l m = .ok (some (r, next, r.setNext m .none))
      ∧ RecordChain region (r.setNext m .none) next rs
      ∧ Record.OnlyLinks (r :: rs) m (r.setNext m .none) := by
  obtain ⟨rfl, next, hnode, hrest⟩ := h
  obtain ⟨hapart, -⟩ := List.pairwise_cons.mp hsep
  refine ⟨next, ?_, ?_, Record.onlyLinks_setNext hsep List.mem_cons_self⟩
  · simp only [detachFirst, hnode.within.ofAddress hr, hnode.link, ok_bind]
    rfl
  · refine hrest.congr_records fun p hp => Record.sameOn_set.mono fun a ha => ?_
    exact (hapart p hp).symm.not_mem ha

namespace ReadyQueue

variable {q : ReadyQueue}

/-- From an empty queue nothing is taken. -/
theorem pop_nil (hq : RecordChain q.region m q.head []) : q.pop m = .ok none := by
  have hhead : q.head = .none := hq
  rw [pop, hhead]
  rfl

/-- **The first ready process** leaves the queue: `pop` gives `r`, and `rs` is the chain. -/
theorem pop_cons (hr : q.region.Fits) (hq : RecordChain q.region m q.head (r :: rs))
    (hsep : Separate Record.span (r :: rs)) :
    ∃ head m', q.pop m = .ok (some (r, { q with head }, m'))
      ∧ RecordChain q.region m' head rs ∧ Record.OnlyLinks (r :: rs) m m' := by
  obtain ⟨next, hdetach, hrest, hlinks⟩ := detachFirst_cons hr hq hsep
  refine ⟨next, _, ?_, hrest, hlinks⟩
  rw [pop, hdetach]
  rfl

end ReadyQueue

/-! ### The wait queue -/

namespace WaitQueue

variable {q : WaitQueue}

/-- **Insertion in front.**  The chain is `r :: rs`.  Besides the state of `r`, only its link
    changes. -/
theorem insert_spec (hr : q.region.Fits) (hq : RecordChain q.region m q.head rs)
    (hwithin : r.Within q.region) (hsep : Separate Record.span (r :: rs)) :
    ∃ m', (q.insert m r).outcome = .ok ({ q with head := .node r.address }, m')
      ∧ RecordChain q.region m' (.node r.address) (r :: rs)
      ∧ Record.OnlyLinks (r :: rs) (r.setState m .waiting) m'
      ∧ Record.OnlySlots ((r, .state) :: Record.links [r]) m m' := by
  obtain ⟨hapart, -⟩ := List.pairwise_cons.mp hsep
  have hframe : Memory.SameOn (· ∉ r.span) m (r.setNext (r.setState m .waiting) q.head) :=
    Record.sameOn_set.trans Record.sameOn_set
  refine ⟨r.setNext (r.setState m .waiting) q.head, ?_, ?_,
    Record.onlyLinks_setNext hsep List.mem_cons_self, Record.onlySlots_set.trans Record.onlySlots_set⟩
  · simp only [insert, Attempt.outcome_seq, outcome_checkMember hr hwithin, ok_bind]
    rfl
  · refine ⟨rfl, q.head, ⟨hwithin, Record.next_setNext hr hwithin⟩, ?_⟩
    exact hq.congr_records fun p hp => hframe.mono fun a ha => (hapart p hp).symm.not_mem ha

/-- From an empty queue nothing is taken. -/
theorem pop_nil (hq : RecordChain q.region m q.head []) : q.pop m = .ok none := by
  have hhead : q.head = .none := hq
  rw [pop, hhead]
  rfl

/-- **The newest waiting process** leaves the queue: `pop` gives `r`, and `rs` is the chain. -/
theorem pop_cons (hr : q.region.Fits) (hq : RecordChain q.region m q.head (r :: rs))
    (hsep : Separate Record.span (r :: rs)) :
    ∃ head m', q.pop m = .ok (some (r, { q with head }, m'))
      ∧ RecordChain q.region m' head rs ∧ Record.OnlyLinks (r :: rs) m m' := by
  obtain ⟨next, hdetach, hrest, hlinks⟩ := detachFirst_cons hr hq hsep
  refine ⟨next, _, ?_, hrest, hlinks⟩
  rw [pop, hdetach]
  rfl

/-- A number that no record of the chain has is not found: the fault is `pidNotFound`. -/
theorem find_none (hr : region.Fits) {pid : Word} {fuel : Nat} {previous : Option Record}
    (h : RecordChain region m l rs) (hfuel : rs.length ≤ fuel) (hpid : ∀ p ∈ rs, p.pid m ≠ pid) :
    find region m pid fuel previous l = .error .pidNotFound := by
  induction fuel generalizing l rs previous with
  | zero =>
    obtain rfl := List.eq_nil_of_length_eq_zero (Nat.le_zero.mp hfuel)
    obtain rfl : l = .none := h
    rfl
  | succ fuel ih =>
    cases l with
    | none => rfl
    | node a =>
      obtain ⟨p, rest, next, rfl, rfl, hnode, hrest⟩ := h.exists_cons
      obtain ⟨hp, hpids⟩ := List.forall_mem_cons.mp hpid
      simp only [find, hnode.within.ofAddress hr, hnode.link, ok_bind, hp, if_false]
      exact ih hrest (Nat.le_of_succ_le_succ hfuel) hpids

/-- The first record of the chain with the number `pid` is found, with the record before it and the
    link behind it. -/
theorem find_first (previous : Option Record) (hr : region.Fits) {pid : Word} {fuel : Nat}
    {before after : List Record} (h : RecordChain region m l (before ++ r :: after))
    (hfuel : (before ++ r :: after).length ≤ fuel) (hbefore : ∀ p ∈ before, p.pid m ≠ pid)
    (hpid : r.pid m = pid) :
    ∃ following, find region m pid fuel previous l
        = .ok (before.getLast?.or previous, r, following)
      ∧ Chain Record.address (Record.Node region m) l before (.node r.address)
      ∧ RecordChain region m following after := by
  -- By induction on the fuel: each record of `before` takes one turn.
  induction fuel generalizing l before previous with
  | zero => exact absurd hfuel (by simp)
  | succ fuel ih =>
    cases before with
    | nil =>
      obtain ⟨rfl, following, hnode, hrest⟩ := h
      refine ⟨following, ?_, rfl, hrest⟩
      simp only [find, hnode.within.ofAddress hr, hnode.link, ok_bind, hpid, if_true]
      rfl
    | cons p before =>
      obtain ⟨rfl, next, hnode, hrest⟩ := h
      obtain ⟨hp, hbefore⟩ := List.forall_mem_cons.mp hbefore
      obtain ⟨following, hfind, hfront, hback⟩ := ih (some p) hrest
        (Nat.le_of_succ_le_succ hfuel) hbefore
      refine ⟨following, ?_, ⟨rfl, next, hnode, hfront⟩, hback⟩
      simp only [find, hnode.within.ofAddress hr, hnode.link, ok_bind, hp, if_false, hfind]
      rw [List.getLast?_cons]
      cases before.getLast? <;> rfl

/-- A number that no process has is not found, and nothing is removed: the fault is
    `pidNotFound`. -/
theorem remove_none (hr : q.region.Fits) (hq : RecordChain q.region m q.head rs)
    (hlen : rs.length ≤ memorySize) {pid : Word} (hpid : ∀ p ∈ rs, p.pid m ≠ pid) :
    q.remove m pid = .error .pidNotFound := by
  rw [remove, find_none hr hq hlen hpid]
  rfl

/-- **Removal by number.**  The first record with the number `pid` leaves the queue, and the others
    keep their order: the chain is `before ++ after`.  Only the links of `r` and of the last record
    of `before` change. -/
theorem remove_first (hr : q.region.Fits) {before after : List Record}
    (hq : RecordChain q.region m q.head (before ++ r :: after))
    (hlen : (before ++ r :: after).length ≤ memorySize)
    (hsep : Separate Record.span (before ++ r :: after)) {pid : Word}
    (hbefore : ∀ p ∈ before, p.pid m ≠ pid) (hpid : r.pid m = pid) :
    ∃ head m', q.remove m pid = .ok (r, { q with head }, m')
      ∧ RecordChain q.region m' head (before ++ after)
      ∧ Record.OnlyLinks (before ++ r :: after) m m'
      ∧ r.next m' = .ok .none ∧ Record.OnlySlots (Record.links (r :: before.getLast?.toList)) m m' := by
  obtain ⟨following, hfind, hfront, hback⟩ :=
    find_first none hr hq hlen hbefore hpid
  rw [Option.or_none] at hfind
  obtain ⟨hsepbefore, hseprest, hcross⟩ := List.pairwise_append.mp hsep
  obtain ⟨hapart, -⟩ := List.pairwise_cons.mp hseprest
  have hmem : ∀ p ∈ before.getLast?, p ∈ before := fun p hp => List.mem_of_getLast? hp
  have hmid : r ∈ before ++ r :: after := List.mem_append_right _ List.mem_cons_self
  -- The new chain in two parts: `before`, whose last record is linked to `following`, and `after`.
  refine ⟨relinked before q.head following,
    r.setNext (Record.linkFrom before.getLast? m following) .none, ?_, ?_, ?_,
    Record.next_setNext hr (hq.records_within r hmid),
    (Record.onlySlots_linkFrom.trans Record.onlySlots_set).mono fun x hx => ?_⟩
  · rw [remove, hfind, ok_bind, relinked]
    cases before.getLast? <;> rfl
  · -- First the record before is linked to the one behind, then the link of the record is ended.
    have hfront' := hfront.linkFrom hr following hsepbefore
      fun p _ => Memory.SameOn.refl _ m
    refine chain_append.mpr ⟨following, hfront'.congr_records fun p hp => ?_,
      hback.congr_records fun p hp => ?_⟩
    -- Ending the link of `r` touches no record of `before`.
    · exact Record.sameOn_set.mono fun a ha => (hcross p hp r List.mem_cons_self).not_mem ha
    · refine (Record.sameOn_linkFrom.mono fun a ha p' hp' => ?_).trans
        (Record.sameOn_set.mono fun a ha => (hapart p hp).symm.not_mem ha)
      exact (hcross p' (hmem p' hp') p (List.mem_cons_of_mem _ hp)).symm.not_mem ha
  · refine (Record.onlyLinks_linkFrom hsep fun p hp => ?_).trans
      (Record.onlyLinks_setNext hsep hmid)
    exact List.mem_append_left _ (hmem p hp)
  · exact (List.perm_append_singleton _ _).mem_iff.mp hx

end WaitQueue

end Timeshare
