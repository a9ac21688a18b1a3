import Timeshare.Proofs.Process.Queue

namespace Timeshare

/-!
# Where processes stand

Where a process stands is written down twice: by the queue that its record is in, and by the state and
the reason in the record.  The two agree, and the ready queue is in the order of the priorities.

* `Record.MarkedReady m r`, `Record.MarkedWaiting m r` — what the record of a ready or of a waiting
  process says.
* `Record.Place m r rs ahead behind` — where a record belongs in a queue that is in order.
* `Standing m ready waiting` — all records are marked for their queue, and the ready queue is in order.
* `Standing.makeReady`, `Standing.makeWaiting`, `Standing.sublist` — a record enters a queue, or leaves
  one.
-/

namespace Record

variable {region : Region} {m n : Memory} {r p : Record} {rs ahead behind : List Record}

/-! ### Marks -/

/-- The state that was set is read back: `r.state? (r.setState m s) = some s`. -/
theorem state?_setState (hr : region.Fits) (h : r.Within region) (s : ProcessState) :
    r.state? (r.setState m s) = some s := by
  rw [state?, setState, get_set_self hr h, ProcessState.ofCode?_code]

/-- The reason that was set is read back: `r.reason? (r.setReason m w) = some w`. -/
theorem reason?_setReason (hr : region.Fits) (h : r.Within region) (w : WaitReason) :
    r.reason? (r.setReason m w) = some w := by
  rw [reason?, setReason, get_set_self hr h, WaitReason.ofCode?_code]

/-- A new process waits for nothing: its reason is `none`. -/
theorem reason?_init (hr : region.Fits) (h : r.Within region) {pid priority : Word} :
    r.reason? (r.init m pid priority) = some .none := by
  unfold init
  rw [reason?, get_set_of_ne (by simp)]
  exact reason?_setReason hr h .none

/-- The state depends on its slot `.state` alone. -/
theorem state?_congr (h : r.get n .state = r.get m .state) : r.state? n = r.state? m := by
  rw [state?, h, state?]

/-- The reason depends on its slot `.reason` alone. -/
theorem reason?_congr (h : r.get n .reason = r.get m .reason) : r.reason? n = r.reason? m := by
  rw [reason?, h, reason?]

/-- A record that is linked in has the state `s` that was set, and the reason that it had. -/
theorem OnlyLinks.marks {s : ProcessState} (hr : region.Fits) (hw : r.Within region)
    (h : OnlyLinks rs (r.setState m s) n) (hmem : r ∈ rs) :
    r.state? n = some s ∧ r.reason? n = r.reason? m := by
  constructor
  · rw [state?_congr (h.slots r hmem .state (by simp)), state?_setState hr hw]
  · refine reason?_congr ((h.slots r hmem .reason (by simp)).trans ?_)
    exact get_set_of_ne (by simp)

/-- The record of a ready process. -/
structure MarkedReady (m : Memory) (r : Record) : Prop where
  state : r.state? m = some .ready
  reason : r.reason? m = some .none

/-- The record of a waiting process. -/
structure MarkedWaiting (m : Memory) (r : Record) : Prop where
  state : r.state? m = some .waiting
  reason : ∃ reason, reason ≠ .none ∧ r.reason? m = some reason

/-- A record stays `MarkedReady` as long as its slots stay, its link apart. -/
theorem MarkedReady.congr (h : r.MarkedReady m) (hn : ∀ s, s ≠ .next → r.get n s = r.get m s) :
    r.MarkedReady n :=
  ⟨(state?_congr (hn .state (by simp))).trans h.state,
    (reason?_congr (hn .reason (by simp))).trans h.reason⟩

/-- A record stays `MarkedWaiting` as long as its slots stay, its link apart. -/
theorem MarkedWaiting.congr (h : r.MarkedWaiting m) (hn : ∀ s, s ≠ .next → r.get n s = r.get m s) :
    r.MarkedWaiting n := by
  obtain ⟨reason, hne, hreason⟩ := h.reason
  exact ⟨(state?_congr (hn .state (by simp))).trans h.state, reason, hne,
    (reason?_congr (hn .reason (by simp))).trans hreason⟩

/-- The record of a waiting process says `inputCompletion` or `outputCompletion`. -/
theorem MarkedWaiting.awaits (h : r.MarkedWaiting m) :
    r.reason? m = some .inputCompletion ∨ r.reason? m = some .outputCompletion := by
  obtain ⟨reason, hne, hreason⟩ := h.reason
  cases reason with
  | none => exact absurd rfl hne
  | inputCompletion => exact .inl hreason
  | outputCompletion => exact .inr hreason

/-! ### Places -/

/-- The place of a record in a queue is behind all records of the same or a higher priority, and before
    those of a lower one. -/
structure Place (m : Memory) (r : Record) (rs ahead behind : List Record) : Prop where
  eq : rs = ahead ++ behind
  ahead : ∀ p ∈ ahead, r.priority m ≤ p.priority m
  behind : ∀ p ∈ behind, p.priority m < r.priority m

/-- A list stays in order as long as its priorities are the same: `p.priority n = p.priority m`. -/
theorem sorted_congr (h : rs.Pairwise fun p q => q.priority m ≤ p.priority m)
    (hkept : ∀ p ∈ rs, p.priority n = p.priority m) :
    rs.Pairwise fun p q => q.priority n ≤ p.priority n := by
  refine h.imp_of_mem fun {p q} hp hq hpq => ?_
  rw [hkept p hp, hkept q hq]
  exact hpq

/-- In a list that is in order, the search for a place may end at the first lower priority: all
    records of `behind` have lower ones. -/
theorem place_of_sorted (hsorted : rs.Pairwise fun p q => q.priority m ≤ p.priority m)
    (heq : rs = ahead ++ behind) (hahead : ∀ p ∈ ahead, r.priority m ≤ p.priority m)
    (hbehind : ∀ p ∈ behind.head?, p.priority m < r.priority m) : r.Place m rs ahead behind := by
  subst heq
  refine ⟨rfl, hahead, fun p hp => ?_⟩
  cases behind with
  | nil => exact absurd hp (by simp)
  | cons first rest =>
    have hfirst := hbehind first rfl
    obtain ⟨hrest, -⟩ := List.pairwise_cons.mp (List.pairwise_append.mp hsorted).2.1
    rcases List.mem_cons.mp hp with rfl | hp
    · exact hfirst
    · exact Int64.lt_of_le_of_lt (hrest p hp) hfirst

/-- A list in order stays so when a record gets its place: `ahead ++ r :: behind` is in order. -/
theorem Place.sorted (h : r.Place m rs ahead behind)
    (hsorted : rs.Pairwise fun p q => q.priority m ≤ p.priority m) :
    (ahead ++ r :: behind).Pairwise fun p q => q.priority m ≤ p.priority m := by
  obtain ⟨rfl, hahead, hbehind⟩ := h
  obtain ⟨hfront, hback, hcross⟩ := List.pairwise_append.mp hsorted
  refine List.pairwise_append.mpr ⟨hfront, List.pairwise_cons.mpr ⟨fun p hp => ?_, hback⟩, ?_⟩
  · exact Int64.le_of_lt (hbehind p hp)
  · intro p hp q hq
    rcases List.mem_cons.mp hq with rfl | hq
    · exact hahead p hp
    · exact hcross p hp q hq

/-- A place depends on the priorities alone, those of `rs` and that of `r`. -/
theorem Place.congr_priorities (h : r.Place m rs ahead behind)
    (hrs : ∀ p ∈ rs, p.priority n = p.priority m) (hr : r.priority n = r.priority m) :
    r.Place n rs ahead behind := by
  obtain ⟨rfl, hahead, hbehind⟩ := h
  refine ⟨rfl, fun p hp => ?_, fun p hp => ?_⟩
  · rw [hr, hrs p (List.mem_append_left _ hp)]
    exact hahead p hp
  · rw [hr, hrs p (List.mem_append_right _ hp)]
    exact hbehind p hp

/-- A place stays one where the records of the list are kept. -/
theorem Place.congr (h : r.Place m rs ahead behind) (hkept : Kept rs m n)
    (hr : r.priority n = r.priority m) : r.Place n rs ahead behind :=
  h.congr_priorities (fun p hp => hkept.get p hp .priority (by simp)) hr

/-- A record that moves from between `before` and `after` to its place in `rs` is lost nowhere. -/
theorem Place.perm (h : r.Place m rs ahead behind) (before after : List Record) :
    (ahead ++ r :: behind ++ (before ++ after)).Perm (rs ++ (before ++ r :: after)) := by
  obtain ⟨rfl, -, -⟩ := h
  calc ahead ++ r :: behind ++ (before ++ after)
    _ |>.Perm (r :: (ahead ++ behind ++ (before ++ after))) := List.perm_middle.append_right _
    _ |>.Perm (ahead ++ behind ++ r :: (before ++ after)) := List.perm_middle.symm
    _ |>.Perm (ahead ++ behind ++ (before ++ r :: after)) := List.perm_middle.symm.append_left _

/-- A record stands behind all records `p` with `r.priority m ≤ p.priority m`. -/
theorem Place.pair_sublist (h : r.Place m rs ahead behind) (hp : p ∈ rs)
    (hle : r.priority m ≤ p.priority m) : [p, r].Sublist (ahead ++ r :: behind) := by
  obtain ⟨rfl, -, hbehind⟩ := h
  have hahead : p ∈ ahead := by
    rcases List.mem_append.mp hp with hp | hp
    · exact hp
    · exact absurd (hbehind p hp) (Int64.not_lt.mpr hle)
  exact (List.singleton_sublist.mpr hahead).append (List.singleton_sublist.mpr List.mem_cons_self)

end Record

/-! ### Queues -/

/-- The records of both queues say where they stand, and the ready queue starts with the highest
    priority. -/
structure Standing (m : Memory) (ready waiting : List Record) : Prop where
  sorted : ready.Pairwise fun p q => q.priority m ≤ p.priority m
  ready : ∀ r ∈ ready, r.MarkedReady m
  waiting : ∀ r ∈ waiting, r.MarkedWaiting m

namespace Standing

variable {m n : Memory} {ready waiting ready' waiting' ahead behind : List Record} {r : Record}

theorem nil (m : Memory) : Standing m [] [] := ⟨List.Pairwise.nil, by simp, by simp⟩

/-- Links do not matter: records that are `Kept` stand where they did. -/
theorem congr (h : Standing m ready waiting) (hkept : Record.Kept (ready ++ waiting) m n) :
    Standing n ready waiting := by
  have hready : ∀ r ∈ ready, ∀ s, s ≠ .next → r.get n s = r.get m s := fun r hr =>
    hkept.get r (List.mem_append_left _ hr)
  exact ⟨Record.sorted_congr h.sorted fun r hr => hready r hr .priority (by simp),
    fun r hr => (h.ready r hr).congr (hready r hr),
    fun r hr => (h.waiting r hr).congr (hkept.get r (List.mem_append_right _ hr))⟩

/-- Records may leave the queues: what is left, a `Sublist` of each, stands where it did. -/
theorem sublist (h : Standing m ready waiting) (hready : ready'.Sublist ready)
    (hwaiting : waiting'.Sublist waiting) : Standing m ready' waiting' :=
  ⟨h.sorted.sublist hready, fun r hr => h.ready r (hready.subset hr),
    fun r hr => h.waiting r (hwaiting.subset hr)⟩

/-- Of two ready processes, the one with the higher priority stands before the other:
    `[p, q].Sublist ready`. -/
theorem pair_sublist {p q : Record} (h : Standing m ready waiting) (hp : p ∈ ready) (hq : q ∈ ready)
    (hlt : q.priority m < p.priority m) : [p, q].Sublist ready := by
  obtain ⟨before, after, rfl⟩ := List.append_of_mem hp
  rcases List.mem_append.mp hq with hq | hq
  · -- Who stands before a process has no lower priority.
    have hle : p.priority m ≤ q.priority m :=
      (List.pairwise_append.mp h.sorted).2.2 q hq p List.mem_cons_self
    exact absurd hlt (Int64.not_lt.mpr hle)
  · rcases List.mem_cons.mp hq with rfl | hq
    · exact absurd hlt (Int64.not_lt.mpr (Int64.le_refl _))
    · exact ((List.singleton_sublist.mpr hq).cons_cons p).trans (List.sublist_append_right _ _)

/-- A process that is marked as ready may enter the ready queue at its place:
    `ahead ++ r :: behind`. -/
theorem makeReady (h : Standing m ready waiting) (hplace : r.Place m ready ahead behind)
    (hr : r.MarkedReady m) : Standing m (ahead ++ r :: behind) waiting := by
  refine ⟨hplace.sorted h.sorted, fun p hp => ?_, h.waiting⟩
  obtain ⟨rfl, -, -⟩ := hplace
  have hmem : p = r ∨ p ∈ ahead ++ behind := List.mem_cons.mp (List.perm_middle.mem_iff.mp hp)
  rcases hmem with rfl | hmem
  · exact hr
  · exact h.ready p hmem

/-- A process that is marked as waiting may enter the wait queue in front: `r :: waiting`. -/
theorem makeWaiting (h : Standing m ready waiting) (hr : r.MarkedWaiting m) :
    Standing m ready (r :: waiting) :=
  ⟨h.sorted, h.ready, List.forall_mem_cons.mpr ⟨hr, h.waiting⟩⟩

end Standing

end Timeshare
