import Timeshare.Proofs.Process.Standing

namespace Timeshare.Record

/-!
# The order of priorities

A ready queue that is filled one record after the other is a sorted list, and a stable one: records of
the same priority stay in the order in which they have come.

* `Record.byPriority m rs` — records in the order of their priorities, the highest first.
* `Record.rank m w rs` — the records of one priority; `Record.SameRanks m rs rs'` — two lists have the
  same ranks.
* `Record.eq_byPriority` — a list in order is the sorted list of any list with the same ranks.
* `Record.Place.sameRanks` — a record that gets its place in a queue has come last in its rank.
-/

variable {m n : Memory} {p r : Record} {rs rs' qs qs' ahead behind : List Record}

/-- Records in the order of their priorities, the highest first.  Those of the same priority stay in
    order. -/
def byPriority (m : Memory) (rs : List Record) : List Record :=
  rs.mergeSort fun p q => decide (q.priority m ≤ p.priority m)

/-- The records of one priority. -/
def rank (m : Memory) (w : Word) (rs : List Record) : List Record := rs.filter (·.priority m = w)

/-- For every priority, two lists have the same records, in the same order. -/
def SameRanks (m : Memory) (rs rs' : List Record) : Prop := ∀ w, rank m w rs = rank m w rs'

/-! ### Ranks -/

/-- A record is in the rank of `w` iff it is in the list and its priority is `w`. -/
theorem mem_rank {w : Word} : r ∈ rank m w rs ↔ r ∈ rs ∧ r.priority m = w := by
  rw [rank, List.mem_filter, decide_eq_true_eq]

theorem rank_append (m : Memory) (w : Word) (rs qs : List Record) :
    rank m w (rs ++ qs) = rank m w rs ++ rank m w qs := List.filter_append rs qs

/-- The rank of `w` in `r :: rs` has `r` in front if the priority of `r` is `w`. -/
theorem rank_cons (m : Memory) (w : Word) (r : Record) (rs : List Record) :
    rank m w (r :: rs) = if r.priority m = w then r :: rank m w rs else rank m w rs := by
  rw [rank, List.filter_cons]
  simp only [decide_eq_true_eq]
  rfl

/-- Ranks depend on the priorities of the records alone: `rank n w rs = rank m w rs`. -/
theorem rank_congr (h : ∀ p ∈ rs, p.priority n = p.priority m) (w : Word) :
    rank n w rs = rank m w rs :=
  List.filter_congr fun p hp => by rw [h p hp]

theorem SameRanks.symm (h : SameRanks m rs rs') : SameRanks m rs' rs := fun w => (h w).symm

/-- Having the same ranks is transitive. -/
theorem SameRanks.trans (h : SameRanks m rs rs') (h' : SameRanks m rs' qs) : SameRanks m rs qs :=
  fun w => (h w).trans (h' w)

/-- Lists with the same ranks keep them with the same records `qs` behind them. -/
theorem SameRanks.append_right (h : SameRanks m rs rs') (qs : List Record) :
    SameRanks m (rs ++ qs) (rs' ++ qs) := by
  intro w
  rw [rank_append, rank_append, h w]

/-- Lists with the same ranks have the same records: `r ∈ rs ↔ r ∈ rs'`. -/
theorem SameRanks.mem_iff (h : SameRanks m rs rs') : r ∈ rs ↔ r ∈ rs' := by
  have hrank := h (r.priority m)
  constructor
  · intro hr
    exact (mem_rank.mp (hrank ▸ mem_rank.mpr ⟨hr, rfl⟩)).1
  · intro hr
    exact (mem_rank.mp (hrank.symm ▸ mem_rank.mpr ⟨hr, rfl⟩)).1

/-- Nobody in a list in order has a higher priority than the first one, `p`. -/
theorem priority_le_first (h : (p :: rs).Pairwise fun p q => q.priority m ≤ p.priority m)
    (hr : r ∈ p :: rs) : r.priority m ≤ p.priority m := by
  rcases List.mem_cons.mp hr with rfl | hr
  · exact Int64.le_refl _
  · exact (List.pairwise_cons.mp h).1 r hr

/-- Having the same ranks depends on the priorities of the records alone. -/
theorem SameRanks.congr (h : SameRanks m rs rs') (hkept : ∀ p ∈ rs, p.priority n = p.priority m) :
    SameRanks n rs rs' := by
  intro w
  rw [rank_congr hkept, rank_congr fun p hp => hkept p (h.mem_iff.mpr hp), h w]

/-- **Lists in order are told apart by their ranks:** two of them with `SameRanks` are equal. -/
theorem SameRanks.eq_of_sorted (h : SameRanks m rs rs')
    (hrs : rs.Pairwise fun p q => q.priority m ≤ p.priority m)
    (hrs' : rs'.Pairwise fun p q => q.priority m ≤ p.priority m) : rs = rs' := by
  induction rs generalizing rs' with
  | nil =>
    refine (List.eq_nil_iff_forall_not_mem.mpr fun r hr => ?_).symm
    exact absurd (h.mem_iff.mpr hr) List.not_mem_nil
  | cons p rs ih =>
    cases rs' with
    | nil => exact absurd (h.mem_iff.mp List.mem_cons_self) List.not_mem_nil
    | cons q rs' =>
      -- Both lists start with the highest priority, and so with the same record.
      have hpriority : q.priority m = p.priority m :=
        Int64.le_antisymm (priority_le_first hrs (h.mem_iff.mpr List.mem_cons_self))
          (priority_le_first hrs' (h.mem_iff.mp List.mem_cons_self))
      have hfirst := h (p.priority m)
      rw [rank_cons, rank_cons, if_pos rfl, if_pos hpriority] at hfirst
      obtain ⟨rfl, -⟩ := List.cons.inj hfirst
      refine congrArg (p :: ·) (ih (fun w => ?_) hrs.tail hrs'.tail)
      -- Without the first record the ranks are still the same.
      have hw := h w
      rw [rank_cons, rank_cons] at hw
      split at hw
      · exact (List.cons.inj hw).2
      · exact hw

/-! ### Sorted lists -/

private theorem precedes_trans (m : Memory) (p q r : Record)
    (h : decide (q.priority m ≤ p.priority m) = true) (h' : decide (r.priority m ≤ q.priority m) = true) :
    decide (r.priority m ≤ p.priority m) = true :=
  decide_eq_true (Int64.le_trans (of_decide_eq_true h') (of_decide_eq_true h))

private theorem precedes_total (m : Memory) (p q : Record) :
    (decide (q.priority m ≤ p.priority m) || decide (p.priority m ≤ q.priority m)) = true := by
  rw [Bool.or_eq_true, decide_eq_true_eq, decide_eq_true_eq]
  exact Int64.le_total _ _

/-- The sorted list `byPriority m rs` has the records of `rs`. -/
theorem byPriority_perm (m : Memory) (rs : List Record) : (byPriority m rs).Perm rs :=
  List.mergeSort_perm _ _

/-- The sorted list is in order: no record `q` has a higher priority than a `p` before it. -/
theorem byPriority_sorted (m : Memory) (rs : List Record) :
    (byPriority m rs).Pairwise fun p q => q.priority m ≤ p.priority m :=
  (List.pairwise_mergeSort (precedes_trans m) (precedes_total m) rs).imp of_decide_eq_true

/-- **Sorting is stable:** `byPriority m rs` has the ranks of `rs`. -/
theorem sameRanks_byPriority (m : Memory) (rs : List Record) : SameRanks m (byPriority m rs) rs := by
  intro w
  have hrank : (rank m w rs).Pairwise fun p q => decide (q.priority m ≤ p.priority m) = true :=
    List.pairwise_of_forall_mem_list fun p hp q hq => by
      rw [(mem_rank.mp hp).2, (mem_rank.mp hq).2]
      exact decide_eq_true (Int64.le_refl w)
  -- A rank is in order already, and so sorting keeps it as a sublist.
  have hsub : (rank m w rs).Sublist (byPriority m rs) :=
    List.sublist_mergeSort (precedes_trans m) (precedes_total m) hrank List.filter_sublist
  have hself : rank m w (rank m w rs) = rank m w rs :=
    List.filter_eq_self.mpr fun p hp => decide_eq_true (mem_rank.mp hp).2
  have hsub' : (rank m w rs).Sublist (rank m w (byPriority m rs)) := hself ▸ hsub.filter _
  exact (hsub'.eq_of_length ((byPriority_perm m rs).filter _).length_eq.symm).symm

/-- The sorted list is the only one in order that has the same ranks: `rs = byPriority m rs'`. -/
theorem eq_byPriority (h : SameRanks m rs rs') (hrs : rs.Pairwise fun p q => q.priority m ≤ p.priority m) :
    rs = byPriority m rs' :=
  (h.trans (sameRanks_byPriority m rs').symm).eq_of_sorted hrs (byPriority_sorted m rs')

/-- Lists with the same ranks have the same sorted list: `byPriority m rs = byPriority m rs'`. -/
theorem SameRanks.byPriority_eq (h : SameRanks m rs rs') : byPriority m rs = byPriority m rs' :=
  eq_byPriority ((sameRanks_byPriority m rs).trans h) (byPriority_sorted m rs)

/-- The sorted list depends on the priorities of the records alone. -/
theorem byPriority_congr (h : ∀ p ∈ rs, p.priority n = p.priority m) :
    byPriority n rs = byPriority m rs := by
  have hsorted : ∀ p ∈ byPriority n rs, p.priority n = p.priority m := fun p hp =>
    h p ((byPriority_perm n rs).mem_iff.mp hp)
  refine eq_byPriority (fun w => ?_) (sorted_congr (byPriority_sorted n rs) fun p hp =>
    (hsorted p hp).symm)
  rw [← rank_congr hsorted, sameRanks_byPriority n rs w, rank_congr h]

/-! ### Places -/

/-- **A place.**  A record that gets its place has come last in its rank: `ahead ++ r :: behind` has
    the ranks of `rs ++ [r]`. -/
theorem Place.sameRanks (h : r.Place m rs ahead behind) :
    SameRanks m (ahead ++ r :: behind) (rs ++ [r]) := by
  obtain ⟨rfl, -, hbehind⟩ := h
  intro w
  rw [rank_append, rank_append, rank_append, rank_cons, rank_cons]
  by_cases hr : r.priority m = w
  · -- Behind its place there are lower priorities only.
    have hnone : rank m w behind = [] :=
      List.eq_nil_iff_forall_not_mem.mpr fun p hp => by
        obtain ⟨hmem, hw⟩ := mem_rank.mp hp
        exact Int64.ne_of_lt (hbehind p hmem) (hw.trans hr.symm)
    rw [if_pos hr, if_pos hr, hnone, List.append_nil]
    rfl
  · rw [if_neg hr, if_neg hr]
    exact (List.append_nil _).symm

end Timeshare.Record
