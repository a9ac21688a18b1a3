import Timeshare.Proofs.Process.Queue
import Timeshare.Proofs.Storage.FirstFit

namespace Timeshare

/-!
# Who owns the words of a pool of process records

The free list and both queues are threaded through the words of one region.  A ledger says that
every word of the region belongs to exactly one free block, to one record in one of the queues, or
to a record that the kernel holds in its hands while it moves it.

* `Ledger r m f q w free ready waiting held` — in the memory `m`, the lists from the links `f`, `q`
  and `w` are the free blocks and the records of the queues, and together with the records held they
  tile the region `r`.
* `Tidy size free` — all free blocks have one size, but for the last one.  Since all that is ever taken
  from the pool has the size of a record, no more than this becomes of its free list.
* `Ledger.count_words` — how many words are free.
* `Ledger.frame`, `Ledger.withReady`, `Ledger.withWaiting`, `Ledger.withFree` — what keeps a ledger: a
  change inside the records held, or to one of the three lists.
* `Ledger.take`, `Ledger.giveBack` — a record is cut from a free block, and becomes one again.
* `Ledger.allocate_first`, `Ledger.allocate_freed` — which block this is; one that was given back just
  before is taken again.
-/

/-! ### Free blocks of one size -/

/-- The free blocks `bs` have one size, but for the last one. -/
def Tidy (size : Word) (bs : List FreeBlock) : Prop := ∀ b ∈ bs.dropLast, b.size = size

namespace Tidy

variable {size : Word} {b : FreeBlock} {bs skipped rest left : List FreeBlock}

/-- One block alone is tidy, whatever its size: `Tidy size [b]`. -/
theorem singleton (size : Word) (b : FreeBlock) : Tidy size [b] := by simp [Tidy]

/-- A block of the size may come first: `Tidy size (b :: bs)`. -/
theorem cons (h : Tidy size bs) (hb : b.size = size) : Tidy size (b :: bs) := by
  cases bs with
  | nil => exact singleton size b
  | cons c bs =>
    intro d hd
    rw [List.dropLast_cons_of_ne_nil (by simp)] at hd
    rcases List.mem_cons.mp hd with rfl | hd
    · exact hb
    · exact h d hd

/-- Only the last block can be cut; any other is taken as a whole.  So `skipped ++ left ++ rest` is
    tidy again, where `left` is what remains of the block `b`. -/
theorem splits (h : Tidy size (skipped ++ b :: rest)) (hleft : b.Splits size left) :
    Tidy size (skipped ++ left ++ rest) := by
  -- Either the block is the last one, and may be cut, or it has the size.
  cases rest with
  | nil =>
    have hskipped : ∀ c ∈ skipped, c.size = size := by
      intro c hc
      refine h c ?_
      rwa [List.dropLast_concat]
    rw [List.append_nil]
    intro c hc
    refine hskipped c ?_
    cases hleft with
    | whole _ =>
      rw [List.append_nil] at hc
      exact List.dropLast_subset _ hc
    | front rest _ _ _ => rwa [List.dropLast_concat] at hc
  | cons next rest =>
    rw [Tidy, List.dropLast_append_of_ne_nil (by simp), List.dropLast_cons_of_ne_nil (by simp)] at h
    have hb : b.size = size := h b (by simp)
    cases hleft with
    | whole _ =>
      rw [List.append_nil, Tidy, List.dropLast_append_of_ne_nil (by simp)]
      intro c hc
      refine h c ?_
      simp only [List.mem_append, List.mem_cons] at hc ⊢
      tauto
    | front left hlt _ _ =>
      rw [hb] at hlt
      omega

end Tidy

/-! ### Ledgers -/

/-- Every word of the region `r` belongs to one of the blocks `free`, which are listed from `f`, to
    one of the records `ready` and `waiting`, which are queued from `q` and `w`, or to one of those
    `held`. -/
structure Ledger (r : Region) (m : Memory) (f q w : Link) (free : List FreeBlock)
    (ready waiting held : List Record) : Prop where
  freeChain : FreeChain r m f free
  readyChain : RecordChain r m q ready
  waitChain : RecordChain r m w waiting
  tiles : Tiles (free.map FreeBlock.span ++ (ready ++ waiting ++ held).map Record.span) r.span
  tidy : Tidy recordSize free

namespace Ledger

variable {r : Region} {m n : Memory} {f q w f' q' w' : Link} {free free' : List FreeBlock}
  {ready waiting held ready' waiting' held' : List Record} {x y : Record} {b : FreeBlock}

/-! ### What a ledger says -/

/-- The free blocks and the records are pairwise `Span.Apart`. -/
theorem pieces_apart (h : Ledger r m f q w free ready waiting held) :
    (free.map FreeBlock.span ++ (ready ++ waiting ++ held).map Record.span).Pairwise Span.Apart := by
  refine h.tiles.apart fun s hs => ?_
  rcases List.mem_append.mp hs with hs | hs
  · obtain ⟨b, hb, rfl⟩ := List.mem_map.mp hs
    exact (h.freeChain.within b hb).span_pos
  · obtain ⟨x, -, rfl⟩ := List.mem_map.mp hs
    exact x.span_pos

/-- Free blocks are apart from each other, records are, and each `b ∈ free` is apart from each
    record. -/
theorem separate (h : Ledger r m f q w free ready waiting held) :
    Separate FreeBlock.span free ∧ Separate Record.span (ready ++ waiting ++ held)
      ∧ ∀ b ∈ free, ∀ x ∈ ready ++ waiting ++ held, b.span.Apart x.span := by
  obtain ⟨hfree, hrecords, hcross⟩ := List.pairwise_append.mp h.pieces_apart
  exact ⟨List.pairwise_map.mp hfree, List.pairwise_map.mp hrecords, fun b hb x hx =>
    hcross _ (List.mem_map_of_mem hb) _ (List.mem_map_of_mem hx)⟩

/-- No record has two places: `ready ++ waiting ++ held` has no duplicates. -/
theorem nodup (h : Ledger r m f q w free ready waiting held) : (ready ++ waiting ++ held).Nodup :=
  h.separate.2.1.nodup fun x _ => x.span_pos

/-- The ready records are apart from each other. -/
theorem separate_ready (h : Ledger r m f q w free ready waiting held) :
    Separate Record.span ready :=
  (List.pairwise_append.mp (List.pairwise_append.mp h.separate.2.1).1).1

/-- The waiting records are apart from each other. -/
theorem separate_waiting (h : Ledger r m f q w free ready waiting held) :
    Separate Record.span waiting :=
  (List.pairwise_append.mp (List.pairwise_append.mp h.separate.2.1).1).2.1

/-- A record `x` that is held is apart from each `y` in the queues. -/
theorem apart_held (h : Ledger r m f q w free ready waiting held) (hx : x ∈ held)
    (hy : y ∈ ready ++ waiting) : x.span.Apart y.span :=
  ((List.pairwise_append.mp h.separate.2.1).2.2 y hy x hx).symm

/-- A record `x` in the ready queue is apart from each `y` in the wait queue. -/
theorem apart_queues (h : Ledger r m f q w free ready waiting held) (hx : x ∈ ready)
    (hy : y ∈ waiting) : x.span.Apart y.span :=
  (List.pairwise_append.mp (List.pairwise_append.mp h.separate.2.1).1).2.2 x hx y hy

/-- A free block `b` is apart from every record `x`. -/
theorem apart_free (h : Ledger r m f q w free ready waiting held) (hb : b ∈ free)
    (hx : x ∈ ready ++ waiting ++ held) : b.span.Apart x.span := h.separate.2.2 b hb x hx

/-- All records lie in the region `r`. -/
theorem within (hr : r.Fits) (h : Ledger r m f q w free ready waiting held)
    (hx : x ∈ ready ++ waiting ++ held) : x.Within r := by
  have hb := h.tiles.bounds (List.mem_append_right _ (List.mem_map_of_mem hx)) x.span_pos
  have hlen := hr.length_toNat
  have hle := hr.start_le
  have hs : r.span.start = r.start.toNat := rfl
  have hz : r.span.size = r.length.toNat := rfl
  have hx' : x.span.start = x.address.index := rfl
  have hxz : x.span.size = 22 := rfl
  exact ⟨by omega, by omega⟩

/-- **Every word counts once.**  The words of the region are those of the free blocks and `22` for
    each record. -/
theorem count_words (h : Ledger r m f q w free ready waiting held) :
    (free.flatMap fun b => b.span.words).length
      + 22 * (ready.length + waiting.length + held.length) = r.length.toNat := by
  have hcount := h.tiles.length_words
  have hrecords : ∀ xs : List Record, (xs.flatMap fun x => x.span.words).length = 22 * xs.length := by
    intro xs
    induction xs with
    | nil => rfl
    | cons x xs ih =>
      rw [List.flatMap_cons, List.length_append, Span.length_words, ih, List.length_cons]
      show 22 + 22 * xs.length = 22 * (xs.length + 1)
      omega
  rw [List.flatMap_append, List.flatMap_map, List.flatMap_map, List.length_append, hrecords,
    List.length_append, List.length_append] at hcount
  exact hcount

/-- There are at most as many ready records as the region has room for, `r.length.toNat / 22`. -/
theorem length_ready (h : Ledger r m f q w free ready waiting held) :
    ready.length ≤ r.length.toNat / 22 := by
  have := h.count_words
  omega

/-- There are at most as many waiting records as the region has room for, `r.length.toNat / 22`. -/
theorem length_waiting (h : Ledger r m f q w free ready waiting held) :
    waiting.length ≤ r.length.toNat / 22 := by
  have := h.count_words
  omega

/-- A free block has two words or more, so that there are at most `r.length.toNat / 2`. -/
theorem length_free (h : Ledger r m f q w free ready waiting held) :
    free.length ≤ r.length.toNat / 2 := by
  have hmul := h.tiles.length_mul_le (k := 2) ?_
  · rw [List.length_append, List.length_map] at hmul
    have hz : r.span.size = r.length.toNat := rfl
    omega
  · intro s hs
    rcases List.mem_append.mp hs with hs | hs
    · obtain ⟨b, hb, rfl⟩ := List.mem_map.mp hs
      have h2 := (h.freeChain.within b hb).two_le
      show 2 ≤ b.size.toInt.toNat
      omega
    · obtain ⟨x, -, rfl⟩ := List.mem_map.mp hs
      show 2 ≤ 22
      omega

/-! ### What keeps a ledger -/

/-- A record `x` moves from the hands into the middle of a queue. -/
theorem perm_insert (ahead behind held : List Record) (x : Record) :
    (ahead ++ x :: behind ++ held).Perm (ahead ++ behind ++ x :: held) := by
  rw [List.append_assoc, List.cons_append]
  refine List.perm_middle.trans ?_
  rw [← List.append_assoc]
  exact List.perm_middle.symm

/-- A queued record lies in the region, and it is none of those held: a change outside `r`, or
    inside the records `held`, does not touch it. -/
theorem untouched (h : Ledger r m f q w free ready waiting held)
    (hmn : Memory.SameOn (fun a => a ∈ r ∧ ∀ x ∈ held, a ∉ x.span) m n) :
    Record.Untouched (ready ++ waiting) m n := by
  intro y hy
  have hin : y.Within r := by
    rcases List.mem_append.mp hy with hy | hy
    · exact h.readyChain.records_within y hy
    · exact h.waitChain.records_within y hy
  exact hmn.mono fun a ha => ⟨hin.mem_of_span ha, fun x hx => (h.apart_held hx hy).symm.not_mem ha⟩

/-- A change outside the region `r`, or inside the records `held`, keeps the ledger. -/
theorem frame (h : Ledger r m f q w free ready waiting held)
    (hmn : Memory.SameOn (fun a => a ∈ r ∧ ∀ x ∈ held, a ∉ x.span) m n) :
    Ledger r n f q w free ready waiting held := by
  have hqueues := h.untouched hmn
  refine ⟨h.freeChain.congr_blocks fun b hb => ?_, h.readyChain.congr_records fun y hy => ?_,
    h.waitChain.congr_records fun y hy => ?_, h.tiles, h.tidy⟩
  · refine hmn.mono fun a ha => ⟨(h.freeChain.within b hb).mem_of_span ha, fun x hx => ?_⟩
    exact (h.apart_free hb (List.mem_append_right _ hx)).not_mem ha
  · exact hqueues y (List.mem_append_left _ hy)
  · exact hqueues y (List.mem_append_right _ hy)

/-- The queues may change their places: `q` and `w`, `ready` and `waiting`. -/
theorem swap (h : Ledger r m f q w free ready waiting held) :
    Ledger r m f w q free waiting ready held :=
  ⟨h.freeChain, h.waitChain, h.readyChain, h.tiles.perm <|
    ((List.perm_append_comm.append_right held).map Record.span).append_left _, h.tidy⟩

/-- A change to the wait queue, with records from the hands or into them: what is written lies in
    records that waited or were held, and `waiting' ++ held'` are these records. -/
theorem withWaiting (h : Ledger r m f q w free ready waiting held)
    (hmn : Memory.SameOn (fun a => ∀ x ∈ waiting ++ held, a ∉ x.span) m n)
    (hwaiting : RecordChain r n w' waiting')
    (hperm : (waiting' ++ held').Perm (waiting ++ held)) :
    Ledger r n f q w' free ready waiting' held' := by
  have hmem : ∀ x ∈ waiting ++ held, x ∈ ready ++ waiting ++ held := by
    intro x hx
    rw [List.append_assoc]
    exact List.mem_append_right _ hx
  refine ⟨h.freeChain.congr_blocks fun b hb => hmn.mono fun a ha x hx => ?_,
    h.readyChain.congr_records fun y hy => hmn.mono fun a ha x hx => ?_, hwaiting, h.tiles.perm ?_,
    h.tidy⟩
  -- Free blocks and ready records lie apart from what is written.
  · exact (h.apart_free hb (hmem x hx)).not_mem ha
  · rcases List.mem_append.mp hx with hx | hx
    · exact (h.apart_queues hy hx).not_mem ha
    · exact (h.apart_held hx (List.mem_append_left _ hy)).symm.not_mem ha
  · refine List.Perm.append_left _ (List.Perm.map _ ?_)
    rw [List.append_assoc, List.append_assoc]
    exact hperm.append_left ready

/-- A change to the ready queue, with records from the hands or into them: what is written lies in
    records that were ready or held, and `ready' ++ held'` are these records. -/
theorem withReady (h : Ledger r m f q w free ready waiting held)
    (hmn : Memory.SameOn (fun a => ∀ x ∈ ready ++ held, a ∉ x.span) m n)
    (hready : RecordChain r n q' ready') (hperm : (ready' ++ held').Perm (ready ++ held)) :
    Ledger r n f q' w free ready' waiting held' :=
  (h.swap.withWaiting hmn hready hperm).swap

/-- A change to the free list, with records from the hands or into them: what is written lies in
    free blocks or in records of `held`, and the new pieces tile the region. -/
theorem withFree (h : Ledger r m f q w free ready waiting held)
    (hmn : Memory.SameOn (fun a => (∀ b ∈ free, a ∉ b.span) ∧ ∀ x ∈ held, a ∉ x.span) m n)
    (hfree : FreeChain r n f' free')
    (htiles : Tiles (free'.map FreeBlock.span ++ (ready ++ waiting ++ held').map Record.span)
      r.span) (htidy : Tidy recordSize free') :
    Ledger r n f' q w free' ready waiting held' := by
  have hqueues : ∀ y ∈ ready ++ waiting, Memory.SameOn (· ∈ y.span) m n := fun y hy =>
    hmn.mono fun a ha =>
      ⟨fun b hb => (h.apart_free hb (List.mem_append_left _ hy)).symm.not_mem ha,
        fun x hx => (h.apart_held hx hy).symm.not_mem ha⟩
  exact ⟨hfree, h.readyChain.congr_records fun y hy => hqueues y (List.mem_append_left _ hy),
    h.waitChain.congr_records fun y hy => hqueues y (List.mem_append_right _ hy), htiles, htidy⟩

/-! ### Records from the pool and back -/

/-- A record `x` that is held may be listed first. -/
theorem tiles_held {pieces : List Span} {whole : Span} :
    Tiles (pieces ++ (ready ++ waiting ++ x :: held).map Record.span) whole ↔
      Tiles (x.span :: (pieces ++ (ready ++ waiting ++ held).map Record.span)) whole := by
  have hperm : (pieces ++ (ready ++ waiting ++ x :: held).map Record.span).Perm
      (x.span :: (pieces ++ (ready ++ waiting ++ held).map Record.span)) := by
    simp only [List.map_append, List.map_cons, ← List.append_assoc]
    exact List.perm_middle
  exact ⟨fun h => h.perm hperm.symm, fun h => h.perm hperm⟩

/-- A record has 22 words. -/
theorem recordSize_toInt : recordSize.toInt = 22 := by decide

/-- A record is taken from the first free block that can hold it, and there is `noFreeMemory` if
    none can. -/
theorem allocate_first (hr : r.Fits) {p : Pool} (hp : p.region = r)
    (h : Ledger r m p.head q w free ready waiting held) :
    (p.allocate m recordSize).outcome.map Prod.fst =
      match free.find? fun b => decide (b.Fits recordSize) with
      | some b => .ok b.address
      | none => .error .noFreeMemory := by
  have hmax : max recordSize minBlockSize = recordSize := by decide
  have hone : 1 ≤ recordSize.toInt := by decide
  subst hp
  have hfit := Pool.allocate_firstFit hr h.freeChain h.length_free h.separate.1 hone
  rw [hmax] at hfit
  -- First fit skips blocks that do not fit, and so does `find?`.
  rcases hfit with ⟨hnone, hout⟩ | ⟨skipped, b, rest, left, head, m', rfl, hskipped, hsplits, hout, -⟩
  · have hfind : (free.find? fun b => decide (b.Fits recordSize)) = none := by simpa using hnone
    rw [hout, hfind]
    rfl
  · have hfind : ((skipped ++ b :: rest).find? fun b => decide (b.Fits recordSize)) = some b := by
      rw [List.find?_eq_some_iff_append]
      exact ⟨decide_eq_true hsplits.fits, skipped, rest, rfl, by simpa using hskipped⟩
    rw [hout, hfind]
    rfl

/-- The free block that the record `x` becomes. -/
def freed (x : Record) : FreeBlock := ⟨x.address, recordSize⟩

/-- The free block that a record becomes has the words of the record: `(freed x).span = x.span`. -/
theorem freed_span (x : Record) : (freed x).span = x.span := by
  rw [FreeBlock.span, Record.span, Span.mk.injEq]
  exact ⟨rfl, by show recordSize.toInt.toNat = 22; rw [recordSize_toInt]; rfl⟩

/-- **Taking a record from the pool.**  Either no block of `free` can hold it, and the fault is
    `noFreeMemory`, or it is cut from the first one that can, and is held from then on. -/
theorem take (hr : r.Fits) {p : Pool} (hp : p.region = r)
    (h : Ledger r m p.head q w free ready waiting held) :
    ((∀ b ∈ free, ¬ b.Fits recordSize)
        ∧ (p.allocate m recordSize).outcome = .error .noFreeMemory) ∨
      ∃ x head m' free', (p.allocate m recordSize).outcome = .ok (x.address, { p with head }, m')
        ∧ Ledger r m' head q w free' ready waiting (x :: held)
        ∧ Memory.SameOn (fun a => ∀ b ∈ free, a ∉ b.span) m m' := by
  -- A record is larger than the smallest block, so that the request is not rounded up.
  have hmax : max recordSize minBlockSize = recordSize := by decide
  have hsize := recordSize_toInt
  subst hp
  have hone : 1 ≤ recordSize.toInt := by omega
  have hfit := Pool.allocate_firstFit hr h.freeChain h.length_free h.separate.1 hone
  rw [hmax] at hfit
  rcases hfit with
    hnone | ⟨skipped, b, rest, left, head, m', rfl, -, hsplits, hout, hchain, hnode, hframe⟩
  · exact .inl hnone
  · -- The link that changes is a word of a free block, too.
    have hsame : Memory.SameOn (fun a => ∀ c ∈ skipped ++ b :: rest, a ∉ c.span) m m' := by
      refine hframe.mono fun a ha => ⟨fun c hc hac => ha b (by simp) (hnode c hc a hac), ?_, ?_⟩
      · rintro rfl
        exact ha b (by simp) (h.freeChain.within b (by simp)).address_mem_span
      rintro c hc rfl
      have hmem : c ∈ skipped ++ b :: rest :=
        List.mem_append_left _ (List.mem_of_getLast? hc)
      exact ha c hmem (h.freeChain.within c hmem).address_mem_span
    refine .inr ⟨⟨b.address⟩, head, m', skipped ++ left ++ rest, hout,
      h.withFree (hsame.mono fun a ha => ha.1) hchain ?_ (h.tidy.splits hsplits), hsame⟩
    have htiles := h.tiles
    rw [List.map_append, List.map_cons, List.append_assoc, List.cons_append] at htiles
    have hcut := hsplits.tiles (by omega) htiles
    rw [hsize] at hcut
    have hspan : Span.mk b.address.index (Int.toNat 22) = Record.span ⟨b.address⟩ := rfl
    rw [hspan] at hcut
    rw [tiles_held, List.map_append, List.map_append]
    simpa only [List.append_assoc] using hcut

/-- The record that was given back last is the first to be taken again: with `freed x` in front, the
    pool hands out `x.address`. -/
theorem allocate_freed (hr : r.Fits) {p : Pool} (hp : p.region = r)
    (h : Ledger r m p.head q w (freed x :: free) ready waiting held) :
    (p.allocate m recordSize).outcome.map Prod.fst = .ok x.address := by
  have hfits : (freed x).Fits recordSize := .inl rfl
  rw [h.allocate_first hr hp, List.find?_cons, decide_eq_true hfits]
  rfl

/-- **Releasing a record to the pool.**  `freed x` becomes the first free block, whether `x` is held
    or in a queue, and nothing is written but the two words of a node. -/
theorem release_record (hr : r.Fits) {p : Pool} (hp : p.region = r)
    (h : Ledger r m p.head q w free ready waiting held) (hmem : x ∈ ready ++ waiting ++ held) :
    ∃ m', (p.release m x.address.toWord recordSize).outcome
        = .ok ({ p with head := .node x.address }, m')
      ∧ FreeChain r m' (.node x.address) (freed x :: free)
      ∧ Memory.SameOn (· ∉ (freed x).nodeSpan) m m' := by
  subst hp
  have hx := h.within hr hmem
  -- A record has more words than a node needs.
  have hin : (freed x).Within p.region := by
    have hsize := recordSize_toInt
    have := hx.le_last
    refine ⟨?_, hx.start_le, ?_⟩
    · show 2 ≤ recordSize.toInt
      omega
    · show (x.address.index : Int) + recordSize.toInt ≤ _
      omega
  have hapart : ∀ c ∈ free, (freed x).span.Apart c.span := by
    intro c hc
    rw [freed_span]
    exact (h.apart_free hc hmem).symm
  exact Pool.release_front hr h.freeChain h.length_free hin hapart
    (show recordSize = Pool.releasedSize recordSize by decide)

/-- The node of the free block `freed x` lies in the record `x`. -/
theorem mem_span_of_freed {a : Address} (ha : a ∈ (freed x).nodeSpan) : a ∈ x.span := by
  obtain ⟨hlow, hhigh⟩ := Span.mem_iff.mp ha
  have hhigh : a.index < x.address.index + 2 := hhigh
  exact Span.mem_iff.mpr ⟨hlow, show a.index < x.address.index + 22 by omega⟩

/-- **Giving a record back.**  A record `x` that is held becomes the first free block, and the
    ledger has `freed x :: free`. -/
theorem giveBack (hr : r.Fits) {p : Pool} (hp : p.region = r)
    (h : Ledger r m p.head q w free ready waiting (x :: held)) :
    ∃ m', (p.release m x.address.toWord recordSize).outcome
        = .ok ({ p with head := .node x.address }, m')
      ∧ Ledger r m' (.node x.address) q w (freed x :: free) ready waiting held
      ∧ Memory.SameOn (· ∉ x.span) m m' := by
  obtain ⟨m', hout, hchain, hframe⟩ :=
    h.release_record hr hp (List.mem_append_right _ List.mem_cons_self)
  have hsame : Memory.SameOn (· ∉ x.span) m m' := hframe.mono fun a ha hax => ha (mem_span_of_freed hax)
  refine ⟨m', hout, h.withFree (hsame.mono fun a ha => ha.2 x List.mem_cons_self) hchain ?_
    (h.tidy.cons rfl), hsame⟩
  rw [List.map_cons, freed_span, List.cons_append]
  exact tiles_held.mp h.tiles

end Ledger

end Timeshare
