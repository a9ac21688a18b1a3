import Timeshare.Proofs.Storage.History

namespace Timeshare

/-!
# First fit on a plain list

What a pool does to the list that is threaded through memory is what first fit does to a plain list of
numbers.

* `Listing` — a free list as its clients see it: where each free block starts, and its size.
* `Listing.allocate`, `Listing.release` — the requests to a plain list, with their faults in the order in
  which they are found.
* `Pool.refines_listing` — a pool in order serves each request as the plain list does, and writes to nodes
  of the list only, as it was or as it is afterwards.
* `Pool.refines_listing_run` — so it does with any sequence of requests.
-/

/-- A free list as its clients see it: where each free block starts, and its size. -/
abbrev Listing := List (Int × Int)

/-- What clients see of a free block. -/
def FreeBlock.entry (b : FreeBlock) : Int × Int := (b.address.index, b.size.toInt)

namespace Listing

/-- Takes the front of the first entry that has `m` words, or at least two more.  What is left of the
    entry stays in its place. -/
def takeFirst (m : Int) : Listing → Option (Int × Listing)
  | [] => none
  | (a, s) :: rest =>
    if s = m then some (a, rest)
    else if m + 2 ≤ s then some (a, (a + m, s - m) :: rest)
    else (takeFirst m rest).map fun (b, rest) => (b, (a, s) :: rest)

/-- Asks for `n` words, of which no block has less than two. -/
def allocate (l : Listing) (n : Int) : Except Fault (Int × Listing) :=
  if l.isEmpty then .error .noFreeMemory
  else if n < 1 then .error .invalidMemorySize
  else
    match takeFirst (max n 2) l with
    | some taken => .ok taken
    | none => .error .noFreeMemory

/-- Whether the words from `a` up to `stop` meet an entry. -/
def Overlaps (l : Listing) (a stop : Int) : Prop := ∃ e ∈ l, a < e.1 + e.2 ∧ e.1 < stop

instance (l : Listing) (a stop : Int) : Decidable (l.Overlaps a stop) :=
  inferInstanceAs (Decidable (∃ e ∈ l, _))

/-- Gives `n` words at `a` back to the list of a region. -/
def release (r : Region) (l : Listing) (a n : Int) : Except Fault Listing :=
  if a < r.start.toNat ∨ (r.last.toNat : Int) < a then .error .invalidMemoryAddress
  else if n < 1 ∨ (r.last.toNat : Int) + 1 < a + max n 2 ∨ l.Overlaps a (a + max n 2) then
    .error .invalidSizeOrMemoryAddress
  else .ok ((a, max n 2) :: l)

/-! ### Lists of free blocks as plain lists -/

variable {b : FreeBlock} {skipped left rest : List FreeBlock} {n : Word}

/-- Blocks that do not fit are passed over: `takeFirst` goes on behind `skipped`, which stays in
    front. -/
theorem takeFirst_append (hskipped : ∀ c ∈ skipped, ¬ c.Fits n) (l : Listing) :
    takeFirst n.toInt (skipped.map FreeBlock.entry ++ l)
      = (takeFirst n.toInt l).map fun (a, l) => (a, skipped.map FreeBlock.entry ++ l) := by
  induction skipped with
  | nil =>
    rw [List.map_nil, List.nil_append]
    cases takeFirst n.toInt l <;> rfl
  | cons c cs ih =>
    have hc := hskipped c List.mem_cons_self
    have hne : ¬ c.size.toInt = n.toInt := fun h => hc (.inl (Int64.toInt_inj.mp h))
    have hlt : ¬ n.toInt + 2 ≤ c.size.toInt := fun h => hc (.inr h)
    rw [List.map_cons, List.cons_append, FreeBlock.entry, takeFirst, if_neg hne, if_neg hlt,
      ih fun d hd => hskipped d (List.mem_cons_of_mem _ hd), Option.map_map]
    rfl

/-- In a list without a block that fits, `takeFirst` finds nothing. -/
theorem takeFirst_eq_none (h : ∀ c ∈ skipped, ¬ c.Fits n) :
    takeFirst n.toInt (skipped.map FreeBlock.entry) = none := by
  have happend := takeFirst_append h []
  rw [List.append_nil] at happend
  rw [happend]
  rfl

/-- The first block is cut if it splits: what `takeFirst` leaves of it is `left`. -/
theorem takeFirst_cons (h : b.Splits n left) (l : Listing) :
    takeFirst n.toInt (b.entry :: l)
      = some ((b.address.index : Int), left.map FreeBlock.entry ++ l) := by
  rw [FreeBlock.entry, takeFirst]
  cases h with
  | whole h => rw [h, if_pos rfl]; rfl
  | front rest h hstart hsize =>
    have hne : ¬ b.size.toInt = n.toInt := by omega
    rw [if_neg hne, if_pos h, List.map_singleton, FreeBlock.entry, hstart, hsize]
    rfl

/-- On `skipped ++ b :: rest`, where no block of `skipped` fits and `b` splits into what is taken
    and `left`, `takeFirst` gives the address of `b` and leaves `skipped ++ left ++ rest`. -/
theorem takeFirst_splits (hskipped : ∀ c ∈ skipped, ¬ c.Fits n) (h : b.Splits n left) :
    takeFirst n.toInt ((skipped ++ b :: rest).map FreeBlock.entry)
      = some ((b.address.index : Int), (skipped ++ left ++ rest).map FreeBlock.entry) := by
  rw [List.map_append, List.map_cons, takeFirst_append hskipped, takeFirst_cons h, Option.map_some,
    List.map_append, List.map_append, List.append_assoc]

/-- For blocks with sizes that are not negative, `Overlaps` says that some block of the list shares
    a word with `b`. -/
theorem overlaps_iff {bs : List FreeBlock} (hb : 0 ≤ b.size.toInt) (hbs : ∀ c ∈ bs, 0 ≤ c.size.toInt) :
    Overlaps (bs.map FreeBlock.entry) b.address.index (b.address.index + b.size.toInt) ↔
      ∃ c ∈ bs, ¬ b.span.Apart c.span := by
  -- Two blocks are apart if one of them ends before the other starts.
  have hapart : ∀ c ∈ bs, ¬ b.span.Apart c.span ↔
      (b.address.index : Int) < c.address.index + c.size.toInt
        ∧ (c.address.index : Int) < b.address.index + b.size.toInt := by
    intro c hc
    have := hbs c hc
    show ¬ (b.address.index + b.size.toInt.toNat ≤ c.address.index
      ∨ c.address.index + c.size.toInt.toNat ≤ b.address.index) ↔ _
    omega
  constructor
  · rintro ⟨e, he, hlt, hlt'⟩
    obtain ⟨c, hc, rfl⟩ := List.mem_map.mp he
    exact ⟨c, hc, (hapart c hc).mpr ⟨hlt, hlt'⟩⟩
  · rintro ⟨c, hc, hnot⟩
    exact ⟨c.entry, List.mem_map.mpr ⟨c, hc, rfl⟩, (hapart c hc).mp hnot⟩

end Listing

namespace Pool

variable {p : Pool} {m : Memory} {bs : List FreeBlock}

/-! ### The requests -/

/-- A list that can be read has no block iff `p.head` is `none`. -/
theorem head_eq_none_iff (hr : p.region.Fits) (hbs : (p.blocks m).outcome = .ok bs) :
    p.head = .none ↔ bs = [] := by
  obtain ⟨hchain, -⟩ := (blocks_eq_ok_iff hr).mp hbs
  constructor
  · intro hhead
    rw [hhead] at hchain
    exact hchain.eq_nil
  · rintro rfl
    exact hchain

/-- A request for less than one word fails: with `noFreeMemory` if the list is empty, which is
    looked at first, and else with `invalidMemorySize`. -/
theorem allocate_lt_one {n : Word} (hn : n.toInt < 1) :
    (p.allocate m n).outcome
      = if p.head = .none then .error .noFreeMemory else .error .invalidMemorySize := by
  have hlt : n < 1 := Int64.lt_iff_toInt_lt.mpr hn
  rw [outcome_allocate]
  cases p.head with
  | none => rfl
  | node first => simp only [hlt, if_true, reduceCtorEq, if_false]

/-- **Allocation as on a plain list.**  From a list in order, `Pool.allocate` fails with the fault
    of `Listing.allocate`, or hands out the block of the plain list, leaves a list in order with the
    entries of the plain one, and writes to nodes only. -/
theorem InOrder.allocate_refines (h : p.InOrder m bs) (n : Word) :
    match Listing.allocate (bs.map FreeBlock.entry) n.toInt with
    | .error e => (p.allocate m n).outcome = .error e
    | .ok (a, l) => ∃ (start : Address) (p' : Pool) (m' : Memory) (bs' : List FreeBlock),
        (p.allocate m n).outcome = .ok (start, p', m') ∧ (start.index : Int) = a
        ∧ p'.region = p.region ∧ p'.InOrder m' bs' ∧ bs'.map FreeBlock.entry = l
        ∧ Memory.SameOn (fun w => ∀ b ∈ bs ++ bs', w ∉ b.nodeSpan) m m' := by
  have hhead := head_eq_none_iff h.fits h.blocks
  have hempty : (bs.map FreeBlock.entry).isEmpty = true ↔ bs = [] := by
    rw [List.isEmpty_map, List.isEmpty_iff]
  rw [Listing.allocate]
  by_cases hlt : n.toInt < 1
  · -- Whether the list is empty is looked at first.
    rw [allocate_lt_one hlt]
    by_cases hnil : bs = []
    · rw [if_pos (hempty.mpr hnil), if_pos (hhead.mpr hnil)]
    · rw [if_neg (mt hempty.mp hnil), if_pos hlt, if_neg (mt hhead.mp hnil)]
  have hmax : (max n minBlockSize).toInt = max n.toInt 2 := by
    rw [Word.toInt_max, minBlockSize_toInt]
  -- Either no block fits, or the first one that does is cut; both lists do the same.
  rcases h.firstFit (n := n) (by omega) with
    ⟨hnone, hout⟩ | ⟨skipped, b, rest, left, p', m', rfl, hskipped, hsplits, hout, horder, hregion, -,
      hframe⟩
  · rw [if_neg hlt, ← hmax, Listing.takeFirst_eq_none hnone, hout]
    by_cases hnil : bs = []
    · rw [if_pos (hempty.mpr hnil)]
    · rw [if_neg (mt hempty.mp hnil)]
  · rw [if_neg (mt hempty.mp (by simp)), if_neg hlt, ← hmax, Listing.takeFirst_splits hskipped hsplits]
    refine ⟨b.address, p', m', _, hout, rfl, hregion, horder, rfl, hframe.mono fun w hw => ⟨?_, ?_, ?_⟩⟩
    · intro c hc
      exact hw c (by simp [hc])
    · rintro rfl
      exact hw b (by simp) b.address_mem_nodeSpan
    · rintro c hc rfl
      exact hw c (by simp [List.mem_of_getLast? hc]) c.address_mem_nodeSpan

/-- A block of the region that meets a free block is refused with `invalidSizeOrMemoryAddress`. -/
theorem release_overlap (hr : p.region.Fits) {b : FreeBlock} {n : Word} (hb : b.Within p.region)
    (hsize : b.size = releasedSize n) (hbs : (p.blocks m).outcome = .ok bs)
    (hmeets : ∃ c ∈ bs, ¬ b.span.Apart c.span) :
    (p.release m b.address.toWord n).outcome = .error .invalidSizeOrMemoryAddress := by
  obtain ⟨c, hc, hnot⟩ := hmeets
  obtain ⟨hcontains, hlt, hspan⟩ := (release_checks_iff hr).mpr ⟨b, hb, rfl, hsize⟩
  have hcw := ((blocks_eq_ok_iff hr).mp hbs).1.within c hc
  have hany : bs.any (meets b.address.toWord (b.address.toWord + releasedSize n)) = true := by
    rw [← hsize]
    exact List.any_eq_true.mpr ⟨c, hc, (meets_iff hr hb hcw).mpr hnot⟩
  have hcheck : ¬ (decide (releasedSize n < 1)
      || !p.region.containsSpan b.address.toWord (releasedSize n)) = true := by
    rw [hspan, decide_eq_false hlt]
    decide
  rw [outcome_release, hcontains, if_neg (by decide), if_neg hcheck, hbs, ok_bind, if_pos hany]

/-- **Release as on a plain list.**  To a list in order, `Pool.release` fails with the fault of
    `Listing.release`, or leaves a list in order with the entries of the plain one, and writes to
    nodes only. -/
theorem InOrder.release_refines (h : p.InOrder m bs) (a n : Word) :
    match Listing.release p.region (bs.map FreeBlock.entry) a.toInt n.toInt with
    | .error e => (p.release m a n).outcome = .error e
    | .ok l => ∃ (p' : Pool) (m' : Memory) (bs' : List FreeBlock),
        (p.release m a n).outcome = .ok (p', m')
        ∧ p'.region = p.region ∧ p'.InOrder m' bs' ∧ bs'.map FreeBlock.entry = l
        ∧ Memory.SameOn (fun w => ∀ b ∈ bs ++ bs', w ∉ b.nodeSpan) m m' := by
  rw [Listing.release]
  -- The cases follow the checks of the plain list in their order.
  by_cases hout : a.toInt < p.region.start.toNat ∨ (p.region.last.toNat : Int) < a.toInt
  · have hcontains : p.region.contains a = false := by
      rw [← Bool.not_eq_true, h.fits.contains_iff]
      omega
    rw [if_pos hout, outcome_release, if_pos (by rw [hcontains]; rfl)]
  have hcontains : p.region.contains a = true := h.fits.contains_iff.mpr (by omega)
  obtain ⟨start, -, -, rfl⟩ := h.fits.ofWord?_of_contains hcontains
  rw [if_neg hout]
  by_cases hn : n.toInt < 1
  · -- A size below one is taken as it is.
    have hsize : releasedSize n < 1 := by
      rw [Int64.lt_iff_toInt_lt, releasedSize, if_neg]
      · exact hn
      · rintro rfl
        exact absurd hn (by decide)
    rw [if_pos (.inl hn), outcome_release, if_neg (by rw [hcontains]; decide), if_pos]
    rw [decide_eq_true hsize, Bool.true_or]
  have hmax : (max n minBlockSize).toInt = max n.toInt 2 := by
    rw [Word.toInt_max, minBlockSize_toInt]
  have hsize : releasedSize n = max n minBlockSize := releasedSize_eq (by omega)
  rw [Address.toInt_toWord] at hout ⊢
  by_cases hend : (p.region.last.toNat : Int) + 1 < start.index + max n.toInt 2
  · have hspan : p.region.containsSpan start.toWord (releasedSize n) = false := by
      rw [← Bool.not_eq_true, hsize, h.fits.containsSpan_toWord, hmax]
      omega
    rw [if_pos (.inr (.inl hend)), outcome_release, if_neg (by rw [hcontains]; decide), if_pos]
    rw [hspan, Bool.not_false, Bool.or_true]
  -- From here on, the request is for a block of the region.
  obtain ⟨b, rfl, hz⟩ : ∃ b : FreeBlock, b.address = start ∧ b.size = max n minBlockSize :=
    ⟨⟨start, _⟩, rfl, rfl⟩
  rw [← hz] at hmax hsize
  have hb : b.Within p.region := ⟨by omega, by omega, by omega⟩
  have hsizes : ∀ c ∈ bs, 0 ≤ c.size.toInt := fun c hc => by
    have := (h.chain.within c hc).two_le
    omega
  have hoverlaps := Listing.overlaps_iff (b := b) (by omega) hsizes
  rw [← hmax]
  by_cases hmeets : Listing.Overlaps (bs.map FreeBlock.entry) b.address.index
      (b.address.index + b.size.toInt)
  · rw [if_pos (.inr (.inr hmeets))]
    exact release_overlap h.fits hb hsize.symm h.blocks (hoverlaps.mp hmeets)
  · have hapart : ∀ c ∈ bs, b.span.Apart c.span := by
      intro c hc
      by_contra hnot
      exact hmeets (hoverlaps.mpr ⟨c, hc, hnot⟩)
    obtain ⟨p', m', hok, horder, hregion, hframe⟩ := h.releaseFront hb hapart hsize.symm
    rw [if_neg (by rw [not_or, not_or]; exact ⟨hn, by omega, hmeets⟩)]
    exact ⟨p', m', b :: bs, hok, hregion, horder, rfl, hframe.mono fun w hw => hw b (by simp)⟩

/-- A pool over a region without words serves nothing: a list of it that can be read is empty. -/
theorem blocks_eq_nil_of_lt (hr : p.region.InMemory) (hlt : p.region.last.toNat < p.region.start.toNat)
    (hbs : (p.blocks m).outcome = .ok bs) : p.head = .none ∧ bs = [] := by
  have hmax : p.maxNodes = 0 := by rw [maxNodes, hr.length_eq_zero hlt]
  rw [blocks, hmax] at hbs
  cases hhead : p.head with
  | none =>
    rw [hhead] at hbs
    exact ⟨rfl, (Except.ok.inj hbs).symm⟩
  | node first =>
    rw [hhead] at hbs
    exact absurd hbs (by simp [blocksFrom])

/-- **A pool serves its clients as a plain list does.**  Take any memory and any pool over a region
    in memory whose list `bs` can be read and has no two blocks that overlap.  A request for words
    fails as `Listing.allocate` does, or gives the block of the plain list and leaves its list; so
    does a release with `Listing.release`.  A request that succeeds writes to nothing but nodes of
    the list as it was or as it is afterwards. -/
theorem refines_listing (hr : p.region.InMemory) (hbs : (p.blocks m).outcome = .ok bs)
    (hsep : Separate FreeBlock.span bs) :
    (∀ n : Word, match Listing.allocate (bs.map FreeBlock.entry) n.toInt with
      | .error e => (p.allocate m n).outcome = .error e
      | .ok (a, l) => ∃ (start : Address) (p' : Pool) (m' : Memory) (bs' : List FreeBlock),
        (p.allocate m n).outcome = .ok (start, p', m') ∧ (start.index : Int) = a
          ∧ p'.region = p.region ∧ (p'.blocks m').outcome = .ok bs' ∧ Separate FreeBlock.span bs'
          ∧ bs'.map FreeBlock.entry = l
          ∧ Memory.SameOn (fun w => ∀ b ∈ bs ++ bs', w ∉ b.nodeSpan) m m') ∧
    (∀ a n : Word, match Listing.release p.region (bs.map FreeBlock.entry) a.toInt n.toInt with
      | .error e => (p.release m a n).outcome = .error e
      | .ok l => ∃ (p' : Pool) (m' : Memory) (bs' : List FreeBlock),
        (p.release m a n).outcome = .ok (p', m')
          ∧ p'.region = p.region ∧ (p'.blocks m').outcome = .ok bs' ∧ Separate FreeBlock.span bs'
          ∧ bs'.map FreeBlock.entry = l
          ∧ Memory.SameOn (fun w => ∀ b ∈ bs ++ bs', w ∉ b.nodeSpan) m m') := by
  rcases hr.fits_or_lt with hfits | hlt
  -- With words in the region, the two lemmas about lists in order apply.
  · have horder : p.InOrder m bs := ⟨hfits, ((blocks_eq_ok_iff hfits).mp hbs).1, hsep⟩
    constructor
    · intro n
      have hrefines := horder.allocate_refines n
      cases hl : Listing.allocate (bs.map FreeBlock.entry) n.toInt with
      | error e =>
        rw [hl] at hrefines
        exact hrefines
      | ok r =>
        rw [hl] at hrefines
        obtain ⟨start, p', m', bs', hok, hstart, hregion, horder', hentries, hframe⟩ := hrefines
        exact ⟨start, p', m', bs', hok, hstart, hregion, horder'.blocks, horder'.separate, hentries,
          hframe⟩
    · intro a n
      have hrefines := horder.release_refines a n
      cases hl : Listing.release p.region (bs.map FreeBlock.entry) a.toInt n.toInt with
      | error e =>
        rw [hl] at hrefines
        exact hrefines
      | ok l =>
        rw [hl] at hrefines
        obtain ⟨p', m', bs', hok, hregion, horder', hentries, hframe⟩ := hrefines
        exact ⟨p', m', bs', hok, hregion, horder'.blocks, horder'.separate, hentries, hframe⟩
  · -- Without words in the region, every request fails at its first check.
    obtain ⟨hhead, rfl⟩ := blocks_eq_nil_of_lt hr hlt hbs
    constructor
    · intro n
      show (p.allocate m n).outcome = .error .noFreeMemory
      rw [outcome_allocate, hhead]
    · intro a n
      have hout : a.toInt < p.region.start.toNat ∨ (p.region.last.toNat : Int) < a.toInt := by omega
      rw [Listing.release, if_pos hout, outcome_release, if_pos]
      rw [hr.contains_eq_false hlt, Bool.not_false]

/-- From the entries `(4, 3)`, `(10, 2)`, `(20, 7)`, a request for two words gets the second block,
    as the first has one word too many; and a release of a word of the list is refused. -/
theorem refines_listing_second :
    ∃ (p : Pool) (m : Memory) (bs : List FreeBlock), p.region.InMemory
      ∧ (p.blocks m).outcome = .ok bs ∧ Separate FreeBlock.span bs
      ∧ bs.map FreeBlock.entry = [(4, 3), (10, 2), (20, 7)]
      ∧ (∃ (start : Address) (p' : Pool) (m' : Memory) (bs' : List FreeBlock),
        (p.allocate m 2).outcome = .ok (start, p', m') ∧ (start.index : Int) = 10
          ∧ (p'.blocks m').outcome = .ok bs' ∧ bs'.map FreeBlock.entry = [(4, 3), (20, 7)])
      ∧ (p.release m 6 1).outcome = .error .invalidSizeOrMemoryAddress := by
  have hr : (Region.mk 4 30).InMemory := ⟨by decide, by decide⟩
  have hbs : ((Pool.mk .user ⟨4, 30⟩ (.node ⟨4, by decide⟩)).blocks
      ((((((Memory.zero.write ⟨4, by decide⟩ 10).write ⟨5, by decide⟩ 3).write ⟨10, by decide⟩ 20).write
        ⟨11, by decide⟩ 2).write ⟨20, by decide⟩ (-1)).write ⟨21, by decide⟩ 7)).outcome
      = .ok [⟨⟨4, by decide⟩, 3⟩, ⟨⟨10, by decide⟩, 2⟩, ⟨⟨20, by decide⟩, 7⟩] := by decide +kernel
  have hsep : Separate FreeBlock.span
      [⟨⟨4, by decide⟩, 3⟩, ⟨⟨10, by decide⟩, 2⟩, ⟨⟨20, by decide⟩, 7⟩] := by
    unfold Separate
    decide
  obtain ⟨hallocate, hrelease⟩ := refines_listing hr hbs hsep
  obtain ⟨start, p', m', bs', hok, hstart, -, hbs', -, hentries, -⟩ := hallocate 2
  exact ⟨_, _, _, hr, hbs, hsep, rfl, ⟨start, p', m', bs', hok, hstart, hbs', hentries⟩, hrelease 6 1⟩

/-! ### Sequences of requests -/

/-- The plain list after a request.  One that fails changes nothing, and a write does not touch it. -/
def Request.serveListing (r : Region) (l : Listing) : Request → Listing
  | .allocate n =>
    match l.allocate n.toInt with
    | .ok (_, l') => l'
    | .error _ => l
  | .release a n =>
    match l.release r a.toInt n.toInt with
    | .ok l' => l'
    | .error _ => l
  | .write _ _ => l

/-- One request after the other is allowed. -/
def Request.AllAllowed : Stage → List Request → Prop
  | _, [] => True
  | s, r :: rs => r.Allowed s ∧ AllAllowed (r.serve s) rs

/-- A request that clients may make takes the pool and the plain list to where they agree again. -/
theorem Request.serve_refines {s : Stage} {bs : List FreeBlock} (h : s.pool.InOrder s.memory bs)
    {r : Request} (hr : r.Allowed s) :
    ∃ bs', (r.serve s).pool.InOrder (r.serve s).memory bs'
      ∧ (r.serve s).pool.region = s.pool.region
      ∧ bs'.map FreeBlock.entry = r.serveListing s.pool.region (bs.map FreeBlock.entry) := by
  -- Each request in turn: the plain list says which of the two ends the pool has.
  cases r with
  | allocate n =>
    have hrefines := h.allocate_refines n
    cases hl : Listing.allocate (bs.map FreeBlock.entry) n.toInt with
    | error e =>
      rw [hl] at hrefines
      simp only [Request.serve, Request.serveListing, hrefines, hl]
      exact ⟨bs, h, trivial, rfl⟩
    | ok r =>
      rw [hl] at hrefines
      obtain ⟨start, p', m', bs', hok, -, hregion, horder, hentries, -⟩ := hrefines
      simp only [Request.serve, Request.serveListing, hok, hl]
      exact ⟨bs', horder, hregion, hentries⟩
  | release a n =>
    have hrefines := h.release_refines a n
    cases hl : Listing.release s.pool.region (bs.map FreeBlock.entry) a.toInt n.toInt with
    | error e =>
      rw [hl] at hrefines
      simp only [Request.serve, Request.serveListing, hrefines, hl]
      exact ⟨bs, h, trivial, rfl⟩
    | ok l =>
      rw [hl] at hrefines
      obtain ⟨p', m', bs', hok, hregion, horder, hentries, -⟩ := hrefines
      simp only [Request.serve, Request.serveListing, hok, hl]
      exact ⟨bs', horder, hregion, hentries⟩
  | write a w => exact ⟨bs, h.write hr w, rfl, rfl⟩

/-- **A sequence of requests** takes the list of a pool to where it takes the plain list: the
    entries of the list afterwards are `rs.foldl` of `Request.serveListing`. -/
theorem refines_listing_run {s : Stage} {bs : List FreeBlock} (h : s.pool.InOrder s.memory bs)
    {rs : List Request} (hrs : Request.AllAllowed s rs) :
    ∃ bs', ((rs.foldl (fun s r => r.serve s) s).pool.blocks
        (rs.foldl (fun s r => r.serve s) s).memory).outcome = .ok bs'
      ∧ bs'.map FreeBlock.entry
        = rs.foldl (Request.serveListing s.pool.region) (bs.map FreeBlock.entry) := by
  induction rs generalizing s bs with
  | nil => exact ⟨bs, h.blocks, rfl⟩
  | cons r rs ih =>
    obtain ⟨hr, hrest⟩ := hrs
    obtain ⟨bs', horder, hregion, hentries⟩ := r.serve_refines h hr
    obtain ⟨bs'', hblocks, hrun⟩ := ih horder hrest
    rw [hregion, hentries] at hrun
    exact ⟨bs'', hblocks, hrun⟩

end Pool

end Timeshare
