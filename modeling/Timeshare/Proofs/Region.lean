import Timeshare.Region

namespace Timeshare

/-!
# Regions in memory

Bounds, addresses and sizes are machine words of three kinds, but in a region that lies in
memory all of them are small.  This file says what the checks of `Region` mean in terms of
natural numbers and integers.

* `Region.Fits` — the region has words, and all of them are in memory; `a ∈ r` — the word at `a`
  is one of them.  `Region.InMemory` — its bounds are in memory, and it may have no words.
* `Region.contains_iff`, `Region.containsSpan_iff` — the two checks that guard the pools, the
  queues and the operands of programs.
* `Layout.Valid` — what `Layout.validate` accepts (`Layout.validate_eq_ok_iff`): three regions
  that fit, one behind the other, and two pools that can hold a block.
-/

/-! ### Words -/

/-- A sum that does not leave the range of words is the sum of the numbers:
    `(a + b).toInt = a.toInt + b.toInt`. -/
theorem Word.toInt_add {a b : Word} (h : -9223372036854775808 ≤ a.toInt + b.toInt)
    (h' : a.toInt + b.toInt < 9223372036854775808) : (a + b).toInt = a.toInt + b.toInt := by
  rw [Int64.toInt_add]
  exact Int.bmod_eq_of_le h h'

/-- A difference that does not leave the range of words is the difference of the numbers:
    `(a - b).toInt = a.toInt - b.toInt`. -/
theorem Word.toInt_sub {a b : Word} (h : -9223372036854775808 ≤ a.toInt - b.toInt)
    (h' : a.toInt - b.toInt < 9223372036854775808) : (a - b).toInt = a.toInt - b.toInt := by
  rw [Int64.toInt_sub]
  exact Int.bmod_eq_of_le h h'

/-- An unsigned number of at most `memorySize` keeps its value as a word. -/
theorem toInt_toInt64 {u : UInt64} (h : u.toNat ≤ memorySize) : u.toInt64.toInt = u.toNat := by
  have h' : u.toBitVec.toNat ≤ memorySize := h
  simp only [memorySize] at h'
  show u.toBitVec.toInt = u.toNat
  rw [BitVec.toInt_eq_toNat_of_lt (by omega)]
  rfl

/-! ### Regions that lie in memory -/

namespace Region

/-- A region has words, and all of them are in memory. -/
structure Fits (r : Region) : Prop where
  start_le : r.start.toNat ≤ r.last.toNat
  last_lt : r.last.toNat < memorySize

instance : Membership Address Region :=
  ⟨fun r a => r.start.toNat ≤ a.index ∧ a.index ≤ r.last.toNat⟩

/-- An address is in a region iff its index lies between the two bounds, both included. -/
theorem mem_iff {r : Region} {a : Address} :
    a ∈ r ↔ r.start.toNat ≤ a.index ∧ a.index ≤ r.last.toNat := Iff.rfl

instance (r : Region) (a : Address) : Decidable (a ∈ r) :=
  inferInstanceAs (Decidable (_ ∧ _))

/-- A property holds at every address of a region iff it does at each index from `r.start` to
    `r.last`, which are finitely many. -/
theorem forall_mem_iff (r : Region) (P : Address → Prop) :
    (∀ i ∈ List.range' r.start.toNat (r.last.toNat + 1 - r.start.toNat), ∀ a ∈ Address.ofInt? i, P a)
      ↔ ∀ a ∈ r, P a := by
  constructor
  · rintro hall a ⟨hs, hl⟩
    exact hall a.index (List.mem_range'_1.mpr ⟨hs, by omega⟩) a (Address.ofInt?_eq_some_iff.mpr rfl)
  · intro hall i hi a ha
    obtain ⟨hs, hl⟩ := List.mem_range'_1.mp hi
    have hindex := Int.ofNat_inj.mp (Address.ofInt?_eq_some_iff.mp ha)
    exact hall a ⟨hindex ▸ hs, by omega⟩

instance (r : Region) (P : Address → Prop) [DecidablePred P] : Decidable (∀ a ∈ r, P a) :=
  decidable_of_iff _ (forall_mem_iff r P)

variable {r : Region}

/-- The lower bound of a region in memory keeps its value as a word. -/
theorem Fits.start_toInt (h : r.Fits) : r.start.toInt64.toInt = r.start.toNat :=
  toInt_toInt64 (by have := h.start_le; have := h.last_lt; omega)

/-- The upper bound of a region in memory keeps its value as a word. -/
theorem Fits.last_toInt (h : r.Fits) : r.last.toInt64.toInt = r.last.toNat :=
  toInt_toInt64 (by have := h.last_lt; omega)

/-- The length of a region that fits is `r.last + 1 - r.start`, computed in natural numbers. -/
theorem Fits.length_toNat (h : r.Fits) :
    r.length.toNat = r.last.toNat + 1 - r.start.toNat := by
  obtain ⟨hs, hl⟩ := h
  simp only [memorySize] at hl
  -- The last word is in memory, so that the sum does not wrap around.
  have hone : (r.last + 1).toNat = r.last.toNat + 1 := by
    rw [UInt64.toNat_add]
    exact Nat.mod_eq_of_lt (by show r.last.toNat + 1 < _; omega)
  have hle : r.start ≤ r.last + 1 := by
    rw [UInt64.le_iff_toNat_le, hone]
    omega
  -- So neither does the difference, and the length is not the `0` of bounds that are out of order.
  have hlt : ¬ r.last + 1 < r.start := by
    rw [UInt64.lt_iff_toNat_lt, hone]
    omega
  rw [length, if_neg hlt, UInt64.toNat_sub_of_le _ _ hle, hone]

/-- The length of a region that fits keeps its value as a word. -/
theorem Fits.length_toInt (h : r.Fits) : r.length.toInt64.toInt = r.length.toNat := by
  refine toInt_toInt64 ?_
  have := h.length_toNat
  have := h.last_lt
  omega

/-- A region that fits has a first word, at the index `r.start`. -/
theorem Fits.first (h : r.Fits) : ∃ a, r.first? = some a ∧ a.index = r.start.toNat := by
  have hlt : r.start.toNat < memorySize := Nat.lt_of_le_of_lt h.start_le h.last_lt
  refine ⟨⟨r.start.toNat, hlt⟩, ?_, rfl⟩
  rw [first?, Address.ofWord?_eq_some_iff]
  exact h.start_toInt

/-- The check `r.contains w` says that `w` lies between the two bounds. -/
theorem Fits.contains_iff (h : r.Fits) {w : Word} :
    r.contains w = true ↔ (r.start.toNat : Int) ≤ w.toInt ∧ w.toInt ≤ r.last.toNat := by
  rw [contains, Bool.and_eq_true, decide_eq_true_eq, decide_eq_true_eq, Int64.le_iff_toInt_le,
    Int64.le_iff_toInt_le, h.start_toInt, h.last_toInt]

/-- For the word of an address, the check `r.contains` says that the address is in the region. -/
theorem Fits.contains_toWord (h : r.Fits) {a : Address} :
    r.contains a.toWord = true ↔ a ∈ r := by
  rw [h.contains_iff, Address.toInt_toWord, mem_iff]
  omega

/-- A word that passes `r.contains` names an address in the region, whose word it is. -/
theorem Fits.ofWord?_of_contains (h : r.Fits) {w : Word} (hw : r.contains w = true) :
    ∃ a, Address.ofWord? w = some a ∧ a ∈ r ∧ a.toWord = w := by
  obtain ⟨hs, hl⟩ := h.contains_iff.mp hw
  have hm := h.last_lt
  refine ⟨⟨w.toInt.toNat, by omega⟩, ?_, ?_, ?_⟩
  · rw [Address.ofWord?_eq_some_iff]
    show w.toInt = (w.toInt.toNat : Int)
    omega
  · rw [mem_iff]
    show r.start.toNat ≤ w.toInt.toNat ∧ w.toInt.toNat ≤ r.last.toNat
    omega
  · apply Int64.toInt.inj
    rw [Address.toInt_toWord]
    show (w.toInt.toNat : Int) = w.toInt
    omega

/-- The check `r.containsSpan w n` says that `n` is at least `1`, that `w` is not below the region,
    and that `w + n` is at most one above its last word. -/
theorem Fits.containsSpan_iff (h : r.Fits) {w n : Word} :
    r.containsSpan w n = true ↔
      1 ≤ n.toInt ∧ (r.start.toNat : Int) ≤ w.toInt ∧ w.toInt + n.toInt ≤ r.last.toNat + 1 := by
  have hm := h.last_lt
  simp only [memorySize] at hm
  have hone : (1 : Word).toInt = 1 := rfl
  have hmax : Int64.maxValue.toInt = 9223372036854775807 := rfl
  simp only [containsSpan, Bool.and_eq_true, decide_eq_true_eq, Int64.le_iff_toInt_le, hone, hmax,
    h.contains_iff]
  constructor
  · -- The check adds as integers, where the end of the span cannot overflow.
    rintro ⟨⟨⟨hn, hs, hl⟩, hr⟩, _, hlast⟩
    rw [Int64.toInt_ofInt_of_le (by omega) (by omega)] at hlast
    omega
  -- Conversely, the bounds of the region keep the sum within the range of words.
  · rintro ⟨hn, hs, hl⟩
    refine ⟨⟨⟨hn, hs, by omega⟩, by omega⟩, ?_⟩
    rw [Int64.toInt_ofInt_of_le (by omega) (by omega)]
    omega

/-- For the word of an address, `r.containsSpan a.toWord n` bounds the index of `a` and the end of
    the `n` words from there on. -/
theorem Fits.containsSpan_toWord (h : r.Fits) {a : Address} {n : Word} :
    r.containsSpan a.toWord n = true ↔
      1 ≤ n.toInt ∧ r.start.toNat ≤ a.index ∧ (a.index : Int) + n.toInt ≤ r.last.toNat + 1 := by
  rw [h.containsSpan_iff, Address.toInt_toWord]
  omega

/-- Both bounds of a region are in memory.  Where they are out of order, the region has no words. -/
structure InMemory (r : Region) : Prop where
  start_le : r.start.toNat ≤ memorySize
  last_lt : r.last.toNat < memorySize

/-- A region in memory has words, or its bounds are out of order. -/
theorem InMemory.fits_or_lt (h : r.InMemory) : r.Fits ∨ r.last.toNat < r.start.toNat := by
  by_cases hle : r.start.toNat ≤ r.last.toNat
  · exact .inl ⟨hle, h.last_lt⟩
  · exact .inr (by omega)

/-- A region whose bounds are out of order has the length `0`. -/
theorem InMemory.length_eq_zero (h : r.InMemory) (hlt : r.last.toNat < r.start.toNat) :
    r.length.toNat = 0 := by
  have hlast := h.last_lt
  simp only [memorySize] at hlast
  have hone : (r.last + 1).toNat = r.last.toNat + 1 := by
    rw [UInt64.toNat_add]
    exact Nat.mod_eq_of_lt (by show r.last.toNat + 1 < _; omega)
  unfold length
  split
  · rfl
  · rename_i hnot
    rw [UInt64.lt_iff_toNat_lt, hone] at hnot
    rw [UInt64.toNat_sub_of_le _ _ (by rw [UInt64.le_iff_toNat_le, hone]; omega), hone]
    omega

/-- A region whose bounds are out of order contains no word: `r.contains w = false`. -/
theorem InMemory.contains_eq_false (h : r.InMemory) (hlt : r.last.toNat < r.start.toNat) (w : Word) :
    r.contains w = false := by
  have hlast : r.last.toInt64.toInt = r.last.toNat := toInt_toInt64 (by have := h.last_lt; omega)
  have hstart : r.start.toInt64.toInt = r.start.toNat := toInt_toInt64 h.start_le
  rw [← Bool.not_eq_true]
  intro hw
  rw [contains, Bool.and_eq_true, decide_eq_true_eq, decide_eq_true_eq,
    Int64.le_iff_toInt_le, Int64.le_iff_toInt_le, hlast, hstart] at hw
  omega

end Region

/-! ### Valid layouts -/

namespace Layout

/-- The check `fits` of a layout says that a region is one that `Fits`. -/
theorem fits_iff {r : Region} : fits r = true ↔ r.Fits := by
  simp only [fits, Region.isEmpty, Bool.and_eq_true, Bool.not_eq_true', decide_eq_false_iff_not,
    decide_eq_true_eq, UInt64.lt_iff_toNat_lt, Nat.not_lt]
  exact ⟨fun h => ⟨h.1, h.2⟩, fun h => ⟨h.start_le, h.last_lt⟩⟩

/-- A layout splits memory into three regions that fit, one behind the other, and its pools can
    hold a block. -/
structure Valid (l : Layout) : Prop where
  userProgram : l.userProgram.Fits
  userPool : l.userPool.Fits
  osPool : l.osPool.Fits
  program_lt_pool : l.userProgram.last.toNat < l.userPool.start.toNat
  pool_lt_os : l.userPool.last.toNat < l.osPool.start.toNat
  two_le_userPool : 2 ≤ l.userPool.length.toNat
  two_le_osPool : 2 ≤ l.osPool.length.toNat

/-- A layout passes `validate` iff it is `Valid`. -/
theorem validate_eq_ok_iff {l : Layout} : l.validate = .ok () ↔ l.Valid := by
  have htwo : ∀ u : UInt64, u < 2 ↔ ¬ 2 ≤ u.toNat := by
    intro u
    rw [UInt64.lt_iff_toNat_lt]
    show u.toNat < 2 ↔ _
    omega
  unfold validate
  constructor
  · intro h
    split at h
    · exact absurd h (by simp)
    split at h
    · exact absurd h (by simp)
    split at h
    · exact absurd h (by simp)
    -- None of the three checks failed: `h₁` says that the regions fit, `h₂` that they are in order,
    -- and `h₃` that both pools have room.
    rename_i h₁ h₂ h₃
    simp only [Bool.not_eq_true', Bool.not_eq_false, Bool.and_eq_true, fits_iff] at h₁
    simp only [Bool.or_eq_true, decide_eq_true_eq, not_or, ge_iff_le, UInt64.not_le,
      UInt64.lt_iff_toNat_lt] at h₂
    simp only [Bool.or_eq_true, decide_eq_true_eq, not_or, htwo, Classical.not_not] at h₃
    exact ⟨h₁.1.1, h₁.1.2, h₁.2, h₂.1, h₂.2, h₃.1, h₃.2⟩
  · intro h
    rw [if_neg, if_neg, if_neg]
    · simp only [Bool.or_eq_true, decide_eq_true_eq, not_or, htwo, Classical.not_not]
      exact ⟨h.two_le_userPool, h.two_le_osPool⟩
    · simp only [Bool.or_eq_true, decide_eq_true_eq, not_or, ge_iff_le, UInt64.not_le,
        UInt64.lt_iff_toNat_lt]
      exact ⟨h.program_lt_pool, h.pool_lt_os⟩
    · simp only [Bool.not_eq_true', Bool.not_eq_false, Bool.and_eq_true, fits_iff]
      exact ⟨⟨h.userProgram, h.userPool⟩, h.osPool⟩

variable {l : Layout}

/-- The words that a program may reach are in memory. -/
theorem Valid.operandRange (h : l.Valid) : l.operandRange.Fits := by
  refine ⟨?_, h.userPool.last_lt⟩
  -- The range goes from the first word of the program area to the last of the pool.
  show l.userProgram.start.toNat ≤ l.userPool.last.toNat
  have := h.userProgram.start_le
  have := h.program_lt_pool
  have := h.userPool.start_le
  omega

/-- A program may reach the whole user pool: each of its addresses is in `l.operandRange`. -/
theorem Valid.mem_operandRange (h : l.Valid) {a : Address} (ha : a ∈ l.userPool) :
    a ∈ l.operandRange := by
  refine ⟨?_, ha.2⟩
  show l.userProgram.start.toNat ≤ a.index
  have := ha.1
  have := h.userProgram.start_le
  have := h.program_lt_pool
  omega

/-- A program may reach the whole program area: each of its addresses is in `l.operandRange`. -/
theorem Valid.program_mem_operandRange (h : l.Valid) {a : Address} (ha : a ∈ l.userProgram) :
    a ∈ l.operandRange := by
  refine ⟨ha.1, ?_⟩
  show a.index ≤ l.userPool.last.toNat
  have := ha.2
  have := h.userPool.start_le
  have := h.program_lt_pool
  omega

/-- The user pool shares no address with the program area. -/
theorem Valid.not_mem_userProgram (h : l.Valid) {a : Address} (ha : a ∈ l.userPool) :
    a ∉ l.userProgram := by
  rintro ⟨_, hl⟩
  have := ha.1
  have := h.program_lt_pool
  omega

/-- A program may reach no word of the pool of process records: no address of `l.osPool` is in
    `l.operandRange`. -/
theorem Valid.not_mem_operandRange (h : l.Valid) {a : Address} (ha : a ∈ l.osPool) :
    a ∉ l.operandRange := by
  rintro ⟨_, hl⟩
  have : a.index ≤ l.userPool.last.toNat := hl
  have := ha.1
  have := h.pool_lt_os
  omega

/-- The user pool shares no address with the pool of process records. -/
theorem Valid.not_mem_osPool (h : l.Valid) {a : Address} (ha : a ∈ l.userPool) : a ∉ l.osPool :=
  fun hos => h.not_mem_operandRange hos (h.mem_operandRange ha)

end Layout

end Timeshare
