import Timeshare.Proofs.Program.Image

namespace Timeshare

/-!
# Loading in place

`Image.load` says what memory becomes if a program is loaded.  A loader at work has no second memory: it
writes word after word, and what it has written stays.  Here a program is loaded in this way, and the
addresses of a program, which may repeat and need not lie anywhere, are compared with the program area
as integers.

* `Image.InPlace.load` — loading word by word.
* `Image.InPlace.exec_load` — it ends as `Image.load` does, and changes nothing where that fails.
* `Image.resolve_of_outside`, `Image.resolve_of_inside` — a single word outside the area is enough for a
  program to be refused.
* `Image.Loaded` — what a loaded program leaves behind: at each address the last word that it has for it,
  and everywhere else what was there.
* `Image.load_all_or_nothing` — a program is loaded as a whole or not at all.
-/

/-- A word lies between the bounds of a region, all three as integers. -/
def Region.Covers (r : Region) (w : Word) : Prop :=
  (r.start.toNat : Int) ≤ w.toInt ∧ w.toInt ≤ r.last.toNat

instance (r : Region) (w : Word) : Decidable (r.Covers w) := inferInstanceAs (Decidable (_ ∧ _))

/-- The check of a region is a comparison of integers: `r.contains w = true` says `r.Covers w`, if
    the region lies in memory. -/
theorem Region.Fits.contains_iff_covers {r : Region} (hr : r.Fits) {w : Word} :
    r.contains w = true ↔ r.Covers w := hr.contains_iff

/-- The check of a region fails for the words that it does not cover. -/
theorem Region.Fits.contains_eq_false_iff {r : Region} (hr : r.Fits) {w : Word} :
    r.contains w = false ↔ ¬ r.Covers w := by
  rw [← hr.contains_iff_covers, Bool.not_eq_true]

/-- Different addresses are named by different words. -/
theorem Address.toWord_injective {a b : Address} (h : a.toWord = b.toWord) : a = b := by
  have hsome := Address.ofWord?_toWord a
  rw [h, Address.ofWord?_toWord] at hsome
  exact (Option.some.inj hsome).symm

namespace Image

/-! ### Word by word -/

namespace InPlace

/-- Writes words in order, one by one. -/
def writeAll : List (Address × Word) → Action Memory Unit
  | [] => return ()
  | (a, w) :: rest => do
    modify fun m => m.write a w
    writeAll rest

/-- Puts a program into the program area and returns its entry point. -/
def load (image : Image) (layout : Layout) : Action Memory Address := do
  let area := layout.userProgram
  let words ← Action.attempt (resolve area image.words)
  if !area.contains image.entry then
    Action.note (.entryOutside image.entry)
    throw .invalidPcValue
  let some entry := Address.ofWord? image.entry | throw .invalidPcValue
  writeAll words
  Action.note (.imageLoaded image.words.length entry)
  return entry

end InPlace

section Execution

variable {l : Layout} {m : Memory} {image : Image}

/-- Writing word after word leaves memory with all words written: `Image.writeAll m words`. -/
theorem InPlace.exec_writeAll (words : List (Address × Word)) (m : Memory) :
    Action.exec (InPlace.writeAll words) m = (.ok (), Image.writeAll m words) := by
  induction words generalizing m with
  | nil => rfl
  | cons x rest ih =>
    obtain ⟨a, w⟩ := x
    unfold InPlace.writeAll
    rw [Action.exec_bind_ok (Action.exec_modify _ m), ih]
    rfl

/-- **Loading word by word ends as loading does.**  Where it succeeds, memory is that of
    `image.load m l`; where it fails, no word has been written. -/
theorem InPlace.exec_load :
    Action.exec (InPlace.load image l) m =
      match (image.load m l).outcome with
      | .ok (entry, n) => (.ok entry, n)
      | .error e => (.error e, m) := by
  unfold InPlace.load
  rw [outcome_load, Action.exec_bind, Action.exec_attempt]
  cases (resolve l.userProgram image.words).outcome with
  | error e => rfl
  | ok words =>
    -- All addresses and the entry point are checked before the first word is written.
    by_cases hentry : !l.userProgram.contains image.entry
    · simp only [hentry, if_true, ok_bind]
      rw [Action.exec_bind_ok (Action.exec_note _ m)]
      rfl
    · simp only [hentry, Bool.false_eq_true, if_false, ok_bind]
      cases Address.ofWord? image.entry with
      | none => rfl
      | some entry =>
        simp only
        rw [Action.exec_bind_ok (InPlace.exec_writeAll words m)]
        rfl

end Execution

/-! ### Which programs are refused -/

section Resolve

variable {area : Region} {words : List (Word × Word)} {address : Word}

/-- A word in the area is taken at the address that it names, and the words behind it decide. -/
theorem resolve_cons_of_covers (hr : area.Fits) (h : area.Covers address) (content : Word)
    (rest : List (Word × Word)) :
    ∃ a, a.toWord = address ∧
      (resolve area ((address, content) :: rest)).outcome =
        (resolve area rest).outcome.map ((a, content) :: ·) := by
  have hin := hr.contains_iff_covers.mpr h
  obtain ⟨a, ha, -, hword⟩ := hr.ofWord?_of_contains hin
  refine ⟨a, hword, ?_⟩
  conv => enter [1]; unfold resolve
  simp only [hin, Bool.not_true, Bool.false_eq_true, if_false, ha, Attempt.outcome_seq,
    Attempt.outcome_pure]
  cases (resolve area rest).outcome <;> rfl

/-- A word outside the area ends the search with `invalidAddress`. -/
theorem resolve_cons_of_not_covers (hr : area.Fits) (h : ¬ area.Covers address) (content : Word)
    (rest : List (Word × Word)) :
    (resolve area ((address, content) :: rest)).outcome = .error .invalidAddress := by
  unfold resolve
  rw [hr.contains_eq_false_iff.mpr h]
  simp only [Bool.not_false, if_true, Attempt.outcome_note_bind, Attempt.outcome_throw_bind]

/-- **One word outside the area** is enough for `invalidAddress`, wherever it stands. -/
theorem resolve_of_outside (hr : area.Fits) (h : ∃ x ∈ words, ¬ area.Covers x.1) :
    (resolve area words).outcome = .error .invalidAddress := by
  induction words with
  | nil =>
    obtain ⟨x, hx, -⟩ := h
    exact absurd hx List.not_mem_nil
  | cons x rest ih =>
    obtain ⟨address, content⟩ := x
    by_cases hin : area.Covers address
    · -- The word in question is not the first one.
      obtain ⟨a, -, heq⟩ := resolve_cons_of_covers hr hin content rest
      have hrest : ∃ x ∈ rest, ¬ area.Covers x.1 := by
        obtain ⟨y, hy, hout⟩ := h
        rcases List.mem_cons.mp hy with rfl | hy
        · exact absurd hin hout
        · exact ⟨y, hy, hout⟩
      rw [heq, ih hrest]
      rfl
    · exact resolve_cons_of_not_covers hr hin content rest

/-- The words of a program that lies in the area keep their order and their contents: `words` are
    the resolved ones, with `toWord` for the address. -/
theorem resolve_of_inside (hr : area.Fits) (h : ∀ x ∈ words, area.Covers x.1) :
    ∃ resolved, (resolve area words).outcome = .ok resolved
      ∧ words = resolved.map fun x => (x.1.toWord, x.2) := by
  induction words with
  | nil => exact ⟨[], rfl, rfl⟩
  | cons x rest ih =>
    obtain ⟨address, content⟩ := x
    obtain ⟨hin, hrest⟩ := List.forall_mem_cons.mp h
    obtain ⟨a, rfl, heq⟩ := resolve_cons_of_covers hr hin content rest
    obtain ⟨resolved, hresolved, rfl⟩ := ih hrest
    refine ⟨(a, content) :: resolved, ?_, rfl⟩
    rw [heq, hresolved]
    rfl

end Resolve

/-! ### What is left behind -/

section Write

variable {m : Memory} {a : Address} {c : Word} {words : List (Address × Word)}

/-- Writing is done in order: first the words `before`, and on what they leave the words `after`. -/
theorem writeAll_append (before after : List (Address × Word)) :
    writeAll m (before ++ after) = writeAll (writeAll m before) after :=
  List.foldl_append

/-- What is written elsewhere does not matter: an address that is not among those of `words` keeps
    its word. -/
theorem read_writeAll_of_forall_ne (h : ∀ x ∈ words, x.1 ≠ a) :
    (writeAll m words).read a = m.read a := by
  induction words generalizing m with
  | nil => rfl
  | cons x rest ih =>
    obtain ⟨hx, hrest⟩ := List.forall_mem_cons.mp h
    show (writeAll (m.write x.1 x.2) rest).read a = m.read a
    rw [ih hrest, Memory.read_write_of_ne m x.2 hx]

/-- The last word for an address stays: behind `before ++ (a, c) :: after`, with no `a` in `after`,
    the word at `a` is `c`. -/
theorem read_writeAll_last {before after : List (Address × Word)} (h : ∀ x ∈ after, x.1 ≠ a) :
    (writeAll m (before ++ (a, c) :: after)).read a = c := by
  rw [writeAll_append]
  show (writeAll ((writeAll m before).write a c) after).read a = c
  rw [read_writeAll_of_forall_ne h, Memory.read_write_self]

end Write

/-- The last word `c` that a program has for an address is behind all others for it: no word in
    `after` has the same address. -/
theorem exists_last {words : List (Word × Word)} {address : Word}
    (h : ∃ x ∈ words, x.1 = address) :
    ∃ before c after, words = before ++ (address, c) :: after ∧ ∀ y ∈ after, y.1 ≠ address := by
  induction words with
  | nil =>
    obtain ⟨x, hx, -⟩ := h
    exact absurd hx List.not_mem_nil
  | cons x rest ih =>
    by_cases hrest : ∃ y ∈ rest, y.1 = address
    · obtain ⟨before, c, after, rfl, hafter⟩ := ih hrest
      exact ⟨x :: before, c, after, rfl, hafter⟩
    · have hnot : ∀ y ∈ rest, y.1 ≠ address := fun y hy heq => hrest ⟨y, hy, heq⟩
      obtain ⟨y, hy, heq⟩ := h
      rcases List.mem_cons.mp hy with rfl | hy
      · exact ⟨[], y.2, rest, by rw [← heq]; rfl, hnot⟩
      · exact absurd heq (hnot y hy)

/-- The memory `n` is `m` with a program in it, whose entry point is `entry`. -/
structure Loaded (image : Image) (l : Layout) (m : Memory) (entry : Address) (n : Memory) :
    Prop where
  entry_toWord : entry.toWord = image.entry
  entry_mem : entry ∈ l.userProgram
  /-- Each word of the program has an address in the program area. -/
  named : ∀ x ∈ image.words, ∃ a ∈ l.userProgram, a.toWord = x.1
  /-- At an address stands the last word that the program has for it. -/
  last : ∀ a before c after, image.words = before ++ (a.toWord, c) :: after →
    (∀ y ∈ after, y.1 ≠ a.toWord) → n.read a = c
  /-- An address that the program does not name keeps its word. -/
  unnamed : Memory.SameOn (fun a => ∀ x ∈ image.words, x.1 ≠ a.toWord) m n

section Loaded

variable {image : Image} {l : Layout} {m n o : Memory} {entry entry' : Address}

/-- Outside the program area all words stay, since a program names no address there. -/
theorem Loaded.confined (h : Loaded image l m entry n) :
    Memory.SameOn (· ∉ l.userProgram) m n := by
  refine h.unnamed.mono fun a ha x hx hname => ?_
  obtain ⟨b, hb, hword⟩ := h.named x hx
  exact ha (Address.toWord_injective (hword.trans hname) ▸ hb)

/-- **A program that is loaded again changes nothing**: if `n` is `m` with the program in it and `o`
    is `n` with it, then `o = n`, with the same entry point. -/
theorem Loaded.again (h : Loaded image l m entry n) (h' : Loaded image l n entry' o) :
    o = n ∧ entry' = entry := by
  refine ⟨Memory.ext fun a => ?_, ?_⟩
  · -- At an address that is named stands the same last word after both; all others have been kept.
    by_cases hnamed : ∃ x ∈ image.words, x.1 = a.toWord
    · obtain ⟨before, c, after, hwords, hafter⟩ := exists_last hnamed
      rw [h.last a before c after hwords hafter, h'.last a before c after hwords hafter]
    · exact (h'.unnamed a fun x hx hname => hnamed ⟨x, hx, hname⟩).symm
  · exact Address.toWord_injective (h'.entry_toWord.trans h.entry_toWord.symm)

/-- What lies in the area is loaded: there are an entry point and a memory `n` with
    `Loaded image l m entry n`. -/
theorem load_of_inside (hr : l.userProgram.Fits)
    (hwords : ∀ x ∈ image.words, l.userProgram.Covers x.1)
    (hentry : l.userProgram.Covers image.entry) (m : Memory) :
    ∃ entry n, Action.exec (InPlace.load image l) m = (.ok entry, n) ∧ Loaded image l m entry n := by
  obtain ⟨resolved, hresolved, heq⟩ := resolve_of_inside hr hwords
  have hin := hr.contains_iff_covers.mpr hentry
  obtain ⟨entry, hsome, hmem, hword⟩ := hr.ofWord?_of_contains hin
  refine ⟨entry, writeAll m resolved, ?_, ?_⟩
  · rw [InPlace.exec_load, outcome_load, hresolved, hin, hsome]
    rfl
  · refine ⟨hword, hmem, ?_, ?_, ?_⟩
    · intro x hx
      obtain ⟨a, -, ha, hx⟩ := hr.ofWord?_of_contains (hr.contains_iff_covers.mpr (hwords x hx))
      exact ⟨a, ha, hx⟩
    · intro a before c after hsplit hafter
      -- The split of the words is a split of the resolved words.
      rw [heq] at hsplit
      obtain ⟨before', rest', rfl, -, hrest⟩ := List.map_eq_append_iff.mp hsplit
      obtain ⟨⟨b, c'⟩, after', rfl, hhead, rfl⟩ := List.map_eq_cons_iff.mp hrest
      obtain ⟨hb, rfl⟩ := Prod.mk.inj hhead
      obtain rfl := Address.toWord_injective hb
      refine read_writeAll_last fun y hy hya => ?_
      exact hafter _ (List.mem_map_of_mem hy) (congrArg Address.toWord hya)
    · intro a ha
      refine (read_writeAll_of_forall_ne fun y hy hya => ?_).symm
      refine ha (y.1.toWord, y.2) ?_ (congrArg Address.toWord hya)
      rw [heq]
      exact List.mem_map_of_mem hy

/-- A program with a word outside the area is refused as `invalidAddress`, and memory stays. -/
theorem load_of_outside (hr : l.userProgram.Fits)
    (h : ∃ x ∈ image.words, ¬ l.userProgram.Covers x.1) (m : Memory) :
    Action.exec (InPlace.load image l) m = (.error .invalidAddress, m) := by
  rw [InPlace.exec_load, outcome_load, resolve_of_outside hr h]
  rfl

/-- A program that lies in the area but starts outside of it is refused as `invalidPcValue`, and
    memory stays. -/
theorem load_of_entry_outside (hr : l.userProgram.Fits)
    (hwords : ∀ x ∈ image.words, l.userProgram.Covers x.1)
    (hentry : ¬ l.userProgram.Covers image.entry) (m : Memory) :
    Action.exec (InPlace.load image l) m = (.error .invalidPcValue, m) := by
  obtain ⟨resolved, hresolved, -⟩ := resolve_of_inside hr hwords
  rw [InPlace.exec_load, outcome_load, hresolved, hr.contains_eq_false_iff.mpr hentry]
  rfl

end Loaded

/-- **Loading is all or nothing.**  A program of which a word lies outside the program area is refused as
    an address fault, and otherwise one that starts outside of it as a fault of the program counter.
    No failure changes memory.  Every other program is loaded: each address that it names holds the
    last word that it has for it, and all other words stay, those of the two pools among them; and
    loading it once more leaves memory as it is. -/
theorem load_all_or_nothing {l : Layout} (hl : l.validate = .ok ()) (image : Image) (m : Memory) :
    ((∃ x ∈ image.words, ¬ l.userProgram.Covers x.1) →
        Action.exec (InPlace.load image l) m = (.error .invalidAddress, m))
      ∧ ((∀ x ∈ image.words, l.userProgram.Covers x.1) → ¬ l.userProgram.Covers image.entry →
        Action.exec (InPlace.load image l) m = (.error .invalidPcValue, m))
      ∧ ((∀ x ∈ image.words, l.userProgram.Covers x.1) → l.userProgram.Covers image.entry →
        ∃ entry n, Action.exec (InPlace.load image l) m = (.ok entry, n)
          ∧ Loaded image l m entry n
          ∧ Action.exec (InPlace.load image l) n = (.ok entry, n)
          ∧ Memory.SameOn (fun a => a ∈ l.userPool ∨ a ∈ l.osPool) m n)
      ∧ (∀ e n, Action.exec (InPlace.load image l) m = (.error e, n) → n = m)
      ∧ Action.exec (InPlace.load image l) m =
        match (image.load m l).outcome with
        | .ok (entry, n) => (.ok entry, n)
        | .error e => (.error e, m) := by
  have hvalid := Layout.validate_eq_ok_iff.mp hl
  have hr := hvalid.userProgram
  refine ⟨fun h => load_of_outside hr h m, fun hwords hentry => load_of_entry_outside hr hwords hentry m,
    fun hwords hentry => ?_, fun e n h => ?_, InPlace.exec_load⟩
  · obtain ⟨entry, n, hload, hloaded⟩ := load_of_inside hr hwords hentry m
    obtain ⟨entry', o, hagain, hloaded'⟩ := load_of_inside hr hwords hentry n
    obtain ⟨rfl, rfl⟩ := hloaded.again hloaded'
    refine ⟨entry', o, hload, hloaded, hagain, hloaded.confined.mono ?_⟩
    rintro a (ha | ha) hprogram
    · exact hvalid.not_mem_userProgram ha hprogram
    · exact hvalid.not_mem_operandRange ha (hvalid.program_mem_operandRange hprogram)
  · rw [InPlace.exec_load] at h
    cases hout : (image.load m l).outcome with
    | ok r =>
      rw [hout] at h
      exact absurd (congrArg Prod.fst h) (by simp)
    | error e' =>
      rw [hout] at h
      exact (congrArg Prod.snd h).symm

/-- One program has two words for one address, and the other has a word in the user pool behind one that
    could be written. -/
theorem load_all_or_nothing_twice :
    ({} : Layout).validate = .ok ()
      ∧ (∃ entry n, Action.exec (InPlace.load ⟨[(0, 1), (3, 7), (0, 2)], 3⟩ {}) Memory.zero
            = (.ok entry, n)
          ∧ entry.index = 3 ∧ n.read ⟨0, by decide⟩ = 2 ∧ n.read ⟨3, by decide⟩ = 7)
      ∧ Action.exec (InPlace.load ⟨[(0, 1), (2500, 7)], 0⟩ {}) Memory.zero
          = (.error .invalidAddress, Memory.zero) := by
  have hl : ({} : Layout).validate = .ok () := rfl
  refine ⟨hl, ?_, ?_⟩
  · obtain ⟨-, -, hload, -⟩ :=
      load_all_or_nothing hl ⟨[(0, 1), (3, 7), (0, 2)], 3⟩ Memory.zero
    have hcovers : ∀ x ∈ [((0 : Word), (1 : Word)), (3, 7), (0, 2)],
        ({} : Layout).userProgram.Covers x.1 :=
      List.forall_mem_cons.mpr ⟨by decide, List.forall_mem_cons.mpr ⟨by decide,
        List.forall_mem_singleton.mpr (by decide)⟩⟩
    obtain ⟨entry, n, hrun, hloaded, -⟩ := hload hcovers (by decide)
    refine ⟨entry, n, hrun, ?_, ?_, ?_⟩
    · have hentry := congrArg Int64.toInt hloaded.entry_toWord
      rw [Address.toInt_toWord] at hentry
      exact Int.ofNat_inj.mp hentry
    · exact hloaded.last ⟨0, by decide⟩ [(0, 1), (3, 7)] 2 [] rfl (by simp)
    · exact hloaded.last ⟨3, by decide⟩ [(0, 1)] 7 [(0, 2)] rfl
        (List.forall_mem_singleton.mpr (by decide))
  · obtain ⟨hrefuse, -⟩ := load_all_or_nothing hl ⟨[(0, 1), (2500, 7)], 0⟩ Memory.zero
    exact hrefuse ⟨(2500, 7), by simp, by decide⟩

end Image

end Timeshare
