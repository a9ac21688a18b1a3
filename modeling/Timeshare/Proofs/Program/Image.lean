import Timeshare.Program.Image
import Timeshare.Proofs.Action
import Timeshare.Proofs.Memory

namespace Timeshare

/-!
# Loading programs

* `Image.outcome_load` — loading, without its notices.
* `Image.load_confined` — a program that is loaded changes words of the program area only.
* `Image.load_alike`, `Catalog.load_alike` — whether loading succeeds, and the entry point, do not
  depend on memory.
-/

namespace Image

variable {area : Region} {l : Layout} {m n : Memory} {image : Image}

/-- Loading without its notices: the addresses are looked at by `resolve`, then the entry point, and
    then the words are written by `writeAll`. -/
theorem outcome_load :
    (image.load m l).outcome = (do
      let words ← (resolve l.userProgram image.words).outcome
      if !l.userProgram.contains image.entry then
        .error .invalidPcValue
      else
        match Address.ofWord? image.entry with
        | some entry => .ok (entry, writeAll m words)
        | none => .error .invalidPcValue) := by
  unfold load
  rw [Attempt.outcome_seq]
  congr 1
  funext words
  by_cases hentry : !l.userProgram.contains image.entry
  · simp only [hentry, if_true, Attempt.outcome_note_bind, Attempt.outcome_throw_bind]
  · simp only [hentry, Bool.false_eq_true, if_false]
    cases Address.ofWord? image.entry with
    | none => rfl
    | some entry => rw [Attempt.outcome_note_bind, Attempt.outcome_pure]

/-- The addresses that `resolve area words` gives lie in `area`. -/
theorem resolve_mem (hr : area.Fits) {words : List (Word × Word)} {resolved : List (Address × Word)}
    (h : (resolve area words).outcome = .ok resolved) : ∀ x ∈ resolved, x.1 ∈ area := by
  induction words generalizing resolved with
  | nil =>
    obtain rfl := Except.ok.inj h
    simp
  | cons x words ih =>
    obtain ⟨address, content⟩ := x
    unfold resolve at h
    by_cases hin : !area.contains address
    · simp only [hin, if_true, Attempt.outcome_note_bind, Attempt.outcome_throw_bind] at h
      exact absurd h (by simp)
    · simp only [hin, Bool.false_eq_true, if_false] at h
      rw [Bool.not_eq_true', Bool.not_eq_false] at hin
      -- A word that is in the area is the word of an address there.
      obtain ⟨a, ha, hmem, -⟩ := hr.ofWord?_of_contains hin
      simp only [ha, Attempt.outcome_seq, bind_eq_ok_iff, Attempt.outcome_pure] at h
      obtain ⟨rest, hrest, h⟩ := h
      obtain rfl := Except.ok.inj h
      exact List.forall_mem_cons.mpr ⟨hmem, ih hrest⟩

/-- Writing words changes memory at their addresses only: if these lie in `area`, memory outside of
    it stays. -/
theorem sameOn_writeAll {words : List (Address × Word)} (h : ∀ x ∈ words, x.1 ∈ area) :
    Memory.SameOn (· ∉ area) m (writeAll m words) := by
  unfold writeAll
  induction words generalizing m with
  | nil => exact Memory.SameOn.refl _ m
  | cons x words ih =>
    obtain ⟨hx, hwords⟩ := List.forall_mem_cons.mp h
    exact (Memory.sameOn_not_write (p := (· ∈ area)) hx).trans (ih hwords)

/-- **Loading stays in the program area**: a load that succeeds leaves the words outside
    `l.userProgram`. -/
theorem load_confined (hr : l.userProgram.Fits) {entry : Address}
    (h : (image.load m l).outcome = .ok (entry, n)) : Memory.SameOn (· ∉ l.userProgram) m n := by
  rw [outcome_load] at h
  obtain ⟨words, hwords, h⟩ := bind_eq_ok_iff.mp h
  split at h
  · exact absurd h (by simp)
  · split at h
    · obtain ⟨-, rfl⟩ := Prod.mk.inj (Except.ok.inj h)
      exact sameOn_writeAll (resolve_mem hr hwords)
    · exact absurd h (by simp)

/-- Loading ends alike on all memories: with the same fault, or with the same entry point. -/
theorem load_alike (image : Image) (l : Layout) (m n : Memory) :
    SameEnd (fun x y => x.1 = y.1) (image.load m l).outcome (image.load n l).outcome := by
  rw [outcome_load, outcome_load]
  refine SameEnd.bind_same _ fun words _ => ?_
  split
  · exact sameEnd_error _
  · split
    · exact sameEnd_ok.mpr rfl
    · exact sameEnd_error _

end Image

namespace Catalog

variable {c : Catalog} {l : Layout} {m n : Memory} {name : String}

/-- Loading by name stays in the program area as well. -/
theorem load_confined (hr : l.userProgram.Fits) {entry : Address}
    (h : (c.load name m l).outcome = .ok (entry, n)) : Memory.SameOn (· ∉ l.userProgram) m n := by
  rw [load, Attempt.outcome_seq] at h
  obtain ⟨image, -, h⟩ := bind_eq_ok_iff.mp h
  exact Image.load_confined hr h

/-- Finding and loading a program ends alike on all memories: with the same fault, or with the same
    entry point. -/
theorem load_alike (c : Catalog) (name : String) (l : Layout) (m n : Memory) :
    SameEnd (fun x y => x.1 = y.1) (c.load name m l).outcome (c.load name n l).outcome := by
  rw [load, load, Attempt.outcome_seq, Attempt.outcome_seq]
  exact SameEnd.bind_same _ fun image _ => Image.load_alike image l m n

end Catalog

end Timeshare
