import Timeshare.Program.Image
import Timeshare.Proofs.Action
import Timeshare.Proofs.Text.Integer
import Mathlib.Data.List.Forall2

namespace Timeshare

/-!
# The text of a program

Only what the lines say counts, and only up to the end mark.  So a text is read by going through its
statements, and the first one that is not a word of the program decides: it is the end mark, or it is
wrong, or there is none.

* `Image.IsPair line a c` — the line `line` is two literals, of the words `a` and `c`.
* `Image.Gives line x` — the line `line` is the word `x` of a program, and not the end mark.
* `Image.ofStatements` — reading, without the numbers of the lines and without notices.
* `Image.rows image` — an image as rows of words, the end mark in the last one.
* `Image.text_format` — how reading ends for every text, and that an image is read back from every text
  that shows it.
-/

namespace Image

open Text

variable {line : List Char} {before after lines : List (List Char)} {words : List (Word × Word)}
  {image : Image} {a c : Word} {x : Word × Word}

/-! ### Pairs -/

/-- A line is two literals with white space in between, the first of the word `a` and the second of
    `c`. -/
def IsPair (line : List Char) (a c : Word) : Prop :=
  ∃ t u, Spaced [t, u] line ∧ Literal t a.toInt ∧ Literal u c.toInt

/-- A line is read as a pair of words if it is one, and only then: `pair? line = some (a, c)` says
    `IsPair line a c`. -/
theorem pair?_eq_some_iff : pair? line = some (a, c) ↔ IsPair line a c := by
  unfold pair?
  constructor
  · intro h
    split at h
    · rename_i t u hwords
      split at h
      · rename_i a' c' ha hc
        cases h
        exact ⟨t, u, (words_eq_iff.mp hwords).1, readWord_eq_ok_iff.mp ha, readWord_eq_ok_iff.mp hc⟩
      · exact absurd h (by simp)
    · exact absurd h (by simp)
  · rintro ⟨t, u, hspaced, ht, hu⟩
    have hwords : Text.words line = [t, u] := by
      rw [words_eq_iff]
      refine ⟨hspaced, List.forall_mem_cons.mpr ⟨ht.isToken.toIsWord, ?_⟩⟩
      exact List.forall_mem_singleton.mpr hu.isToken.toIsWord
    rw [hwords]
    dsimp only
    rw [readWord_eq_ok_iff.mpr ht, readWord_eq_ok_iff.mpr hu]

/-- A line is the word `x` of a program: the pair of `x.1` and `x.2`, where `x.1` is not the end
    mark. -/
def Gives (line : List Char) (x : Word × Word) : Prop := IsPair line x.1 x.2 ∧ x.1 ≠ endMark

/-! ### Reading -/

/-- Reads what the lines of a text say, up to the end mark: `ofEntries` without the numbers and the
    notices. -/
def ofStatements : List (List Char) → Except Fault Image
  | [] => .error .noEndOfProgram
  | line :: rest =>
    match pair? line with
    | none => .error .fileOpen
    | some (a, c) =>
      if a = endMark then .ok ⟨[], c⟩
      else (ofStatements rest).map fun image => { image with words := (a, c) :: image.words }

/-- Neither the numbers of the lines nor the notices decide how reading ends: the outcome is that of
    `ofStatements`. -/
theorem outcome_ofEntries (entries : List (Nat × List Char)) :
    (ofEntries entries).outcome = ofStatements (entries.map Prod.snd) := by
  induction entries with
  | nil => rfl
  | cons entry entries ih =>
    obtain ⟨number, line⟩ := entry
    rw [ofEntries, List.map_cons, ofStatements]
    cases pair? line with
    | none => simp only [Attempt.outcome_note_bind, Attempt.outcome_throw]
    | some x =>
      dsimp only
      split
      · rfl
      · rw [Attempt.outcome_seq, ih]
        cases ofStatements (entries.map Prod.snd) with
        | ok image => rfl
        | error e => rfl

/-- A text is read as its statements are:
    `(ofText text).outcome = ofStatements (statements text.toList)`. -/
theorem outcome_ofText (text : String) :
    (ofText text).outcome = ofStatements (statements text.toList) := by
  unfold ofText
  rw [outcome_ofEntries, map_snd_entries]

/-- Lines in front that give `words` are words of the program, and the lines behind them decide how
    reading ends. -/
theorem ofStatements_append (h : List.Forall₂ Gives before words) (lines : List (List Char)) :
    ofStatements (before ++ lines)
      = (ofStatements lines).map fun image => { image with words := words ++ image.words } := by
  induction h with
  | nil =>
    rw [List.nil_append]
    cases ofStatements lines <;> rfl
  | @cons line x before words hx hrest ih =>
    obtain ⟨hpair, hne⟩ := hx
    rw [List.cons_append, ofStatements, pair?_eq_some_iff.mpr hpair]
    dsimp only
    rw [if_neg hne, ih]
    cases ofStatements lines <;> rfl

/-- The end mark ends the program, whatever comes `after` it: what was read are `words`, and the
    word `c` of the end mark is the entry point. -/
theorem ofStatements_of_endMark (h : List.Forall₂ Gives before words)
    (hstop : IsPair line endMark c) (after : List (List Char)) :
    ofStatements (before ++ line :: after) = .ok ⟨words, c⟩ := by
  rw [ofStatements_append h, ofStatements, pair?_eq_some_iff.mpr hstop]
  dsimp only
  rw [if_pos rfl]
  show Except.ok (⟨words ++ [], c⟩ : Image) = _
  rw [List.append_nil]

/-- A line that is no pair ends the reading as `fileOpen`, whatever comes `after` it. -/
theorem ofStatements_of_noPair (h : List.Forall₂ Gives before words)
    (hbad : ∀ a c, ¬ IsPair line a c) (after : List (List Char)) :
    ofStatements (before ++ line :: after) = .error .fileOpen := by
  have hnone : pair? line = none := by
    rw [Option.eq_none_iff_forall_ne_some]
    exact fun x hx => hbad x.1 x.2 (pair?_eq_some_iff.mp hx)
  rw [ofStatements_append h, ofStatements, hnone]
  rfl

/-- Lines that all give words have no end mark: `noEndOfProgram`. -/
theorem ofStatements_of_all (h : List.Forall₂ Gives lines words) :
    ofStatements lines = .error .noEndOfProgram := by
  have happend := ofStatements_append h []
  rw [List.append_nil] at happend
  rw [happend]
  rfl

/-- The words of a program go up to the end mark, or to a line that is no pair, or to the end.
    These three cases are those of `ofStatements_of_endMark`, `ofStatements_of_noPair` and
    `ofStatements_of_all`. -/
theorem exists_words (lines : List (List Char)) :
    (∃ before line after words c, lines = before ++ line :: after ∧ List.Forall₂ Gives before words
        ∧ IsPair line endMark c)
      ∨ (∃ before line after words, lines = before ++ line :: after ∧ List.Forall₂ Gives before words
        ∧ ∀ a c, ¬ IsPair line a c)
      ∨ ∃ words, List.Forall₂ Gives lines words := by
  -- The first line that gives no word decides which case it is.
  induction lines with
  | nil => exact .inr (.inr ⟨[], .nil⟩)
  | cons line lines ih =>
    by_cases hpair : ∃ a c, IsPair line a c
    · obtain ⟨a, c, hpair⟩ := hpair
      by_cases ha : a = endMark
      · subst ha
        exact .inl ⟨[], line, lines, [], c, rfl, .nil, hpair⟩
      · have hgives : Gives line (a, c) := ⟨hpair, ha⟩
        rcases ih with ⟨before, stop, after, words, entry, rfl, h, hstop⟩
          | ⟨before, bad, after, words, rfl, h, hbad⟩ | ⟨words, h⟩
        · exact .inl ⟨line :: before, stop, after, _, entry, rfl, .cons hgives h, hstop⟩
        · exact .inr (.inl ⟨line :: before, bad, after, _, rfl, .cons hgives h, hbad⟩)
        · exact .inr (.inr ⟨_, .cons hgives h⟩)
    · simp only [not_exists] at hpair
      exact .inr (.inl ⟨[], line, lines, [], rfl, .nil, hpair⟩)

/-- Lines are read as an image if its words stand before the first end mark, and the word of the end
    mark is its entry point. -/
theorem ofStatements_eq_ok_iff :
    ofStatements lines = .ok image ↔ ∃ before line after,
      lines = before ++ line :: after ∧ List.Forall₂ Gives before image.words
        ∧ IsPair line endMark image.entry := by
  constructor
  · intro h
    rcases exists_words lines with ⟨before, line, after, words, c, rfl, hbefore, hstop⟩
      | ⟨before, line, after, words, rfl, hbefore, hbad⟩ | ⟨words, hall⟩
    · rw [ofStatements_of_endMark hbefore hstop] at h
      obtain rfl := Except.ok.inj h
      exact ⟨before, line, after, rfl, hbefore, hstop⟩
    · rw [ofStatements_of_noPair hbefore hbad] at h
      exact absurd h (by simp)
    · rw [ofStatements_of_all hall] at h
      exact absurd h (by simp)
  · rintro ⟨before, line, after, rfl, hbefore, hstop⟩
    exact ofStatements_of_endMark hbefore hstop after

/-- Reading ends with `fileOpen` if the first line that gives no word of the program is no pair at
    all. -/
theorem ofStatements_eq_fileOpen_iff :
    ofStatements lines = .error .fileOpen ↔ ∃ before line after words,
      lines = before ++ line :: after ∧ List.Forall₂ Gives before words ∧ ∀ a c, ¬ IsPair line a c := by
  constructor
  · intro h
    rcases exists_words lines with ⟨before, line, after, words, c, rfl, hbefore, hstop⟩
      | hbad | ⟨words, hall⟩
    · rw [ofStatements_of_endMark hbefore hstop] at h
      exact absurd h (by simp)
    · exact hbad
    · rw [ofStatements_of_all hall] at h
      exact absurd h (by simp)
  · rintro ⟨before, line, after, words, rfl, hbefore, hbad⟩
    exact ofStatements_of_noPair hbefore hbad after

/-- Reading ends with `noEndOfProgram` if all lines give words of the program. -/
theorem ofStatements_eq_noEndOfProgram_iff :
    ofStatements lines = .error .noEndOfProgram ↔ ∃ words, List.Forall₂ Gives lines words := by
  constructor
  · intro h
    rcases exists_words lines with ⟨before, line, after, words, c, rfl, hbefore, hstop⟩
      | ⟨before, line, after, words, rfl, hbefore, hbad⟩ | hall
    · rw [ofStatements_of_endMark hbefore hstop] at h
      exact absurd h (by simp)
    · rw [ofStatements_of_noPair hbefore hbad] at h
      exact absurd h (by simp)
    · exact hall
  · rintro ⟨words, hall⟩
    exact ofStatements_of_all hall

/-! ### Writing -/

/-- A word of a program, or an end mark, as two words on a line. -/
def pairRow (a c : Word) : List (List Char) := [decimal a, decimal c]

/-- An image as rows of words: a row for each word, and one for the end mark and the entry point. -/
def rows (image : Image) : List (List (List Char)) :=
  image.words.map (fun x => pairRow x.1 x.2) ++ [pairRow endMark image.entry]

/-- Two words in decimal can stand on a line. -/
theorem isRow_pairRow (a c : Word) : IsRow (pairRow a c) where
  ne_nil := by simp [pairRow]
  token := by
    refine List.forall_mem_cons.mpr ⟨(literal_decimal a).isToken, ?_⟩
    exact List.forall_mem_singleton.mpr (literal_decimal c).isToken

/-- Each row of an image can stand on a line. -/
theorem isRow_rows (image : Image) : ∀ row ∈ image.rows, IsRow row := by
  intro row hrow
  rcases List.mem_append.mp hrow with hrow | hrow
  · obtain ⟨x, -, rfl⟩ := List.mem_map.mp hrow
    exact isRow_pairRow x.1 x.2
  · rw [List.mem_singleton.mp hrow]
    exact isRow_pairRow _ _

/-- A line with the words of `pairRow a c` is the pair of `a` and `c`. -/
theorem isPair_of_words (h : Text.words line = pairRow a c) : IsPair line a c :=
  ⟨_, _, (words_eq_iff.mp h).1, literal_decimal a, literal_decimal c⟩

/-- A text that shows an image has the words of the image for statements, and then the end mark. -/
theorem statements_of_shows {text : List Char} (hwords : ∀ x ∈ image.words, x.1 ≠ endMark)
    (h : Shows image.rows text) :
    ∃ before line, statements text = before ++ [line] ∧ List.Forall₂ Gives before image.words
      ∧ IsPair line endMark image.entry := by
  have hmap := h.words_statements (isRow_rows image)
  obtain ⟨before, last, hsplit, hbefore, hlast⟩ := List.map_eq_append_iff.mp hmap
  obtain ⟨line, rfl, hline⟩ := List.map_eq_singleton_iff.mp hlast
  refine ⟨before, line, hsplit, ?_, isPair_of_words hline⟩
  rw [← List.forall₂_eq_eq_eq, List.forall₂_map_left_iff, List.forall₂_map_right_iff,
    List.forall₂_iff_zip] at hbefore
  obtain ⟨hlength, hzip⟩ := hbefore
  refine List.forall₂_iff_zip.mpr ⟨hlength, fun hmem => ⟨isPair_of_words (hzip hmem), ?_⟩⟩
  exact hwords _ (List.of_mem_zip hmem).2

/-- **The text of a program.**  A text is an image if its lines are the words of the image up to an end
    mark, which has the entry point.  A line that is no pair is a fault if it comes before the end mark, and
    so is a text that has no end mark.  An image whose addresses are not the end mark is read back from
    every text that shows it, the plain one among them, and whatever comes after the end mark. -/
theorem text_format :
    (∀ text : String,
      let lines := statements text.toList
      (∀ image, (ofText text).outcome = .ok image ↔ ∃ before line after,
        lines = before ++ line :: after ∧ List.Forall₂ Gives before image.words
          ∧ IsPair line endMark image.entry)
      ∧ ((ofText text).outcome = .error .fileOpen ↔ ∃ before line after words,
        lines = before ++ line :: after ∧ List.Forall₂ Gives before words ∧ ∀ a c, ¬ IsPair line a c)
      ∧ ((ofText text).outcome = .error .noEndOfProgram ↔ ∃ words, List.Forall₂ Gives lines words))
    ∧ ∀ image : Image, (∀ x ∈ image.words, x.1 ≠ endMark) →
      (ofText (String.ofList (render image.rows))).outcome = .ok image
      ∧ ∀ text, Shows image.rows text → (ofText (String.ofList text)).outcome = .ok image
        ∧ ∀ after, (ofText (String.ofList (text ++ '\n' :: after))).outcome = .ok image := by
  constructor
  · intro text lines
    rw [outcome_ofText]
    exact ⟨fun image => ofStatements_eq_ok_iff, ofStatements_eq_fileOpen_iff,
      ofStatements_eq_noEndOfProgram_iff⟩
  · intro image hwords
    -- What comes behind the end mark is not looked at, so that the two forms are one.
    have hshown : ∀ text, Shows image.rows text → ∀ more,
        ofStatements (statements text ++ more) = .ok image := by
      intro text htext more
      obtain ⟨before, line, hlines, hbefore, hstop⟩ := statements_of_shows hwords htext
      rw [hlines, List.append_assoc]
      exact ofStatements_of_endMark hbefore hstop more
    have hread : ∀ text, Shows image.rows text → (ofText (String.ofList text)).outcome = .ok image := by
      intro text htext
      have h := hshown text htext []
      rw [List.append_nil] at h
      rw [outcome_ofText, String.toList_ofList, h]
    refine ⟨hread _ (shows_render (isRow_rows image)), fun text htext => ⟨hread text htext, ?_⟩⟩
    intro after
    rw [outcome_ofText, String.toList_ofList, statements_append]
    exact hshown text htext _

/-- A program with a comment, a blank line and white space, and a line behind the end mark that is no
    pair. -/
theorem text_format_commented :
    let image : Image := ⟨[(0, 51060), (1, 5)], 0⟩
    let text := " 0\t51060 # R0\n\n1 5\n-1 0".toList
    (∀ x ∈ image.words, x.1 ≠ endMark)
      ∧ (ofText (String.ofList (text ++ '\n' :: ['x']))).outcome = .ok image := by
  intro image text
  have hwords : ∀ x ∈ image.words, x.1 ≠ endMark :=
    List.forall_mem_cons.mpr ⟨by decide, List.forall_mem_singleton.mpr (by decide)⟩
  have hshows : Shows image.rows text := by
    have hlines : text.splitOn '\n' = [" 0\t51060 # R0".toList, [], "1 5".toList, "-1 0".toList] := by
      decide
    unfold Shows
    rw [hlines]
    refine .row (says_of_words " 0\t51060 ".toList "# R0".toList (by decide) (by decide)) ?_
    refine .skip says_nil (.row (says_of_words "1 5".toList [] (by decide) (by decide)) ?_)
    exact .row (says_of_words "-1 0".toList [] (by decide) (by decide)) .nil
  exact ⟨hwords, ((text_format.2 image hwords).2 text hshows).2 _⟩

end Image

end Timeshare
