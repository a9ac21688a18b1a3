import Timeshare.Text.Line
import Mathlib.Data.List.TakeWhile

namespace Timeshare.Text

/-!
# Words, lines and comments

What a text says is a matter of its words, and not of how they are spread out.

* `Spaced ws t` — the text `t` is the words `ws` with white space around and between them; `words_eq_iff` —
  the words of a text are the only ones that it can be spaced out from.
* `Says ws line` — a line is spaced out from words and may have a comment; `words_content` — the words of
  its content are those.
* `statements text` — what the lines of a text say, one by one; `entries_eq` — the same with the numbers of
  the lines.
* `Shows rows text` — the lines of a text say the rows of words, with any lines in between that say
  nothing; `words_statements` — the words of the statements are those rows; `shows_render` — the plain
  way to write rows down is one of the ways.
-/

/-! ### White space -/

/-- A text of white space, perhaps without any. -/
def Blank (t : List Char) : Prop := ∀ c ∈ t, isBlank c = true

/-- A text that has characters, none of which is white space. -/
structure IsWord (t : List Char) : Prop where
  ne_nil : t ≠ []
  solid : ∀ c ∈ t, isBlank c = false

/-- A text consists of the words `ws` with white space around them and between them: `Spaced ws t`.
    Behind a word the text ends or white space begins. -/
inductive Spaced : List (List Char) → List Char → Prop
  | nil {gap : List Char} (hgap : Blank gap) : Spaced [] gap
  | cons {gap w rest : List Char} {ws : List (List Char)} (hgap : Blank gap)
      (hend : ∀ c ∈ rest.head?, isBlank c = true) (h : Spaced ws rest) :
      Spaced (w :: ws) (gap ++ w ++ rest)

variable {t gap w rest read line text : List Char} {ws row : List (List Char)}
  {rows lines : List (List (List Char))}

/-- White space behind white space is white space. -/
theorem Blank.append (h : Blank t) (h' : Blank gap) : Blank (t ++ gap) := by
  intro c hc
  rcases List.mem_append.mp hc with hc | hc
  · exact h c hc
  · exact h' c hc

/-- White space in front makes no difference: `Spaced ws (gap ++ t)`. -/
theorem Spaced.blank_append (h : Spaced ws t) (hgap : Blank gap) : Spaced ws (gap ++ t) := by
  cases h with
  | nil ht => exact .nil (hgap.append ht)
  | @cons front w rest ws hfront hend hrest =>
    rw [← List.append_assoc, ← List.append_assoc]
    exact .cons (hgap.append hfront) hend hrest

/-- White space behind makes no difference: `Spaced ws (t ++ gap)`. -/
theorem Spaced.append_blank (h : Spaced ws t) (hgap : Blank gap) : Spaced ws (t ++ gap) := by
  induction h with
  | nil ht => exact .nil (ht.append hgap)
  | @cons front w rest ws hfront hend hrest ih =>
    rw [List.append_assoc]
    refine .cons hfront ?_ ih
    intro c hc
    cases rest with
    | nil => exact hgap c (List.mem_of_mem_head? hc)
    | cons d rest => exact hend c hc

theorem blank_nil : Blank [] := List.forall_mem_nil _

/-- A word in front: `w ++ rest` is spaced out from `w :: ws` if `rest` is from `ws` and starts with
    white space or is empty. -/
theorem Spaced.word_append (h : Spaced ws rest) (w : List Char)
    (hend : ∀ c ∈ rest.head?, isBlank c = true) : Spaced (w :: ws) (w ++ rest) := by
  have hspaced : Spaced (w :: ws) ([] ++ w ++ rest) := .cons blank_nil hend h
  rwa [List.nil_append] at hspaced

/-! ### The words of a text -/

/-- White space before a word is skipped: `wordsFrom [] (gap ++ t) = wordsFrom [] t`. -/
theorem wordsFrom_blank (hgap : Blank gap) : wordsFrom [] (gap ++ t) = wordsFrom [] t := by
  induction gap with
  | nil => rfl
  | cons c gap ih =>
    obtain ⟨hc, hgap⟩ := List.forall_mem_cons.mp hgap
    rw [List.cons_append, wordsFrom, if_pos hc, if_pos List.isEmpty_nil, ih hgap]

/-- Characters of a word are collected, the last one first:
    `wordsFrom read (w ++ t) = wordsFrom (w.reverse ++ read) t`. -/
theorem wordsFrom_solid (h : ∀ c ∈ w, isBlank c = false) :
    wordsFrom read (w ++ t) = wordsFrom (w.reverse ++ read) t := by
  induction w generalizing read with
  | nil => rfl
  | cons c w ih =>
    obtain ⟨hc, hw⟩ := List.forall_mem_cons.mp h
    rw [List.cons_append, wordsFrom, if_neg (by simp [hc]), ih hw, List.reverse_cons,
      List.append_assoc]
    rfl

/-- A word ends where white space begins, or the text ends: what was collected, `read.reverse`, is
    the next word, and `words t` follow. -/
theorem wordsFrom_end (hread : read ≠ []) (hend : ∀ c ∈ t.head?, isBlank c = true) :
    wordsFrom read t = read.reverse :: words t := by
  have hempty : ¬ read.isEmpty = true := by rwa [List.isEmpty_iff]
  cases t with
  | nil => rw [wordsFrom, if_neg hempty, words, wordsFrom, if_pos List.isEmpty_nil]
  | cons c t =>
    have hc : isBlank c = true := hend c rfl
    rw [words, wordsFrom, if_pos hc, if_neg hempty, wordsFrom, if_pos hc, if_pos List.isEmpty_nil]

/-- The words of a text that is spaced out from words are those words: `words t = ws`. -/
theorem Spaced.words_eq (h : Spaced ws t) (hws : ∀ w ∈ ws, IsWord w) : words t = ws := by
  induction h with
  | @nil gap hgap =>
    have h := wordsFrom_blank (t := []) hgap
    rw [List.append_nil] at h
    rw [words, h, wordsFrom, if_pos List.isEmpty_nil]
  | @cons gap w rest ws hgap hend hrest ih =>
    obtain ⟨hw, hws⟩ := List.forall_mem_cons.mp hws
    -- The word that was collected is not empty, so that it counts as one.
    have hne : w.reverse ++ [] ≠ [] := by
      rw [List.append_nil]
      exact fun hnil => hw.ne_nil (List.reverse_eq_nil_iff.mp hnil)
    rw [words, List.append_assoc, wordsFrom_blank hgap, wordsFrom_solid hw.solid,
      wordsFrom_end hne hend, List.append_nil, List.reverse_reverse, ih hws]

/-- What was collected, if anything, is a word: `IsWord read.reverse`. -/
theorem IsWord.of_read (hread : ∀ c ∈ read, isBlank c = false) (hempty : ¬ read.isEmpty = true) :
    IsWord read.reverse where
  ne_nil := fun h => hempty (List.isEmpty_iff.mpr (List.reverse_eq_nil_iff.mp h))
  solid := fun c hc => hread c (List.mem_reverse.mp hc)

/-- A text is spaced out from its words: the word that is being read goes on in front of it.  With
    `read = []` this says `Spaced (words t) t`. -/
theorem spaced_wordsFrom (hread : ∀ c ∈ read, isBlank c = false) (t : List Char) :
    Spaced (wordsFrom read t) (read.reverse ++ t) ∧ ∀ w ∈ wordsFrom read t, IsWord w := by
  induction t generalizing read with
  | nil =>
    rw [wordsFrom]
    split
    · rename_i hempty
      rw [List.isEmpty_iff.mp hempty]
      exact ⟨.nil blank_nil, List.forall_mem_nil _⟩
    · rename_i hempty
      refine ⟨?_, fun w hw => List.mem_singleton.mp hw ▸ .of_read hread hempty⟩
      exact (Spaced.nil blank_nil).word_append _ fun _ h => absurd h (by simp)
  | cons c t ih =>
    rw [wordsFrom]
    by_cases hc : isBlank c = true
    -- A blank ends the word that is being read, if there is one.
    · have hgap : Blank [c] := fun d hd => List.mem_singleton.mp hd ▸ hc
      have hrest : Spaced (wordsFrom [] t) t ∧ ∀ w ∈ wordsFrom [] t, IsWord w :=
        ih (List.forall_mem_nil _)
      have hspaced : Spaced (wordsFrom [] t) (c :: t) := hrest.1.blank_append hgap
      rw [if_pos hc]
      split
      · rename_i hempty
        rw [List.isEmpty_iff.mp hempty]
        exact ⟨hspaced, hrest.2⟩
      · rename_i hempty
        refine ⟨hspaced.word_append _ ?_, List.forall_mem_cons.mpr ⟨.of_read hread hempty, hrest.2⟩⟩
        intro d hd
        rwa [← Option.some.inj hd]
    · rw [Bool.not_eq_true] at hc
      rw [if_neg (by simp [hc])]
      -- Another character goes on with the word.
      have h := ih (List.forall_mem_cons.mpr ⟨hc, hread⟩)
      rwa [List.reverse_cons, List.append_assoc] at h

/-- **The words of a text** are the only ones that it is spaced out from: `words t = ws` says
    `Spaced ws t`, with words for `ws`. -/
theorem words_eq_iff : words t = ws ↔ Spaced ws t ∧ ∀ w ∈ ws, IsWord w := by
  constructor
  · rintro rfl
    exact spaced_wordsFrom (List.forall_mem_nil _) t
  · rintro ⟨h, hws⟩
    exact h.words_eq hws

/-- A text has no words if it is white space, and only then: `words t = [] ↔ Blank t`. -/
theorem words_eq_nil_iff : words t = [] ↔ Blank t := by
  rw [words_eq_iff]
  constructor
  · rintro ⟨h, -⟩
    cases h with
    | nil hgap => exact hgap
  · intro h
    exact ⟨.nil h, List.forall_mem_nil _⟩

/-- White space around a text makes no difference to its words:
    `words (front ++ t ++ back) = words t`. -/
theorem words_pad {front back : List Char} (hfront : Blank front) (hback : Blank back)
    (t : List Char) : words (front ++ t ++ back) = words t := by
  obtain ⟨h, hws⟩ := words_eq_iff.mp (rfl : words t = words t)
  exact words_eq_iff.mpr ⟨(h.blank_append hfront).append_blank hback, hws⟩

/-! ### What a line says -/

/-- What is cut off from a text is white space: `t = front ++ trim t ++ back`, with `Blank front`
    and `Blank back`. -/
theorem exists_trim (t : List Char) :
    ∃ front back, Blank front ∧ Blank back ∧ t = front ++ trim t ++ back := by
  have hblank : ∀ u : List Char, Blank (u.takeWhile isBlank) := fun u c hc => List.mem_takeWhile_imp hc
  let rest := t.dropWhile isBlank
  refine ⟨t.takeWhile isBlank, (rest.reverse.takeWhile isBlank).reverse, hblank t, ?_, ?_⟩
  · intro c hc
    exact hblank _ c (List.mem_reverse.mp hc)
  · have hrest : trim t ++ (rest.reverse.takeWhile isBlank).reverse = rest := by
      show (rest.reverse.dropWhile isBlank).reverse ++ (rest.reverse.takeWhile isBlank).reverse = rest
      rw [← List.reverse_append, List.takeWhile_append_dropWhile, List.reverse_reverse]
    rw [List.append_assoc, hrest]
    exact List.takeWhile_append_dropWhile.symm

/-- Cutting off white space makes no difference to the words: `words (trim t) = words t`. -/
theorem words_trim (t : List Char) : words (trim t) = words t := by
  obtain ⟨front, back, hfront, hback, ht⟩ := exists_trim t
  calc words (trim t) = words (front ++ trim t ++ back) := (words_pad hfront hback _).symm
    _ = words t := by rw [← ht]

/-- Nothing is left of a text if it is white space, and only then: `trim t = [] ↔ Blank t`. -/
theorem trim_eq_nil_iff : trim t = [] ↔ Blank t := by
  constructor
  · intro h
    rw [← words_eq_nil_iff, ← words_trim, h]
    rfl
  · intro h
    have hnil : t.dropWhile isBlank = [] := List.dropWhile_eq_nil_iff.mpr h
    unfold trim
    rw [hnil]
    rfl

/-- White space behind a text is cut off: `trim (t ++ gap) = trim t`. -/
theorem trim_append_blank (hgap : Blank gap) (t : List Char) : trim (t ++ gap) = trim t := by
  by_cases ht : Blank t
  · rw [trim_eq_nil_iff.mpr ht, trim_eq_nil_iff.mpr (ht.append hgap)]
  · have hrest : ¬ (t.dropWhile isBlank).isEmpty = true := by
      rwa [List.isEmpty_iff, List.dropWhile_eq_nil_iff]
    have hgap' : ∀ c ∈ gap.reverse, isBlank c = true := fun c hc => hgap c (List.mem_reverse.mp hc)
    unfold trim
    rw [List.dropWhile_append, if_neg hrest, List.reverse_append, List.dropWhile_append_of_pos hgap']

/-- A line without content says no words, and only such a line does. -/
theorem content_eq_nil_iff : content line = [] ↔ words (content line) = [] := by
  unfold content
  rw [words_trim, words_eq_nil_iff, trim_eq_nil_iff]

/-- The carriage return at the end of a line belongs to no content: it is white space, or a part of
    the comment, so that `content (dropReturn line) = content line`. -/
theorem content_dropReturn (line : List Char) : content (dropReturn line) = content line := by
  unfold dropReturn
  split
  · rename_i hlast
    obtain ⟨front, rfl⟩ := List.getLast?_eq_some_iff.mp hlast
    have hreturn : Blank ['\r'] := fun c hc => List.mem_singleton.mp hc ▸ by decide
    unfold content
    rw [List.dropLast_concat, List.takeWhile_append]
    split
    · rename_i hlength
      have hfront : front.takeWhile (· ≠ '#') = front :=
        (List.takeWhile_prefix _).eq_of_length hlength
      rw [hfront]
      exact (trim_append_blank hreturn front).symm
    · rfl
  · rfl

/-- A text that can stand between white space, and in front of a comment: a word without `#`. -/
structure IsToken (t : List Char) : Prop extends IsWord t where
  no_hash : '#' ∉ t

/-- Whether a text is a token can be computed from its characters: it has some, none of them is
    blank, and none is `#`. -/
theorem isToken_iff : IsToken t ↔ t ≠ [] ∧ t.all (! isBlank ·) = true ∧ '#' ∉ t := by
  simp only [List.all_eq_true, Bool.not_eq_true']
  exact ⟨fun h => ⟨h.ne_nil, h.solid, h.no_hash⟩, fun h => ⟨⟨h.1, h.2.1⟩, h.2.2⟩⟩

instance : Decidable (IsToken t) := decidable_of_iff _ isToken_iff.symm

/-- A line says the words `ws`: they are spaced out on it, and there may be a comment behind them
    that starts with `#`. -/
def Says (ws : List (List Char)) (line : List Char) : Prop :=
  ∃ body comment, line = body ++ comment ∧ Spaced ws body ∧ ∀ c ∈ comment.head?, c = '#'

/-- A line `body ++ comment` says the words in front of its comment, those of `body`. -/
theorem says_of_words (body comment : List Char) (h : words body = ws)
    (hcomment : comment = [] ∨ comment.head? = some '#') : Says ws (body ++ comment) := by
  refine ⟨body, comment, rfl, (words_eq_iff.mp h).1, fun c hc => ?_⟩
  rcases hcomment with rfl | hhash
  · exact absurd hc (by simp)
  · exact Option.some.inj (hc.symm.trans hhash)

/-- An empty line says nothing. -/
theorem says_nil : Says [] [] := says_of_words [] [] rfl (.inl rfl)

/-- White space has no `#` in it. -/
theorem Blank.no_hash (h : Blank t) : '#' ∉ t := by
  intro hmem
  exact absurd (h _ hmem) (by decide)

/-- A text that is spaced out from tokens has no `#` in it, so that no comment starts before its
    end. -/
theorem Spaced.no_hash (h : Spaced ws t) (hws : ∀ w ∈ ws, IsToken w) : '#' ∉ t := by
  induction h with
  | nil hgap => exact hgap.no_hash
  | cons hgap hend hrest ih =>
    obtain ⟨hw, hws⟩ := List.forall_mem_cons.mp hws
    simp only [List.mem_append, not_or]
    exact ⟨⟨hgap.no_hash, hw.no_hash⟩, ih hws⟩

/-- **The words of a line**, however they are spaced out on it and whatever its comment:
    `words (content line) = ws`. -/
theorem Says.words_content (h : Says ws line) (hws : ∀ w ∈ ws, IsToken w) :
    words (content line) = ws := by
  obtain ⟨body, comment, rfl, hspaced, hcomment⟩ := h
  have hbody : ∀ c ∈ body, decide (c ≠ '#') = true := by
    intro c hc
    have hne : c ≠ '#' := fun heq => hspaced.no_hash hws (heq ▸ hc)
    exact decide_eq_true hne
  have hcut : comment.takeWhile (· ≠ '#') = [] := by
    cases comment with
    | nil => rfl
    | cons c comment => simp [hcomment c rfl]
  unfold content
  rw [List.takeWhile_append_of_pos hbody, hcut, List.append_nil, words_trim]
  exact hspaced.words_eq fun w hw => (hws w hw).toIsWord

/-! ### What a text says -/

/-- What the lines of a text say, in order: comments are cut off, and so is the white space around, and
    lines without content are left out. -/
def statements (text : List Char) : List (List Char) :=
  ((text.splitOn '\n').map content).filter (! ·.isEmpty)

/-- What lines say, with their numbers from `number` on. -/
def numbered (number : Nat) (lines : List (List Char)) : List (Nat × List Char) :=
  (lines.zipIdx number).filterMap fun x =>
    if (content x.1).isEmpty then none else some (x.2, content x.1)

/-- A line without content is left out, but it counts: the numbers go on at `number + 1` in either
    case. -/
theorem numbered_cons (number : Nat) (line : List Char) (lines : List (List Char)) :
    numbered number (line :: lines) =
      if content line = [] then numbered (number + 1) lines
      else (number, content line) :: numbered (number + 1) lines := by
  unfold numbered
  rw [List.zipIdx_cons, List.filterMap_cons]
  by_cases hline : content line = []
  · simp only [hline, List.isEmpty_nil, if_true]
  · simp only [hline, List.isEmpty_iff, if_false]

/-- A character that is no line feed is collected in `read` for the line that is being read. -/
theorem linesFrom_cons {c : Char} (hc : c ≠ '\n') :
    linesFrom read (c :: text) = linesFrom (c :: read) text := by
  rw [linesFrom]
  exact hc

/-- Lines are taken at line feeds, as by `splitOn`.  That a last line without characters does not
    count makes no difference to what the lines say, and neither does the carriage return that is
    dropped. -/
theorem numbered_linesFrom (hread : '\n' ∉ read) (text : List Char) (number : Nat) :
    numbered number (linesFrom read text) = numbered number ((read.reverse ++ text).splitOn '\n') := by
  -- Along the text: `read` is the line that is being read, in reverse, and `number` is its number.
  induction text generalizing read number with
  | nil =>
    rw [List.append_nil, List.splitOn_eq_singleton (by rwa [List.mem_reverse]), linesFrom]
    split
    · rename_i hempty
      rw [List.isEmpty_iff.mp hempty]
      rfl
    · rfl
  | cons c text ih =>
    by_cases hc : c = '\n'
    · subst hc
      rw [linesFrom, List.splitOn_append_cons_self_of_not_mem (by rwa [List.mem_reverse]), numbered_cons,
        numbered_cons, content_dropReturn, ih List.not_mem_nil (number + 1)]
      rfl
    · have hread' : '\n' ∉ c :: read := by
        rw [List.mem_cons, not_or]
        exact ⟨fun h => hc h.symm, hread⟩
      rw [linesFrom_cons hc, ih hread', List.reverse_cons, List.append_assoc]
      rfl

/-- **The entries of a text** are what its lines say, with the numbers of the lines from 1 on:
    `entries text = numbered 1 (text.splitOn '\n')`. -/
theorem entries_eq (text : List Char) : entries text = numbered 1 (text.splitOn '\n') :=
  numbered_linesFrom List.not_mem_nil text 1

/-- The entries of a text without the numbers are `statements text`. -/
theorem map_snd_entries (text : List Char) : (entries text).map Prod.snd = statements text := by
  have h : ∀ (lines : List (List Char)) (number : Nat),
      (numbered number lines).map Prod.snd = (lines.map content).filter (! ·.isEmpty) := by
    intro lines
    induction lines with
    | nil => intro number; rfl
    | cons line lines ih =>
      intro number
      rw [numbered_cons, List.map_cons, List.filter_cons, ← ih (number + 1)]
      by_cases hline : content line = []
      · simp [hline]
      · simp [hline]
  rw [entries_eq]
  exact h _ 1

/-- A text after a line feed adds what it says:
    `statements (text ++ '\n' :: after) = statements text ++ statements after`. -/
theorem statements_append (text after : List Char) :
    statements (text ++ '\n' :: after) = statements text ++ statements after := by
  unfold statements
  rw [List.splitOn_append_cons_self, List.map_append, List.filter_append]

/-! ### Rows of words -/

/-- Words that can stand on a line. -/
structure IsRow (row : List (List Char)) : Prop where
  ne_nil : row ≠ []
  token : ∀ w ∈ row, IsToken w

/-- Lines say the rows of words `rows`, one row on a line, and any lines in between say nothing. -/
inductive Listed : List (List (List Char)) → List (List Char) → Prop
  | nil : Listed [] []
  | skip {rows : List (List (List Char))} {line : List Char} {lines : List (List Char)}
      (h : Says [] line) (hrest : Listed rows lines) : Listed rows (line :: lines)
  | row {row : List (List Char)} {rows : List (List (List Char))} {line : List Char}
      {lines : List (List Char)} (h : Says row line) (hrest : Listed rows lines) :
      Listed (row :: rows) (line :: lines)

/-- A text shows rows of words, however they are spaced out on its lines and whatever its comments:
    its lines are `Listed rows`. -/
def Shows (rows : List (List (List Char))) (text : List Char) : Prop := Listed rows (text.splitOn '\n')

/-- **What a text shows** is read back from its statements: `(statements text).map words = rows`. -/
theorem Shows.words_statements {rows : List (List (List Char))} (h : Shows rows text)
    (hrows : ∀ row ∈ rows, IsRow row) : (statements text).map words = rows := by
  unfold Shows at h
  unfold statements
  generalize text.splitOn '\n' = lines at h
  induction h with
  | nil => rfl
  | skip h hrest ih =>
    have hnil := content_eq_nil_iff.mpr (h.words_content (List.forall_mem_nil _))
    rw [List.map_cons, hnil]
    exact ih hrows
  | row h hrest ih =>
    obtain ⟨hrow, hrows⟩ := List.forall_mem_cons.mp hrows
    have hwords := h.words_content hrow.token
    have hsaid : content _ ≠ [] := fun hnil => hrow.ne_nil (hwords ▸ content_eq_nil_iff.mp hnil)
    rw [List.map_cons, List.filter_cons_of_pos (by simp [hsaid]), List.map_cons, hwords, ih hrows]

/-- The plain way to write rows of words down: one space between words, and a line for each row. -/
def render : List (List (List Char)) → List Char
  | [] => []
  | row :: rows => [' '].intercalate row ++ '\n' :: render rows

/-- Words with one space between them, `[' '].intercalate ws`, are spaced out, and on one line if
    each of them is without a line feed. -/
theorem spaced_intercalate (ws : List (List Char)) :
    Spaced ws ([' '].intercalate ws)
      ∧ ((∀ w ∈ ws, '\n' ∉ w) → '\n' ∉ [' '].intercalate ws) := by
  have hspace : Blank [' '] := fun c hc => List.mem_singleton.mp hc ▸ by decide
  induction ws with
  | nil => exact ⟨.nil blank_nil, fun _ => List.not_mem_nil⟩
  | cons w ws ih =>
    obtain ⟨hspaced, hline⟩ := ih
    cases ws with
    | nil =>
      rw [List.intercalate_singleton]
      refine ⟨?_, fun h => h w List.mem_cons_self⟩
      have h := (Spaced.nil blank_nil).word_append w fun _ h => absurd h (by simp)
      rwa [List.append_nil] at h
    | cons w' ws =>
      rw [List.intercalate_cons_cons]
      refine ⟨?_, fun h => ?_⟩
      -- A word is followed by the space, or by nothing.
      · have hhead : ∀ c ∈ ([' '] ++ [' '].intercalate (w' :: ws)).head?, isBlank c = true :=
          fun c hc => hspace c (List.mem_singleton.mpr (Option.some.inj hc).symm)
        have h := (hspaced.blank_append hspace).word_append w hhead
        rwa [← List.append_assoc] at h
      · obtain ⟨hw, hws⟩ := List.forall_mem_cons.mp h
        simp only [List.mem_append, not_or]
        exact ⟨⟨hw, by decide⟩, hline hws⟩

/-- A word has no line feed in it, which is white space. -/
theorem IsWord.no_lineFeed (h : IsWord w) : '\n' ∉ w := by
  intro hmem
  exact absurd (h.solid _ hmem) (by decide)

/-- A text that is written in the plain way shows what is written: `Shows rows (render rows)`. -/
theorem shows_render {rows : List (List (List Char))} (hrows : ∀ row ∈ rows, IsRow row) :
    Shows rows (render rows) := by
  unfold Shows
  induction rows with
  | nil => exact .skip says_nil .nil
  | cons row rows ih =>
    obtain ⟨hrow, hrows⟩ := List.forall_mem_cons.mp hrows
    obtain ⟨hspaced, hline⟩ := spaced_intercalate row
    rw [render, List.splitOn_append_cons_self_of_not_mem
      (hline fun w hw => (hrow.token w hw).no_lineFeed)]
    exact .row ⟨_, [], (List.append_nil _).symm, hspaced, fun _ h => absurd h (by simp)⟩ (ih hrows)

end Timeshare.Text
