import Timeshare.Session.Script
import Timeshare.Proofs.Action
import Timeshare.Proofs.Text.Integer
import Mathlib.Data.List.Forall2

namespace Timeshare

/-!
# Scripts

A script is a list of events, one on a line.  Which words are an event is said by one relation, of which
the plain way to write an event down is a part; what may stand around the words and between the lines is
that of all texts.

* `Interrupt.Denotes priority ws e` — the words `ws` are the event `e`; `Interrupt.ofWords_eq_ok_iff` —
  exactly these words are read as that event.
* `Interrupt.Written priority e row` — the words `row` are the event `e` as it is written down, with a
  keyword or a number, and with a priority or without one.
* `Interrupt.Rejected priority line` — a line says something that is no event.
* `Interrupt.script_format` — scripts are read back however they are spaced out, and reading fails at the
  first line that is rejected, and only there.
-/

/-- An error names a line: it has the number of the line and what the line says, and its text starts
    with both. -/
def ScriptError.Names (e : ScriptError) (number : Nat) (line : List Char) : Prop :=
  e.line = number ∧ e.content = String.ofList line
    ∧ e.message = s!"line {number}: {Text.quote (String.ofList line)}: {e.error.message}"

/-- An error that names a line is the line with its own `error`, since the text is computed from
    these. -/
theorem ScriptError.names_iff {e : ScriptError} {number : Nat} {line : List Char} :
    e.Names number line ↔ e = ⟨number, String.ofList line, e.error⟩ := by
  obtain ⟨n, c, error⟩ := e
  unfold Names
  constructor
  · rintro ⟨hline, hcontent, -⟩
    obtain rfl : n = number := hline
    obtain rfl : c = String.ofList line := hcontent
    rfl
  · intro h
    obtain ⟨rfl, rfl, -⟩ := ScriptError.mk.inj h
    exact ⟨rfl, rfl, rfl⟩

namespace Interrupt

open Text

/-! ### Events as words -/

/-- The names of an event: its keyword, and its number in decimal. -/
def names (e : Interrupt) : List (List Char) := [e.keyword.toList, decimal e.number]

/-- What is written behind the name of an event. -/
def arguments : Interrupt → List (List Char)
  | none => []
  | runProgram program priority => [program.toList, decimal priority]
  | shutdown => []
  | inputCompletion pid input => [decimal pid, [input]]
  | outputCompletion pid => [decimal pid]

/-- An event is written as words: one of its names and its arguments, where a priority may be left out if
    it is the given one. -/
inductive Written (priority : Word) : Interrupt → List (List Char) → Prop
  | whole {e : Interrupt} {name : List Char} (hname : name ∈ names e) :
      Written priority e (name :: arguments e)
  | short {program : String} {name : List Char} (hname : name ∈ names (runProgram program priority)) :
      Written priority (runProgram program priority) [name, program.toList]

/-- An event can be written on a line: its program, or its character, can stand between white space. -/
def Printable : Interrupt → Prop
  | runProgram program _ => IsToken program.toList
  | inputCompletion _ input => IsToken [input]
  | _ => True

/-- The words `ws` are the event `e`: one of its names, and then all that is known of it, numbers by
    any of their literals.  Without a priority, a program has the given one. -/
inductive Denotes (priority : Word) : List (List Char) → Interrupt → Prop
  | none {name : List Char} (hname : name ∈ names none) : Denotes priority [name] none
  | shutdown {name : List Char} (hname : name ∈ names shutdown) : Denotes priority [name] shutdown
  | run {name : List Char} {program : String} (hname : name ∈ names (runProgram program priority)) :
      Denotes priority [name, program.toList] (runProgram program priority)
  | runWith {name given : List Char} {program : String} {w : Word}
      (hname : name ∈ names (runProgram program w)) (hgiven : Literal given w.toInt) :
      Denotes priority [name, program.toList, given] (runProgram program w)
  | input {name pid : List Char} {w : Word} {c : Char} (hname : name ∈ names (inputCompletion w c))
      (hpid : Literal pid w.toInt) : Denotes priority [name, pid, [c]] (inputCompletion w c)
  | output {name pid : List Char} {w : Word} (hname : name ∈ names (outputCompletion w))
      (hpid : Literal pid w.toInt) : Denotes priority [name, pid] (outputCompletion w)

variable {priority w : Word} {name t line : List Char} {ws row : List (List Char)}
  {lines : List (List Char)} {e e' : Interrupt} {events : List Interrupt} {c : Char}
  {rows : List (List (List Char))}

/-- What is written is the event: a number in decimal is one of its literals. -/
theorem Written.denotes (h : Written priority e row) : Denotes priority row e := by
  cases h with
  | whole hname =>
    cases e with
    | none => exact .none hname
    | runProgram program given => exact .runWith hname (literal_decimal given)
    | shutdown => exact .shutdown hname
    | inputCompletion pid input => exact .input hname (literal_decimal pid)
    | outputCompletion pid => exact .output hname (literal_decimal pid)
  | short hname => exact .run hname

/-- The names of an event are `e.keyword` and `decimal e.number`, and no others. -/
theorem mem_names_iff : name ∈ names e ↔ name = e.keyword.toList ∨ name = decimal e.number := by
  rw [names, List.mem_cons, List.mem_singleton]

/-- A keyword can stand between white space: `IsToken e.keyword.toList`. -/
theorem isToken_keyword (e : Interrupt) : IsToken e.keyword.toList := by
  cases e <;> dsimp only [keyword] <;> decide

/-- Each name in `names e` can stand between white space. -/
theorem isToken_of_mem_names (h : name ∈ names e) : IsToken name := by
  rcases mem_names_iff.mp h with rfl | rfl
  · exact isToken_keyword e
  · exact (literal_decimal e.number).isToken

/-- The arguments of an event that is `Printable` can stand between white space. -/
theorem isToken_of_mem_arguments (h : Printable e) : ∀ t ∈ arguments e, IsToken t := by
  have hdecimal : ∀ w : Word, IsToken (decimal w) := fun w => (literal_decimal w).isToken
  cases e with
  | none => exact List.forall_mem_nil _
  | runProgram program given =>
    exact List.forall_mem_cons.mpr ⟨h, List.forall_mem_singleton.mpr (hdecimal given)⟩
  | shutdown => exact List.forall_mem_nil _
  | inputCompletion pid input =>
    exact List.forall_mem_cons.mpr ⟨hdecimal pid, List.forall_mem_singleton.mpr h⟩
  | outputCompletion pid => exact List.forall_mem_singleton.mpr (hdecimal pid)

/-- What is written for an event that is `Printable` can stand on a line. -/
theorem Written.isRow (h : Written priority e row) (hprint : Printable e) : IsRow row := by
  cases h with
  | whole hname =>
    refine ⟨by simp, List.forall_mem_cons.mpr ⟨isToken_of_mem_names hname, ?_⟩⟩
    exact isToken_of_mem_arguments hprint
  | short hname =>
    refine ⟨by simp, List.forall_mem_cons.mpr ⟨isToken_of_mem_names hname, ?_⟩⟩
    exact List.forall_mem_singleton.mpr hprint

/-! ### Reading an event -/

/-- The number of an event as the digit that `ofWords` looks for. -/
def digit : Interrupt → String
  | none => "0"
  | runProgram .. => "1"
  | shutdown => "2"
  | inputCompletion .. => "3"
  | outputCompletion .. => "4"

/-- The number of an event in decimal is its digit, `e.digit`. -/
theorem decimal_number (e : Interrupt) : decimal e.number = e.digit.toList := by
  cases e <;> dsimp only [number, digit] <;> decide

/-- A name is looked for as a keyword and as a digit: `isNamed name e.keyword e.digit` says
    `name ∈ names e`. -/
theorem isNamed_iff : isNamed name e.keyword e.digit = true ↔ name ∈ names e := by
  rw [isNamed, Bool.or_eq_true, beq_iff_eq, beq_iff_eq, mem_names_iff, decimal_number]

/-- No name is that of two kinds of events: a name of `e` and of `e'` gives
    `e.number = e'.number`. -/
theorem number_eq_of_mem_names (h : name ∈ names e) (h' : name ∈ names e') : e.number = e'.number := by
  rw [mem_names_iff, decimal_number] at h h'
  cases e <;> cases e' <;> first
    | rfl
    | dsimp only [keyword, digit] at h h'
      rcases h with rfl | rfl <;> rcases h' with h' | h' <;> exact absurd h' (by decide)

/-- A name of `e` is not looked for as one of another kind of event. -/
theorem isNamed_eq_false (h : name ∈ names e) (e' : Interrupt) (hne : e.number ≠ e'.number) :
    isNamed name e'.keyword e'.digit = false := by
  rw [← Bool.not_eq_true, isNamed_iff]
  exact fun h' => hne (number_eq_of_mem_names h h')

/-- A process number is read from any of its literals: `Literal t w.toInt`. -/
theorem readPid_eq_ok_iff : readPid t = .ok w ↔ Literal t w.toInt := by
  unfold readPid
  rw [mapError_eq_ok_iff, readWord_eq_ok_iff]

/-- A character is read from a word that has no other: `t = [c]`. -/
theorem readCharacter_eq_ok_iff : readCharacter t = .ok c ↔ t = [c] := by
  unfold readCharacter
  split
  · simp
  · rename_i hne
    constructor
    · intro h
      exact absurd h (by simp)
    · intro h
      exact absurd h (hne c)

/-- Words that are an event are read as that event: `ofWords priority ws = .ok e`. -/
theorem Denotes.ofWords_eq (h : Denotes priority ws e) : ofWords priority ws = .ok e := by
  -- The tests before the right one fail: some want no arguments, and the others another name.
  cases h with
  | none hname =>
    have hnone : isNamed _ "none" "0" = true := (isNamed_iff.mpr hname :)
    simp only [ofWords, hnone, List.isEmpty_nil, Bool.and_self, if_true]
  | shutdown hname =>
    have hnone : isNamed _ "none" "0" = false := isNamed_eq_false hname Interrupt.none (by decide)
    have hshutdown : isNamed _ "shutdown" "2" = true := (isNamed_iff.mpr hname :)
    simp only [ofWords, hnone, hshutdown, List.isEmpty_nil, Bool.and_true, Bool.false_eq_true, if_false,
      if_true]
  | run hname =>
    have hrun : isNamed _ "run" "1" = true := (isNamed_iff.mpr hname :)
    simp only [ofWords, List.isEmpty_cons, Bool.and_false, Bool.false_eq_true, if_false, hrun, if_true,
      String.ofList_toList]
  | runWith hname hgiven =>
    have hrun : isNamed _ "run" "1" = true := (isNamed_iff.mpr hname :)
    simp only [ofWords, List.isEmpty_cons, Bool.and_false, Bool.false_eq_true, if_false, hrun, if_true,
      String.ofList_toList, readWord_eq_ok_iff.mpr hgiven]
    rfl
  | input hname hpid =>
    have hrun : isNamed _ "run" "1" = false :=
      isNamed_eq_false hname (runProgram "" 0) (by simp [number])
    have hinput : isNamed _ "input" "3" = true := (isNamed_iff.mpr hname :)
    simp only [ofWords, List.isEmpty_cons, Bool.and_false, Bool.false_eq_true, if_false, hrun, hinput,
      if_true, readPid_eq_ok_iff.mpr hpid]
    rfl
  | output hname hpid =>
    have hrun : isNamed _ "run" "1" = false :=
      isNamed_eq_false hname (runProgram "" 0) (by simp [number])
    have hinput : isNamed _ "input" "3" = false :=
      isNamed_eq_false hname (inputCompletion 0 'a') (by simp [number])
    have houtput : isNamed _ "output" "4" = true := (isNamed_iff.mpr hname :)
    simp only [ofWords, List.isEmpty_cons, Bool.and_false, Bool.false_eq_true, if_false, hrun, hinput,
      houtput, if_true, readPid_eq_ok_iff.mpr hpid]
    rfl

/-- Words that are read as an event are that event: the converse of `Denotes.ofWords_eq`. -/
theorem denotes_of_ofWords (h : ofWords priority ws = .ok e) : Denotes priority ws e := by
  -- One test after the other, and in each the number of arguments.
  unfold ofWords at h
  split at h
  · exact absurd h (by simp)
  rename_i name arguments
  split at h
  · rename_i hname
    rw [Bool.and_eq_true, List.isEmpty_iff] at hname
    obtain ⟨hname, rfl⟩ := hname
    obtain rfl := Except.ok.inj h
    exact .none (isNamed_iff.mp hname)
  rename_i hnone
  split at h
  · rename_i hname
    rw [Bool.and_eq_true, List.isEmpty_iff] at hname
    obtain ⟨hname, rfl⟩ := hname
    obtain rfl := Except.ok.inj h
    exact .shutdown (isNamed_iff.mp hname)
  rename_i hshutdown
  split at h
  · rename_i hname
    split at h
    · rename_i program
      obtain ⟨p, rfl⟩ : ∃ p : String, p.toList = program := ⟨_, String.toList_ofList⟩
      rw [String.ofList_toList] at h
      obtain rfl := Except.ok.inj h
      exact .run (isNamed_iff.mp hname)
    · rename_i program given
      obtain ⟨p, rfl⟩ : ∃ p : String, p.toList = program := ⟨_, String.toList_ofList⟩
      rw [String.ofList_toList] at h
      obtain ⟨w, hgiven, rfl⟩ := map_eq_ok_iff.mp h
      rw [mapError_eq_ok_iff, readWord_eq_ok_iff] at hgiven
      exact .runWith (isNamed_iff.mp hname) hgiven
    · exact absurd h (by simp)
  rename_i hrun
  split at h
  · rename_i hname
    split at h
    · rename_i pid input
      obtain ⟨w, hpid, h⟩ := bind_eq_ok_iff.mp h
      obtain ⟨c, hinput, h⟩ := bind_eq_ok_iff.mp h
      obtain rfl := Except.ok.inj h
      obtain rfl := readCharacter_eq_ok_iff.mp hinput
      exact .input (isNamed_iff.mp hname) (readPid_eq_ok_iff.mp hpid)
    · exact absurd h (by simp)
  split at h
  · rename_i hname
    split at h
    · rename_i pid
      obtain ⟨w, hpid, rfl⟩ := map_eq_ok_iff.mp h
      exact .output (isNamed_iff.mp hname) (readPid_eq_ok_iff.mp hpid)
    · exact absurd h (by simp)
  · exact absurd h (by simp)

/-- **Reading an event.**  Words are read as an event if they are that event, and only then:
    `ofWords priority ws = .ok e` says `Denotes priority ws e`. -/
theorem ofWords_eq_ok_iff : ofWords priority ws = .ok e ↔ Denotes priority ws e :=
  ⟨denotes_of_ofWords, Denotes.ofWords_eq⟩

/-! ### Reading a script -/

/-- A line says something that is no event: it has content, and `ofLine` ends with an error. -/
def Rejected (priority : Word) (line : List Char) : Prop :=
  content line ≠ [] ∧ ∃ error, ofLine priority (content line) = .error error

/-- Whether a line is `Rejected` is found out by reading it. -/
theorem not_isOk_iff_rejected :
    content line ≠ [] ∧ (ofLine priority (content line)).isOk = false ↔ Rejected priority line := by
  unfold Rejected
  cases ofLine priority (content line) with
  | ok e => simp [Except.isOk, Except.toBool]
  | error error => simp [Except.isOk, Except.toBool]

instance : Decidable (Rejected priority line) :=
  decidable_of_iff _ not_isOk_iff_rejected

/-- An event on the first line is the first event, and the other lines decide; a line that is no
    event ends the reading with its number and its content,
    `⟨number, String.ofList line, error⟩`. -/
theorem ofEntries_cons (number : Nat) (line : List Char) (entries : List (Nat × List Char)) :
    ofEntries priority ((number, line) :: entries) =
      match ofLine priority line with
      | .ok event => (ofEntries priority entries).map (event :: ·)
      | .error error => .error ⟨number, String.ofList line, error⟩ := by
  rw [ofEntries]
  cases ofLine priority line with
  | error error => rfl
  | ok event => cases ofEntries priority entries <;> rfl

/-- Entries are read as events if each of them is one, in order: `Forall₂` of lines and events. -/
theorem ofEntries_eq_ok_iff {entries : List (Nat × List Char)} :
    ofEntries priority entries = .ok events ↔
      List.Forall₂ (fun line e => ofLine priority line = .ok e) (entries.map Prod.snd) events := by
  induction entries generalizing events with
  | nil =>
    rw [List.map_nil, List.forall₂_nil_left_iff, ofEntries]
    exact ⟨fun h => (Except.ok.inj h).symm, fun h => congrArg Except.ok h.symm⟩
  | cons entry entries ih =>
    obtain ⟨number, line⟩ := entry
    rw [ofEntries_cons, List.map_cons, List.forall₂_cons_left_iff]
    -- The first line decides first: a line that is no event ends the reading.
    cases ofLine priority line with
    | error error =>
      constructor
      · intro h
        exact absurd h (by simp)
      · rintro ⟨e, rest, h, -⟩
        exact absurd h (by simp)
    | ok event =>
      constructor
      · intro h
        obtain ⟨rest, hrest, rfl⟩ := map_eq_ok_iff.mp h
        exact ⟨event, rest, rfl, ih.mp hrest, rfl⟩
      · rintro ⟨e, rest, h, hrest, rfl⟩
        obtain rfl := Except.ok.inj h
        exact map_eq_ok_iff.mpr ⟨rest, ih.mpr hrest, rfl⟩

/-- A script is read as events if what its lines say, word by word, are these events:
    `List.Forall₂ (Denotes priority)` between the words of the statements and the events. -/
theorem ofScript_eq_ok_iff {text : String} :
    ofScript priority text = .ok events ↔
      List.Forall₂ (Denotes priority) ((statements text.toList).map words) events := by
  unfold ofScript
  rw [ofEntries_eq_ok_iff, map_snd_entries, List.forall₂_map_left_iff]
  simp only [ofLine, ofWords_eq_ok_iff]

/-- Events that are written down can stand on lines, if they are `Printable`. -/
theorem isRow_of_written (hwritten : List.Forall₂ (Written priority) events rows)
    (hprint : ∀ e ∈ events, Printable e) : ∀ row ∈ rows, IsRow row := by
  induction hwritten with
  | nil => exact List.forall_mem_nil _
  | cons h hrest ih =>
    obtain ⟨he, hevents⟩ := List.forall_mem_cons.mp hprint
    exact List.forall_mem_cons.mpr ⟨h.isRow he, ih hevents⟩

/-- **Writing and reading.**  Events that are written down as `rows` are read back from every text
    with `Shows rows text`. -/
theorem ofScript_of_shows {text : List Char} (hwritten : List.Forall₂ (Written priority) events rows)
    (hprint : ∀ e ∈ events, Printable e) (h : Shows rows text) :
    ofScript priority (String.ofList text) = .ok events := by
  rw [ofScript_eq_ok_iff, String.toList_ofList,
    h.words_statements (isRow_of_written hwritten hprint)]
  exact hwritten.flip.imp fun _ _ h => h.denotes

/-! ### The first line that is rejected -/

/-- A line that is not rejected does not decide how reading fails: what remains are the other lines,
    numbered from `number + 1` on. -/
theorem ofEntries_cons_of_not_rejected (h : ¬ Rejected priority line) (number : Nat)
    (lines : List (List Char)) (e : ScriptError) :
    ofEntries priority (numbered number (line :: lines)) = .error e ↔
      ofEntries priority (numbered (number + 1) lines) = .error e := by
  by_cases hnil : content line = []
  · rw [numbered_cons, if_pos hnil]
  · rw [numbered_cons, if_neg hnil, ofEntries_cons]
    cases hline : ofLine priority (content line) with
    | error error => exact absurd ⟨hnil, error, hline⟩ h
    | ok event => cases ofEntries priority (numbered (number + 1) lines) <;> simp [Except.map]

/-- Reading lines that are numbered from `number` on fails at the first line that is rejected, which
    has the number `number + before.length`, and only there. -/
theorem ofEntries_numbered_eq_error_iff (lines : List (List Char)) (number : Nat) (e : ScriptError) :
    ofEntries priority (numbered number lines) = .error e ↔
      ∃ before line after, lines = before ++ line :: after ∧ (∀ l ∈ before, ¬ Rejected priority l)
        ∧ content line ≠ [] ∧ ofLine priority (content line) = .error e.error
        ∧ e.Names (number + before.length) (content line) := by
  induction lines generalizing number with
  | nil =>
    constructor
    · intro h
      exact absurd h (by simp [numbered, ofEntries])
    · rintro ⟨before, line, after, h, -⟩
      exact absurd h (by simp)
  | cons line lines ih =>
    -- Along the lines: if the first one is rejected, nothing behind it is looked at.
    by_cases hline : Rejected priority line
    · obtain ⟨hne, error, herror⟩ := hline
      rw [numbered_cons, if_neg hne, ofEntries_cons, herror]
      constructor
      · intro h
        obtain rfl := Except.error.inj h
        exact ⟨[], line, lines, rfl, List.forall_mem_nil _, hne, herror,
          ScriptError.names_iff.mpr rfl⟩
      · rintro ⟨before, bad, after, hsplit, hpass, -, hbad, hnames⟩
        rcases List.cons_eq_append_iff.mp hsplit with ⟨rfl, hhead⟩ | ⟨before, rfl, -⟩
        · obtain ⟨rfl, -⟩ := List.cons.inj hhead
          obtain rfl := Except.error.inj (herror.symm.trans hbad)
          rw [ScriptError.names_iff.mp hnames]
          rfl
        · exact absurd ⟨hne, error, herror⟩ (hpass line List.mem_cons_self)
    · -- The line in question is one of the others, which have numbers that are larger by one.
      rw [ofEntries_cons_of_not_rejected hline, ih]
      constructor
      · rintro ⟨before, bad, after, rfl, hpass, hne, hbad, hnames⟩
        refine ⟨line :: before, bad, after, rfl, List.forall_mem_cons.mpr ⟨hline, hpass⟩, hne, hbad, ?_⟩
        rwa [List.length_cons, Nat.add_comm before.length, ← Nat.add_assoc]
      · rintro ⟨before, bad, after, hsplit, hpass, hne, hbad, hnames⟩
        rcases List.cons_eq_append_iff.mp hsplit with ⟨rfl, hhead⟩ | ⟨before, rfl, rfl⟩
        · obtain ⟨rfl, -⟩ := List.cons.inj hhead
          exact absurd ⟨hne, e.error, hbad⟩ hline
        · obtain ⟨-, hpass⟩ := List.forall_mem_cons.mp hpass
          refine ⟨before, bad, after, rfl, hpass, hne, hbad, ?_⟩
          rwa [List.length_cons, Nat.add_comm before.length, ← Nat.add_assoc] at hnames

/-- A script fails at the first line that is rejected, and its error names that line, counted from
    1: it is line `before.length + 1`. -/
theorem ofScript_eq_error_iff {text : String} {e : ScriptError} :
    ofScript priority text = .error e ↔ ∃ before line after,
      text.toList.splitOn '\n' = before ++ line :: after ∧ (∀ l ∈ before, ¬ Rejected priority l)
        ∧ content line ≠ [] ∧ ofLine priority (content line) = .error e.error
        ∧ e.Names (before.length + 1) (content line) := by
  unfold ofScript
  rw [entries_eq, ofEntries_numbered_eq_error_iff]
  simp only [Nat.add_comm 1]

/-- A script fails if a line of it is `Rejected`, and only then. -/
theorem exists_error_iff {text : String} :
    (∃ e, ofScript priority text = .error e) ↔
      ∃ line ∈ text.toList.splitOn '\n', Rejected priority line := by
  constructor
  · rintro ⟨e, h⟩
    obtain ⟨before, line, after, hsplit, -, hne, hbad, -⟩ := ofScript_eq_error_iff.mp h
    refine ⟨line, ?_, hne, e.error, hbad⟩
    rw [hsplit]
    exact List.mem_append_right before List.mem_cons_self
  · rintro ⟨line, hline, hrejected⟩
    -- Of the lines that are rejected there is a first one.
    have hfound : ((text.toList.splitOn '\n').find? (Rejected priority ·)).isSome :=
      List.find?_isSome.mpr ⟨line, hline, decide_eq_true hrejected⟩
    obtain ⟨bad, hbad⟩ := Option.isSome_iff_exists.mp hfound
    obtain ⟨hrejected, before, after, hsplit, hpass⟩ := List.find?_eq_some_iff_append.mp hbad
    obtain ⟨hne, error, herror⟩ := of_decide_eq_true hrejected
    refine ⟨⟨before.length + 1, String.ofList (content bad), error⟩, ofScript_eq_error_iff.mpr ?_⟩
    refine ⟨before, bad, after, hsplit, fun l hl => ?_, hne, herror, ScriptError.names_iff.mpr rfl⟩
    have hnot := hpass l hl
    rwa [Bool.not_eq_true', decide_eq_false_iff_not] at hnot

/-- **Scripts.**  Events that can be written down are read back from every text that shows them, one on a line,
    with a keyword or a number each, and a priority that is left out is the given one.  Every text is
    read if what its lines say are events.  Otherwise a line is rejected, and the error names the first
    such line, where all lines count. -/
theorem script_format (priority : Word) :
    (∀ events rows, (∀ e ∈ events, Printable e) → List.Forall₂ (Written priority) events rows →
      ofScript priority (String.ofList (render rows)) = .ok events
        ∧ ∀ text, Shows rows text → ofScript priority (String.ofList text) = .ok events)
    ∧ ∀ text : String,
      let lines := text.toList.splitOn '\n'
      (∀ events, ofScript priority text = .ok events ↔
        List.Forall₂ (Denotes priority) ((statements text.toList).map words) events)
      ∧ ((∃ e, ofScript priority text = .error e) ↔ ∃ line ∈ lines, Rejected priority line)
      ∧ ∀ e, ofScript priority text = .error e ↔ ∃ before line after,
        lines = before ++ line :: after ∧ (∀ l ∈ before, ¬ Rejected priority l)
          ∧ content line ≠ [] ∧ ofLine priority (content line) = .error e.error
          ∧ e.Names (before.length + 1) (content line) := by
  constructor
  · intro events rows hprint hwritten
    have hread : ∀ text, Shows rows text → ofScript priority (String.ofList text) = .ok events :=
      fun text htext => ofScript_of_shows hwritten hprint htext
    exact ⟨hread _ (shows_render (isRow_of_written hwritten hprint)), hread⟩
  · intro text lines
    exact ⟨fun events => ofScript_eq_ok_iff, exists_error_iff, fun e => ofScript_eq_error_iff⟩

/-- A script with a comment, a blank line, a number for a keyword and a digit for a character; and one whose
    third line lacks an argument. -/
theorem script_format_commented :
    let events := [runProgram "add" 10, runProgram "add" 128, inputCompletion 3 '1', shutdown]
    let rows := [["run".toList, "add".toList], "1".toList :: arguments (runProgram "add" 128),
      "3".toList :: arguments (inputCompletion 3 '1'), "shutdown".toList :: arguments shutdown]
    let text := "# start\n run add # once\n\n1\tadd 128\n3 3 1\nshutdown".toList
    (∀ e ∈ events, Printable e) ∧ List.Forall₂ (Written 10) events rows
      ∧ ofScript 10 (String.ofList text) = .ok events
      ∧ ∃ e, ofScript 10 "none\n# two\nrun\nfly" = .error e ∧ e.line = 3 := by
  intro events rows text
  have hprint : ∀ e ∈ events, Printable e := by
    have hadd : IsToken "add".toList := by decide
    have hone : IsToken ['1'] := by decide
    refine List.forall_mem_cons.mpr ⟨hadd, List.forall_mem_cons.mpr ⟨hadd, ?_⟩⟩
    exact List.forall_mem_cons.mpr ⟨hone, List.forall_mem_singleton.mpr trivial⟩
  have hwritten : List.Forall₂ (Written 10) events rows :=
    .cons (.short (by decide)) (.cons (.whole (by decide)) (.cons (.whole (by decide))
      (.cons (.whole (by decide)) .nil)))
  have hshows : Shows rows text := by
    have hlines : text.splitOn '\n' = [[] ++ "# start".toList, " run add ".toList ++ "# once".toList, [],
        "1\tadd 128".toList ++ [], "3 3 1".toList ++ [], "shutdown".toList ++ []] := by
      decide
    unfold Shows
    rw [hlines]
    refine .skip (says_of_words _ _ (by decide) (by decide)) ?_
    refine .row (says_of_words _ _ (by decide) (by decide)) (.skip says_nil ?_)
    refine .row (says_of_words _ _ (by decide) (by decide)) ?_
    refine .row (says_of_words _ _ (by decide) (by decide)) ?_
    exact .row (says_of_words _ _ (by decide) (by decide)) .nil
  have hlines : "none\n# two\nrun\nfly".toList.splitOn '\n'
      = ["none".toList, "# two".toList] ++ "run".toList :: ["fly".toList] := by
    decide
  obtain ⟨hread, hfail⟩ := script_format 10
  refine ⟨hprint, hwritten, (hread events rows hprint hwritten).2 text hshows, ?_⟩
  refine ⟨⟨3, "run", .unknown⟩, ((hfail _).2.2 _).mpr ?_, rfl⟩
  exact ⟨_, _, _, hlines, by decide, by decide, by decide, ScriptError.names_iff.mpr (by decide)⟩

end Interrupt

end Timeshare
