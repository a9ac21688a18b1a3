namespace Timeshare.Text

/-!
# Lines and words

* `lines` splits a text at line feeds; a carriage return before a line feed belongs to the end
  of the line;
* `trim` and `words` go by white space, which is that of the character database and not only
  that of ASCII;
* `entries` are the lines that say something, with their numbers: a `#` starts a comment, and
  blank lines are left out.
-/

/-- Whether a character is white space: the property of that name of the character database. -/
def isBlank (c : Char) : Bool :=
  let n := c.toNat
  (0x09 ≤ n && n ≤ 0x0d) || n == 0x20 || n == 0x85 || n == 0xa0 || n == 0x1680 ||
    (0x2000 ≤ n && n ≤ 0x200a) || n == 0x2028 || n == 0x2029 || n == 0x202f || n == 0x205f ||
    n == 0x3000

/-- A line without the carriage return that ends it, if one does. -/
def dropReturn (line : List Char) : List Char :=
  if line.getLast? = some '\r' then line.dropLast else line

/-- The lines of a text, given the characters of the line being read in reverse.  A last line
    without characters does not count, and one without a line feed keeps its carriage
    return. -/
def linesFrom (read : List Char) : List Char → List (List Char)
  | [] => if read.isEmpty then [] else [read.reverse]
  | '\n' :: rest => dropReturn read.reverse :: linesFrom [] rest
  | c :: rest => linesFrom (c :: read) rest

/-- The lines of a text. -/
def lines (text : List Char) : List (List Char) := linesFrom [] text

/-- A text without the white space around it. -/
def trim (text : List Char) : List Char :=
  ((text.dropWhile isBlank).reverse.dropWhile isBlank).reverse

/-- The words of a text, given the characters of the word being read in reverse. -/
def wordsFrom (read : List Char) : List Char → List (List Char)
  | [] => if read.isEmpty then [] else [read.reverse]
  | c :: rest =>
    if isBlank c then
      if read.isEmpty then wordsFrom [] rest else read.reverse :: wordsFrom [] rest
    else
      wordsFrom (c :: read) rest

/-- The longest parts of a text without white space. -/
def words (text : List Char) : List (List Char) := wordsFrom [] text

/-- A line up to its comment, without the white space around it. -/
def content (line : List Char) : List Char := trim (line.takeWhile (· ≠ '#'))

/-- The lines of a text that have content, with their numbers from 1 on. -/
def entries (text : List Char) : List (Nat × List Char) :=
  ((lines text).zipIdx 1).filterMap fun (line, number) =>
    let c := content line
    if c.isEmpty then none else some (number, c)

end Timeshare.Text
