import Timeshare.Logged
import Timeshare.Machine.Memory
import Timeshare.Text.Line

namespace Timeshare

/-!
# Program images

An image says what words a program consists of and where it starts.  Its text has one pair of
numbers per line, an address and a content; the pair with the address -1 ends the program, and
its content is the entry point.

* `Image.ofText` reads a text, up to the end mark;
* `Image.load` puts an image into memory, all of it or nothing;
* `Catalog` finds the image of a program by name.
-/

/-- The words of a program with their addresses, and its entry point. -/
structure Image where
  words : List (Word × Word)
  entry : Word
  deriving DecidableEq, Repr

namespace Image

/-- The image of a program that is entered at its first word. -/
def contiguous (start : Word) (code : List Word) : Image where
  words := code.zipIdx.map fun (w, i) => (start + Int64.ofNat i, w)
  entry := start

/-- The two numbers on a line, if the line has nothing else. -/
def pair? (line : List Char) : Option (Word × Word) :=
  match Text.words line with
  | [address, content] =>
    match Text.readWord address, Text.readWord content with
    | .ok a, .ok c => some (a, c)
    | _, _ => none
  | _ => none

/-- The address that stands for the end of a program. -/
def endMark : Word := -1

/-- Reads numbered lines up to the end mark. -/
def ofEntries : List (Nat × List Char) → Attempt Image
  | [] => throw .noEndOfProgram
  | (number, line) :: rest => do
    match pair? line with
    | none =>
      Attempt.note (.badProgramLine number (String.ofList line))
      throw .fileOpen
    | some (address, content) =>
      if address = endMark then
        return ⟨[], content⟩
      else
        let image ← ofEntries rest
        return { image with words := (address, content) :: image.words }

/-- Reads the text of a program. -/
def ofText (text : String) : Attempt Image := ofEntries (Text.entries text.toList)

/-- The addresses of the words of a program, which have to lie in the area. -/
def resolve (area : Region) : List (Word × Word) → Attempt (List (Address × Word))
  | [] => return []
  | (address, content) :: rest => do
    if !area.contains address then
      Attempt.note (.wordOutside address)
      throw .invalidAddress
    let some a := Address.ofWord? address | throw .invalidAddress
    return (a, content) :: (← resolve area rest)

/-- Memory with words written in order. -/
def writeAll (m : Memory) (words : List (Address × Word)) : Memory :=
  words.foldl (fun m (a, w) => m.write a w) m

/-- Puts a program into the program area and returns its entry point.  Every address is looked
    at before anything is written. -/
def load (image : Image) (m : Memory) (layout : Layout) : Attempt (Address × Memory) := do
  let area := layout.userProgram
  let words ← resolve area image.words
  if !area.contains image.entry then
    Attempt.note (.entryOutside image.entry)
    throw .invalidPcValue
  let some entry := Address.ofWord? image.entry | throw .invalidPcValue
  Attempt.note (.imageLoaded image.words.length entry)
  return (entry, writeAll m words)

end Image

/-- Finds programs by name. -/
abbrev Catalog := String → Attempt Image

namespace Catalog

/-- A catalog of programs that are there from the start.  Of two programs of one name the later
    counts. -/
def ofList (programs : List (String × Image)) : Catalog := fun name =>
  match (programs.reverse.find? fun p => p.1 == name) with
  | some p => return p.2
  | none => do
    Attempt.note (.unknownProgram name)
    throw .fileOpen

/-- Finds a program and puts it into memory. -/
def load (c : Catalog) (name : String) (m : Memory) (layout : Layout) :
    Attempt (Address × Memory) := do
  let image ← c name
  image.load m layout

end Catalog

end Timeshare
