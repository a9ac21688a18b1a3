import Timeshare.Files.Path
import Timeshare.Program.Image

namespace Timeshare

/-!
# Files

What the kernel needs of a file system is the text of a file, or the reason why there is none.

* `FileSource` is anything that gives one of the two for each path;
* `FileSource.catalog` finds programs in the files below a directory.
-/

/-- Why the text of a file could not be read. -/
inductive FileError where
  /-- A name on the way stands for nothing. -/
  | notFound
  /-- A name on the way stands for a file, but something is looked up in it. -/
  | notADirectory
  /-- The path leads to a directory. -/
  | isADirectory
  /-- A name, or the whole path, is longer than a file system admits. -/
  | nameTooLong
  /-- The path has the character with the code 0, which no name may have. -/
  | nulInPath
  /-- The bytes of the file are no UTF-8. -/
  | notText
  /-- Something else, in the words and with the number of the operating system. -/
  | other (description : String) (number : Nat)
  deriving DecidableEq, Repr

/-- The error in words. -/
def FileError.message : FileError → String
  | notFound => "No such file or directory (os error 2)"
  | notADirectory => "Not a directory (os error 20)"
  | isADirectory => "Is a directory (os error 21)"
  | nameTooLong => "File name too long (os error 36)"
  | nulInPath => "file name contained an unexpected NUL byte"
  | notText => "stream did not contain valid UTF-8"
  | other description number => s!"{description} (os error {number})"

/-- Gives the text of the file at a path, or the reason why there is none. -/
abbrev FileSource := String → Except FileError String

namespace FileSource

/-- The files that are listed with what they hold. -/
def ofList (files : List (String × Except FileError String)) : FileSource := fun path =>
  (files.lookup path).getD (.error .notFound)

/-- Finds the program whose file has a given path below the directory `root`. -/
def catalog (files : FileSource) (root : String) : Catalog := fun program => do
  let path := Path.join root program
  match files path with
  | .error error =>
    Attempt.note (.unreadableFile path error.message)
    throw .fileOpen
  | .ok text =>
    Attempt.note (.fileRead path text.utf8ByteSize)
    Image.ofText text

end FileSource

end Timeshare
