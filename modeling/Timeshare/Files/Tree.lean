import Timeshare.Files.Source

namespace Timeshare

/-!
# Directory trees

A `FileTree` holds files in directories, the current directory at its root.  A path leads through
it name by name, where `.` and the empty name mean the directory itself and `..` the one above.
Nothing is known of what lies above the root but that there are directories.

* `FileTree.insert` puts something at the end of a path and makes the directories on the way;
* `FileTree.read` is the `FileSource` of a tree.
-/

/-- What a name in a directory stands for. -/
inductive FileContent where
  | file (bytes : ByteArray)
  | directory

/-- Files and directories, each with the names on the way to it from the root. -/
structure FileTree where
  entries : List (List String × FileContent)

namespace FileTree

/-- The tree in which there is nothing but the root. -/
def empty : FileTree := ⟨[]⟩

/-- What is at the end of a way from the root.  Of two entries for one way the later counts. -/
def at? (t : FileTree) (way : List String) : Option FileContent :=
  if way.isEmpty then some .directory else (t.entries.reverse.find? (·.1 == way)).map (·.2)

/-- A place that a path has led to. -/
inductive Place where
  /-- The end of a way from the root. -/
  | inside (way : List String)
  /-- A directory that is not in the tree. -/
  | outside

/-- The place where the steps of a path start. -/
def start (path : String) : Place := if Path.isAbsolute path then .outside else .inside []

/-- The directory above a place. -/
def parent : Place → Place
  | .inside (name :: way) => .inside (name :: way).dropLast
  | .inside [] | .outside => .outside

/-! ### Making entries -/

/-- A tree with something at a place; what is not in the tree stays as it is. -/
def put (t : FileTree) (place : Place) (content : FileContent) : FileTree :=
  match place with
  | .inside [] | .outside => t
  | .inside way => ⟨t.entries ++ [(way, content)]⟩

/-- Follows one name of a path, and makes a directory where the name stands for nothing. -/
def makeStep (reached : FileTree × Place) (name : String) : FileTree × Place :=
  let (t, place) := reached
  match name, place with
  | "", _ | ".", _ => (t, place)
  | "..", _ => (t, parent place)
  | _, .outside => (t, .outside)
  | name, .inside way =>
    let way := way ++ [name]
    (if (t.at? way).isSome then t else t.put (.inside way) .directory, .inside way)

/-- A tree with something at the end of a path, and with the directories on the way. -/
def insert (t : FileTree) (path : String) (content : FileContent) : FileTree :=
  let (t, place) := (Path.names path).foldl makeStep (t, start path)
  t.put place content

/-! ### Reading files -/

/-- Looks a name up in a directory. -/
def child (t : FileTree) (place : Place) (name : String) : Except FileError Place :=
  if name.utf8ByteSize > 255 then
    .error .nameTooLong
  else
    match place with
    | .inside way =>
      let way := way ++ [name]
      if (t.at? way).isSome then .ok (.inside way) else .error .notFound
    | .outside => .error .notFound

/-- Follows one name of a path. -/
def step (t : FileTree) (place : Place) (name : String) : Except FileError Place :=
  match place with
  | .outside => go
  | .inside way =>
    match t.at? way with
    | some .directory => go
    | _ => .error .notADirectory
where
  /-- Follows a name from a directory. -/
  go : Except FileError Place :=
    match name with
    | "" | "." => .ok place
    | ".." => .ok (parent place)
    | name => child t place name

/-- The bytes of the file at a path. -/
def bytes (t : FileTree) (path : String) : Except FileError ByteArray := do
  if path.toList.contains (Char.ofNat 0) then
    throw .nulInPath
  if path.isEmpty then
    throw .notFound
  if path.utf8ByteSize > 4095 then
    throw .nameTooLong
  match ← (Path.names path).foldlM t.step (start path) with
  | .outside => throw .isADirectory
  | .inside way =>
    match t.at? way with
    | some (.file bytes) => return bytes
    | some .directory => throw .isADirectory
    | none => throw .notFound

/-- The text of the file at a path. -/
def read (t : FileTree) : FileSource := fun path => do
  let bytes ← t.bytes path
  match String.fromUTF8? bytes with
  | some text => return text
  | none => throw .notText

end FileTree

end Timeshare
