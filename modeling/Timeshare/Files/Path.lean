namespace Timeshare.Path

/-!
# Paths

A path is a text: the names on the way to a file, with slashes between them.  A path that
starts with a slash says by itself where it leads; any other is looked up from a directory.
-/

/-- Whether a path says by itself where it leads. -/
def isAbsolute (path : String) : Bool := path.toList.head? == some '/'

/-- The path that leads to where `path` leads from the directory `base`.  Nothing is simplified,
    and a slash is put between the two unless `base` is empty or ends with one. -/
def join (base path : String) : String :=
  if isAbsolute path then path
  else if base.isEmpty || base.toList.getLast? == some '/' then base ++ path
  else base ++ "/" ++ path

/-- The names between the slashes of a path.  A slash at the end has the empty name after it. -/
def names (path : String) : List String := path.splitOn "/"

end Timeshare.Path
