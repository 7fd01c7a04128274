import SchemaGrowth.Text.Basic

/-!
# Paths

A path is a text whose names stand between slashes. Empty names and the name `.` lead nowhere; only
a `.` at the very start is kept where a path is shortened to the path of a directory above it.
-/

namespace SchemaGrowth.Path

/-- Whether a path starts at the root of the tree. -/
def isAbsolute (path : Text) : Bool :=
  path.head? = some '/'

/-- The names of a path that are not empty. -/
def names (path : Text) : List Text :=
  (path.splitOn '/').filter (· ≠ [])

/-- The names that count where a path is shortened. -/
def components (path : Text) : List Text :=
  match names path with
  | [] => []
  | first :: rest =>
    (if first = ['.'] ∧ isAbsolute path then [] else [first]) ++ rest.filter (· ≠ ['.'])

/-- The path itself and then the paths of the directories above it, from the nearest on. The
directory in which a relative path starts is not among them. -/
def ancestors (path : Text) : List Text :=
  let all := components path
  let root : Text := if isAbsolute path then ['/'] else []
  let above := (List.range all.length).reverse.map fun n => root ++ ['/'].intercalate (all.take n)
  path :: above.filter (· ≠ [])

/-- The path of a file in a directory. A slash at the end of the directory is not doubled. -/
def join (directory name : Text) : Text :=
  if directory = [] ∨ directory.getLast? = some '/' then directory ++ name
  else directory ++ '/' :: name

end SchemaGrowth.Path
