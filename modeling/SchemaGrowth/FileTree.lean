import SchemaGrowth.Disk
import SchemaGrowth.Keyed

/-!
# File trees

Files and directories in memory. A file or directory is found by its place, the list of names from
the root to it; a path is walked name by name, and every name but the last has to be that of a
directory. Names and paths have a greatest length. `put` changes one place and no other, and
reading, writing and making directories are steps of a state, so that a tree serves as a `Disk`.
-/

namespace SchemaGrowth

/-- What stands at a place. -/
inductive Entry where
  | directory
  /-- A file with its text, if its contents are one. -/
  | file (contents : Option Text)
  deriving DecidableEq

/-- Files and directories by their places, and the directory in which relative paths start. -/
structure FileTree where
  entries : List (List Text × Entry)
  workingDirectory : List Text

namespace FileTree

/-! ## Places -/

/-- What stands at a place. The root is always a directory. -/
def get? (tree : FileTree) (place : List Text) : Option Entry :=
  if place = [] then some .directory else (Keyed.get? Prod.fst place tree.entries).map Prod.snd

/-- Puts an entry at a place. -/
def put (tree : FileTree) (place : List Text) (entry : Entry) : FileTree :=
  { tree with entries := Keyed.put Prod.fst (place, entry) tree.entries }

theorem get?_put_self {place : List Text} (h : place ≠ []) (tree : FileTree) (entry : Entry) :
    (tree.put place entry).get? place = some entry := by
  simp [get?, put, h, Keyed.get?_put_self Prod.fst (place, entry)]

theorem get?_put_ne {place other : List Text} (h : place ≠ other) (tree : FileTree)
    (entry : Entry) : (tree.put place entry).get? other = tree.get? other := by
  have hk : Keyed.get? Prod.fst other (Keyed.put Prod.fst (place, entry) tree.entries)
      = Keyed.get? Prod.fst other tree.entries :=
    Keyed.get?_put_ne h tree.entries
  simp [get?, put, hk]

/-! ## Lengths -/

/-- The number of bytes of a text. -/
def byteCount (t : Text) : Nat :=
  (t.map Char.utf8Size).foldl (· + ·) 0

/-- The most bytes that a name can have. -/
def nameLimit : Nat := 255

/-- The most bytes that a path can have. -/
def pathLimit : Nat := 4095

/-- Refuses a name that is too long. -/
def checkName (name : Text) : Except FileError Unit :=
  if nameLimit < byteCount name then .error .nameTooLong else .ok ()

/-- Refuses a path that is empty or too long. -/
def checkPath (path : Text) : Except FileError Unit :=
  if path = [] then .error .noSuchFile
  else if pathLimit < byteCount path then .error .nameTooLong
  else .ok ()

/-! ## Walks -/

/-- One name further from a directory. -/
def step (tree : FileTree) (place : List Text) (name : Text) : Except FileError (List Text) :=
  match tree.get? place with
  | none => .error .noSuchFile
  | some (.file _) => .error .notDirectory
  | some .directory =>
    if name = ['.'] then .ok place
    else if name = ['.', '.'] then .ok place.dropLast
    else do
      checkName name
      if (tree.get? (place ++ [name])).isSome then return place ++ [name] else throw .noSuchFile

/-- The place to which some names lead. -/
def walk (tree : FileTree) (place : List Text) : List Text → Except FileError (List Text)
  | [] => .ok place
  | name :: rest => do (tree.walk (← tree.step place name) rest)

/-- The place where the walk of a path starts. -/
def start (tree : FileTree) (path : Text) : List Text :=
  if Path.isAbsolute path then [] else tree.workingDirectory

/-- The place of a path that is there. A path that ends with a slash has to be a directory's. -/
def find (tree : FileTree) (path : Text) : Except FileError (List Text) := do
  checkPath path
  tree.walk (tree.start path)
    (Path.names path ++ if path.getLast? = some '/' then [['.']] else [])

/-- The directory in which the last name of a path stands, and that name. -/
def findParent (tree : FileTree) (path : Text) : Except FileError (List Text × Text) := do
  checkPath path
  let names := Path.names path
  let place ← tree.walk (tree.start path) (names.dropLast ++ [['.']])
  let name := names.getLast?.getD ['.']
  checkName name
  return (place, name)

/-- Whether a name stands for a directory without naming it. -/
def isRelativeName (name : Text) : Bool :=
  name == ['.'] || name == ['.', '.']

/-! ## Files and directories -/

/-- The text of a file. -/
def read (tree : FileTree) (path : Text) : Except FileError Text := do
  match tree.get? (← tree.find path) with
  | none => throw .noSuchFile
  | some .directory => throw .isDirectory
  | some (.file none) => throw .notText
  | some (.file (some contents)) => return contents

/-- The tree with a text written to a file. -/
def write (tree : FileTree) (path contents : Text) : Except FileError FileTree := do
  let (place, name) ← tree.findParent path
  if isRelativeName name || path.getLast? = some '/'
      || tree.get? (place ++ [name]) = some .directory then
    throw .isDirectory
  return tree.put (place ++ [name]) (.file (some contents))

/-- The tree with a new directory. -/
def makeDirectory (tree : FileTree) (path : Text) : Except FileError FileTree := do
  let (place, name) ← tree.findParent path
  if isRelativeName name || (tree.get? (place ++ [name])).isSome then throw .fileExists
  return tree.put (place ++ [name]) .directory

/-- Whether a path is that of a directory. -/
def isDirectory (tree : FileTree) (path : Text) : Bool :=
  match tree.find path with
  | .ok place => tree.get? place = some .directory
  | .error _ => false

/-! ## The disk -/

/-- Goes on with the tree that an action made, or stays with the old one if it failed. -/
def commit (act : FileTree → Except FileError FileTree) : StateM FileTree (Except FileError Unit) :=
  fun tree =>
    match act tree with
    | .ok after => (.ok (), after)
    | .error failure => (.error failure, tree)

/-- A tree as a disk. -/
def disk : Disk (StateM FileTree) where
  read path := fun tree => (tree.read path, tree)
  write path contents := commit (·.write path contents)
  makeDirectory path := commit (·.makeDirectory path)
  isDirectory path := fun tree => (tree.isDirectory path, tree)

end FileTree

end SchemaGrowth
