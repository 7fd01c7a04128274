import SchemaGrowth.Path

/-!
# Disks

What a program can do with files, and how it can fail. The monad is left open, so that one program
runs on the files of a machine and on a `FileTree`.
-/

namespace SchemaGrowth

/-- Why something could not be done with a file or directory. -/
inductive FileError where
  | noSuchFile
  | fileExists
  | notDirectory
  | isDirectory
  /-- A path, or a name in it, has too many bytes. -/
  | nameTooLong
  /-- The contents of the file are no text. -/
  | notText
  /-- Another reason, as the system tells it. -/
  | other (reason : Text)
  deriving DecidableEq

/-- What is said about a failure. -/
def FileError.message : FileError → Text
  | noSuchFile => "No such file or directory (os error 2)".toList
  | fileExists => "File exists (os error 17)".toList
  | notDirectory => "Not a directory (os error 20)".toList
  | isDirectory => "Is a directory (os error 21)".toList
  | nameTooLong => "File name too long (os error 36)".toList
  | notText => "stream did not contain valid UTF-8".toList
  | other reason => reason

/-- The use of files and directories by their paths. -/
structure Disk (m : Type → Type) where
  /-- The text of a file. -/
  read : Text → m (Except FileError Text)
  /-- Writes a text to a file, which need not exist. -/
  write : Text → Text → m (Except FileError Unit)
  /-- Makes a directory in one that exists. -/
  makeDirectory : Text → m (Except FileError Unit)
  /-- Whether there is a directory. -/
  isDirectory : Text → m Bool

namespace Disk

variable {m : Type → Type} [Monad m]

/-- Makes the directory of the first path if it is not there. The other paths are those of the
directories above it, from the nearest on, and they are made first where they are missing. -/
def makeAlong (disk : Disk m) : List Text → m (Except FileError Unit)
  | [] => return .ok ()
  | path :: above => do
    match ← disk.makeDirectory path with
    | .ok () => return .ok ()
    | .error .noSuchFile =>
      match ← disk.makeAlong above with
      | .error failure => return .error failure
      | .ok () => keepDirectory path (← disk.makeDirectory path)
    | .error failure => keepDirectory path (.error failure)
where
  /-- A directory that is there already is as good as one that was made. -/
  keepDirectory (path : Text) : Except FileError Unit → m (Except FileError Unit)
    | .ok () => return .ok ()
    | .error failure => return if ← disk.isDirectory path then .ok () else .error failure

/-- Makes a directory and those above it, as far as they are missing. -/
def makeDirectories (disk : Disk m) (path : Text) : m (Except FileError Unit) :=
  disk.makeAlong (Path.ancestors path)

end Disk

end SchemaGrowth
