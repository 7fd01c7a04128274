import SchemaGrowth.Disk
import SchemaGrowth.Migration.Script
import SchemaGrowth.Text.Visible

/-!
# Notices

What a command tells about its work, one line each, and how it says why it failed. Details are told
only where they are asked for. A message is told as a visible text; the names that follow it and all
that is said about a failure are told as they stand.
-/

namespace SchemaGrowth.CommandLine

/-- Something to tell about the work of a command. -/
inductive Notice where
  /-- A line was passed over because its table is not declared. -/
  | undeclared (table : Text)
  /-- A dump was read. -/
  | parsed (tables : Nat)
  /-- A step of the migration was found. -/
  | found (step : Step)
  /-- The numbers of statements of each kind. -/
  | counted (creates adds modifies : Nat)
  /-- No file is written. -/
  | dryRun
  /-- A file was written. -/
  | wrote (path : Text)
  deriving DecidableEq

namespace Notice

/-- Whether a notice is a detail. -/
def isDetail : Notice → Bool
  | undeclared _ | parsed _ | found _ => true
  | counted .. | dryRun | wrote _ => false

/-- What a notice says. -/
def message : Notice → Text
  | undeclared _ => "dropping alter line for undeclared table".toList
  | parsed _ => "parsed schema".toList
  | found (.create _) => "new table".toList
  | found (.add ..) => "new column".toList
  | found (.modify _) => "modified column".toList
  | counted creates adds modifies =>
    Text.decimal creates ++ " new tables, ".toList ++ Text.decimal adds ++ " new columns, ".toList
      ++ Text.decimal modifies ++ " modified columns".toList
  | dryRun => "Dry run mode - no files written.".toList
  | wrote path => "Wrote ".toList ++ path

/-- A column of a table, each under its label. -/
def columnOf (table column : Text) : List (Text × Text) :=
  [("table".toList, table), ("column".toList, column)]

/-- What a notice is about, each thing under its label. -/
def subjects : Notice → List (Text × Text)
  | undeclared table => [("table".toList, table)]
  | parsed tables => [("tables".toList, Text.decimal tables)]
  | found (.create table) => [("table".toList, table.name)]
  | found (.add table column _) => columnOf table column.name
  | found (.modify revision) => columnOf revision.table revision.column.name
  | counted .. | dryRun | wrote _ => []

/-- What is told of a thing. -/
def subjectText (subject : Text × Text) : Text :=
  ' ' :: subject.1 ++ '=' :: subject.2

/-- The line of a notice: its level in five characters, its message as a visible text, and what it
is about, as it stands. -/
def line (notice : Notice) : Text :=
  (if notice.isDetail then "DEBUG ".toList else " INFO ".toList) ++ notice.message.visible
    ++ notice.subjects.flatMap subjectText ++ ['\n']

/-- The lines of some notices, the details among them only if they are asked for. -/
def lines (verbose : Bool) (notices : List Notice) : Text :=
  (notices.filter fun notice => verbose || !notice.isDetail).flatMap line

end Notice

/-- Why a command failed. -/
inductive Failure where
  /-- A dump cannot be read. -/
  | unreadable (path : Text) (cause : FileError)
  /-- There is no migration. -/
  | migration (error : MigrationError)
  /-- A file or directory cannot be written. -/
  | unwritable (path : Text) (cause : FileError)
  deriving DecidableEq

namespace Failure

/-- What is said first. -/
def message : Failure → Text
  | unreadable path _ => "Failed to read ".toList ++ path
  | migration error => error.message
  | unwritable path cause =>
    "IO error on ".toList ++ path.literal ++ ": ".toList ++ cause.message

/-- The cause that is named apart. -/
def cause? : Failure → Option FileError
  | unreadable _ cause | unwritable _ cause => some cause
  | migration _ => none

/-- All that is said about a failure. -/
def text (failure : Failure) : Text :=
  "Error: ".toList ++ failure.message ++ ['\n']
    ++ (match failure.cause? with
        | some cause => "\nCaused by:\n    ".toList ++ cause.message ++ ['\n']
        | none => [])

end Failure

end SchemaGrowth.CommandLine
