import SchemaGrowth.Schema.Basic
import SchemaGrowth.Text.Blank
import SchemaGrowth.Text.Quoted

/-!
# The lines of a dump

A dump is read line by line, without a grammar: what a line says follows from a few words on it and
from the block in which it stands. `Place.read` gives what one line says and the place behind it.
The table of a block is part of its place, so no line counts for two tables.
-/

namespace SchemaGrowth

/-- The column that a line declares: the first identifier is its name, and the rest its definition,
without blanks around it and without one last comma. -/
def Column.ofLine? (line : Text) : Option Column :=
  line.identifier?.map fun name => ⟨name, line.afterIdentifier.trim.dropLastIf ','⟩

namespace Dump

/-- What a line says. -/
inductive Event where
  /-- The header of a `CREATE TABLE`: whatever was known of the table is forgotten. -/
  | created (table : Text)
  /-- The end of the body of a `CREATE TABLE`. -/
  | closed
  /-- The header of an `ALTER TABLE`. -/
  | alterOpened (table : Text)
  /-- A column in the body of a `CREATE TABLE`. -/
  | column (table : Text) (column : Column)
  /-- A line of an `ALTER TABLE` block, as written. -/
  | alterLine (table line : Text)
  /-- Nothing. -/
  | ignored
  deriving DecidableEq

/-- Where a reader stands between two lines. -/
inductive Place where
  /-- Outside every block. -/
  | outside
  /-- In the body of a `CREATE TABLE`. -/
  | body (table : Text)
  /-- In an `ALTER TABLE` block. -/
  | alteration (table : Text)
  deriving DecidableEq

/-- The words that make a line the header of a `CREATE TABLE`. -/
def createWords : Text := "CREATE TABLE ".toList

/-- The words that make a line the header of an `ALTER TABLE`. -/
def alterWords : Text := "ALTER TABLE".toList

/-- The words that end the body of a `CREATE TABLE`. -/
def bodyEndWords : Text := ") ENGINE".toList

/-- Whether a line is the last one of a statement. -/
def endsStatement (line : Text) : Bool :=
  line.trim.getLast? = some ';'

namespace Place

/-- Whether the place is in the body of a `CREATE TABLE`. -/
def isBody : Place → Bool
  | body _ => true
  | _ => false

/-- What a line says that is no header and no end of a body, and the place behind it. -/
def readInside (place : Place) (line : Text) : Event × Place :=
  match place with
  | outside => (.ignored, place)
  | body table =>
    match Column.ofLine? line with
    | some column => (.column table column, place)
    | none => (.ignored, place)
  | alteration table =>
    (.alterLine table line, if endsStatement line then outside else place)

/-- What a line says and the place behind it. A header counts wherever it stands. One that names no
table is ignored, but a `CREATE TABLE` still ends the block before it. -/
def read (place : Place) (line : Text) : Event × Place :=
  if line.hasWord createWords then
    match line.identifier? with
    | some table => (.created table, body table)
    | none => (.ignored, outside)
  else if place.isBody && line.hasWord bodyEndWords then (.closed, outside)
  else if line.hasWord alterWords then
    match line.identifier? with
    | some table => (.alterOpened table, alteration table)
    | none => (.ignored, place)
  else place.readInside line

/-- What each of the lines says, with the place behind it. -/
def readAll : Place → List Text → List (Event × Place)
  | _, [] => []
  | place, line :: rest =>
    let reading := place.read line
    reading :: reading.2.readAll rest

/-- What the lines say. -/
def events (place : Place) (lines : List Text) : List Event :=
  (place.readAll lines).map Prod.fst

/-- The place behind the lines. -/
def behind (place : Place) (lines : List Text) : Place :=
  lines.foldl (fun p line => (p.read line).2) place

@[simp] theorem events_nil (place : Place) : place.events [] = [] := rfl

@[simp] theorem events_cons (place : Place) (line : Text) (rest : List Text) :
    place.events (line :: rest) = (place.read line).1 :: (place.read line).2.events rest := rfl

@[simp] theorem behind_nil (place : Place) : place.behind [] = place := rfl

@[simp] theorem behind_cons (place : Place) (line : Text) (rest : List Text) :
    place.behind (line :: rest) = (place.read line).2.behind rest := rfl

/-- Of lines in two parts, the second is read from the place behind the first. -/
theorem events_append (place : Place) (first second : List Text) :
    place.events (first ++ second)
      = place.events first ++ (place.behind first).events second := by
  induction first generalizing place with
  | nil => rfl
  | cons line rest ih => simp [ih]

theorem behind_append (place : Place) (first second : List Text) :
    place.behind (first ++ second) = (place.behind first).behind second := by
  simp [behind]

end Place

end Dump

end SchemaGrowth
