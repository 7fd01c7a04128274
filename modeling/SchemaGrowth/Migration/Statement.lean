import SchemaGrowth.Dump.Line

/-!
# Statements

The statements that a migration is made of, as text. Every name stands as an identifier, and every
definition as it was written.
-/

namespace SchemaGrowth

/-- A column as it is declared. -/
def Column.declaration (column : Column) : Text :=
  column.name.identifier ++ [' '] ++ column.definition

/-- A statement that makes a schema grow. -/
inductive Statement where
  /-- Adds a column, directly behind another one if that is named. -/
  | addColumn (table : Text) (column : Column) (behind : Option Text)
  /-- Gives a column a new definition. -/
  | modifyColumn (table : Text) (column : Column)
  /-- Creates a table, and takes it through its `ALTER TABLE` blocks. -/
  | createTable (table : Table)
  deriving DecidableEq

namespace Statement

/-- The header of an `ALTER TABLE` statement. -/
def alterHeader (table : Text) : Text :=
  "ALTER TABLE ".toList ++ table.identifier

/-- Lines as `ALTER TABLE` blocks, each line with its end. A block starts with its header, and a
line that ends a statement ends the block. The first line continues a block if `inBlock` says
so. -/
def alterBlocks (table : Text) : Bool → List Text → Text
  | _, [] => []
  | inBlock, line :: rest =>
    (if inBlock then [] else alterHeader table ++ ['\n'])
      ++ (line ++ '\n' :: alterBlocks table (!Dump.endsStatement line) rest)

/-- The text of a statement. That of a new table starts with an empty line. -/
def text : Statement → Text
  | addColumn table column behind =>
    alterHeader table ++ " ADD ".toList ++ column.declaration
      ++ (match behind with
          | some name => " AFTER ".toList ++ name.identifier
          | none => [])
      ++ [';']
  | modifyColumn table column =>
    alterHeader table ++ " MODIFY ".toList ++ column.declaration ++ [';']
  | createTable table =>
    "\nCREATE TABLE ".toList ++ table.name.identifier ++ " (\n".toList
      ++ ",\n".toList.intercalate (table.columns.map fun c => "  ".toList ++ c.declaration)
      ++ "\n);".toList
      ++ (if table.alterLines.isEmpty then []
          else '\n' :: alterBlocks table.name false table.alterLines)

/-- The common start of the statements that set a column, each with its `verb`. -/
theorem alterHeader_declaration (table verb : Text) (column : Column) :
    alterHeader table ++ verb ++ column.declaration
      = "ALTER TABLE `".toList ++ table ++ (identifierMark :: verb ++ [identifierMark])
        ++ column.name ++ "` ".toList ++ column.definition := by
  have hstart : "ALTER TABLE `".toList = "ALTER TABLE ".toList ++ [identifierMark] := by decide
  have hname : "` ".toList = [identifierMark, ' '] := by decide
  rw [hstart, hname]
  change "ALTER TABLE ".toList ++ table.identifier ++ verb
    ++ (column.name.identifier ++ [' '] ++ column.definition) = _
  simp [Text.identifier, Text.quoted]

theorem text_addColumn (table : Text) (column : Column) (behind : Option Text) :
    (addColumn table column behind).text
      = "ALTER TABLE `".toList ++ table ++ "` ADD `".toList ++ column.name ++ "` ".toList
        ++ column.definition
        ++ (match behind with
            | some anchor => " AFTER `".toList ++ anchor ++ "`".toList
            | none => [])
        ++ ";".toList := by
  have hverb : "` ADD `".toList = identifierMark :: " ADD ".toList ++ [identifierMark] := by decide
  have hend : ";".toList = [';'] := by decide
  have hbehind : ∀ anchor : Text,
      " AFTER `".toList ++ anchor ++ "`".toList = " AFTER ".toList ++ anchor.identifier := by
    intro anchor
    have hopen : " AFTER `".toList = " AFTER ".toList ++ [identifierMark] := by decide
    have hclose : "`".toList = [identifierMark] := by decide
    rw [hopen, hclose, List.append_assoc, List.append_assoc]
    rfl
  rw [hverb, ← alterHeader_declaration, hend]
  simp only [hbehind]
  rfl

theorem text_modifyColumn (table : Text) (column : Column) :
    (modifyColumn table column).text
      = "ALTER TABLE `".toList ++ table ++ "` MODIFY `".toList ++ column.name ++ "` ".toList
        ++ column.definition ++ ";".toList := by
  have hverb : "` MODIFY `".toList = identifierMark :: " MODIFY ".toList ++ [identifierMark] := by
    decide
  have hend : ";".toList = [';'] := by decide
  rw [hverb, ← alterHeader_declaration, hend]
  rfl

end Statement

end SchemaGrowth
