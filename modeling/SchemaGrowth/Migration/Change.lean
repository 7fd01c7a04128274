import SchemaGrowth.Definition.Canonical
import SchemaGrowth.Definition.Enumeration
import SchemaGrowth.Migration.Statement

/-!
# Changes of columns

What a column of a new schema changes in the table of the old one: it is added, or its definition is
revised, or it stays. An enumeration is revised by merging, so that it keeps its values; the one way
to fail is an enumeration that cannot be read.
-/

namespace SchemaGrowth

/-! ## Failure -/

/-- Why no migration can be given. -/
inductive MigrationError where
  /-- The definition of an enumeration that changes cannot be read. -/
  | malformedEnum (table column definition : Text)
  deriving DecidableEq

/-- What is said about a failure. -/
def MigrationError.message : MigrationError → Text
  | malformedEnum table column definition =>
    "Cannot parse ENUM for column ".toList ++ (table ++ '.' :: column).literal
      ++ ": ".toList ++ definition

/-! ## Revisions -/

/-- A change of the definition of a column. -/
structure Revision where
  table : Text
  /-- The column with the definition that it is to take. -/
  column : Column
  /-- The canonical form of the old definition. -/
  before : Text
  /-- The canonical form of the new definition. -/
  after : Text
  deriving DecidableEq

namespace Revision

/-- What stands in a statement behind the first `ENUM` and before a second one. -/
def enumPart? (statement : Text) : Option Text :=
  (statement.afterWord? "ENUM".toList).map (·.beforeWord "ENUM".toList)

/-- The account of a changed column: its definitions before and after, in lowercase, and the
enumeration of the statement that changes it, if there is one. -/
def accountOf (table column before after statement : Text) : Text :=
  "=== ".toList ++ table ++ " -> ".toList ++ column ++ " ===\nBEFORE: ".toList
    ++ before.lowercase ++ "\nAFTER:  ".toList ++ after.lowercase ++ ['\n']
    ++ (match enumPart? statement with
        | none | some [] => []
        | some part => "MODIFY: ENUM".toList ++ part ++ ['\n'])

/-- The statement that makes the change. -/
def statement (revision : Revision) : Statement :=
  .modifyColumn revision.table revision.column

/-- The account of the change. -/
def account (revision : Revision) : Text :=
  accountOf revision.table revision.column.name revision.before revision.after
    revision.statement.text

end Revision

/-! ## Classification -/

/-- What a column of a new schema changes. -/
inductive Change where
  | unchanged
  /-- The column is new, and comes behind the last column of the table if it has one. -/
  | added (column : Column) (behind : Option Text)
  | revised (revision : Revision)
  deriving DecidableEq

namespace Change

/-- The enumeration of a definition, for a column that needs one. -/
def readEnum (table column definition : Text) : Except MigrationError Enumeration :=
  match Enumeration.ofDefinition? definition with
  | some enumeration => .ok enumeration
  | none => .error (.malformedEnum table column definition)

/-- What becomes of an enumeration whose definition is to change. Of two definitions that cannot be
read, the failure names the old one. -/
def mergeEnums (table column old new : Text) : Except MigrationError (Option Enumeration) := do
  let oldEnum ← readEnum table column old
  let newEnum ← readEnum table column new
  return oldEnum.merge? newEnum

/-- The change of a column that is there already, from its old definition to its new one. -/
def between (table : Text) (old new : Column) : Except MigrationError Change :=
  let before := Definition.canonical old.definition
  let after := Definition.canonical new.definition
  if Definition.equivalent old.definition new.definition then .ok .unchanged
  else if Enumeration.isEnum before && Enumeration.isEnum after then do
    match ← mergeEnums table new.name before after with
    | none => return .unchanged
    | some merged => return .revised ⟨table, ⟨new.name, merged.definition⟩, before, after⟩
  else .ok (.revised ⟨table, new, before, after⟩)

theorem readEnum_ok {table column definition : Text} {enumeration : Enumeration} :
    readEnum table column definition = .ok enumeration
      ↔ Enumeration.ofDefinition? definition = some enumeration := by
  unfold readEnum
  cases Enumeration.ofDefinition? definition <;> simp

theorem mergeEnums_ok {old new : Text} {oldEnum newEnum : Enumeration}
    (ho : Enumeration.ofDefinition? old = some oldEnum)
    (hn : Enumeration.ofDefinition? new = some newEnum) (table column : Text) :
    mergeEnums table column old new = .ok (oldEnum.merge? newEnum) := by
  rw [mergeEnums, readEnum_ok.mpr ho, readEnum_ok.mpr hn]
  rfl

/-- An equivalent definition changes nothing, even one of an enumeration that cannot be read. -/
theorem between_of_equivalent {old new : Column}
    (h : Definition.equivalent old.definition new.definition = true) (table : Text) :
    between table old new = .ok .unchanged := by
  simp [between, h]

end Change

/-- What a column of the new schema changes in a table of the old one. -/
def Table.classify (table : Table) (column : Column) : Except MigrationError Change :=
  match table.column? column.name with
  | none => .ok (.added column table.lastColumn?)
  | some old => Change.between table.name old column

theorem Table.classify_of_column?_eq_none {table : Table} {column : Column}
    (h : table.column? column.name = none) :
    table.classify column = .ok (.added column table.lastColumn?) := by
  simp [Table.classify, h]

end SchemaGrowth
