import SchemaGrowth.Dump.Reading
import SchemaGrowth.Migration.Plan

/-!
# Scripts

A script is a migration as text: the statements of its steps sorted by their kind, each kind in the
order of the steps, with an account of every revision. `Script.artifacts` are the files that hold a
script, and `Script.report` is what is shown of it.
-/

namespace SchemaGrowth

/-- The statements of a migration by their kind, and the accounts of its revisions. -/
structure Script where
  adds : List Text
  modifies : List Text
  creates : List Text
  comparisons : List Text
  deriving DecidableEq

namespace Step

/-- The text of a step that adds a column. -/
def addText? : Step → Option Text
  | add table column behind => some (Statement.addColumn table column behind).text
  | _ => none

/-- The text of a step that creates a table. -/
def createText? : Step → Option Text
  | create table => some (Statement.createTable table).text
  | _ => none

/-- The revision of a step that revises a column. -/
def revision? : Step → Option Revision
  | modify revision => some revision
  | _ => none

end Step

namespace Script

/-- The script of some steps. -/
def ofSteps (steps : List Step) : Script :=
  let revisions := steps.filterMap Step.revision?
  { adds := steps.filterMap Step.addText?
    modifies := revisions.map (·.statement.text)
    creates := steps.filterMap Step.createText?
    comparisons := revisions.map Revision.account }

/-- Whether the script has no statement. -/
def isEmpty (script : Script) : Bool :=
  script.adds.isEmpty && script.modifies.isEmpty && script.creates.isEmpty

/-- Texts one below the other. -/
def stack (texts : List Text) : Text :=
  ['\n'].intercalate texts

/-- What is shown of a script: the statements that add and those that modify columns. -/
def report (script : Script) : Text :=
  stack
    ([[], "--- ALTER STATEMENTS ---".toList] ++ script.adds
      ++ [[], "--- MODIFY STATEMENTS ---".toList] ++ script.modifies ++ [[]])

/-- The statements that create tables, one below the other. -/
def createText (script : Script) : Text :=
  stack script.creates

/-- The files of a script in the order in which they are written, each with its contents. -/
def artifacts (script : Script) : List (Text × Text) :=
  [ ("alter_statements.sql".toList, stack script.adds),
    ("create_statements.sql".toList, script.createText),
    ("modify_statements.sql".toList, stack script.modifies),
    ("modify_statements_debug.txt".toList, stack script.comparisons) ]

end Script

/-- The script of a plan that did not fail. -/
def Plan.script (plan : Plan) : Except MigrationError Script :=
  match plan.failure with
  | some failure => .error failure
  | none => .ok (Script.ofSteps plan.steps)

/-- The script that takes an old schema to a new one. -/
def Schema.migration (old new : Schema) : Except MigrationError Script :=
  (Plan.between old new).script

/-- The script that takes the schema of an old dump to that of a new one. -/
def Dump.migration (old new : Text) : Except MigrationError Script :=
  (Schema.ofDump old).migration (Schema.ofDump new)

end SchemaGrowth
