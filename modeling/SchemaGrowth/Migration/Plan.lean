import SchemaGrowth.Migration.Change

/-!
# Plans

The steps that take one schema to another. A table that is missing is created whole, a column that
is missing is added, a column that differs is revised, and nothing is taken away. A plan fails at
the first column that cannot be classified; the steps before it are kept only to tell how far it
came.
-/

namespace SchemaGrowth

/-- A step of a migration. -/
inductive Step where
  | create (table : Table)
  | add (table : Text) (column : Column) (behind : Option Text)
  | modify (revision : Revision)
  deriving DecidableEq

namespace Step

/-- The step that a change of a column asks for. -/
def ofChange? (table : Text) : Change → Option Step
  | .unchanged => none
  | .added column behind => some (.add table column behind)
  | .revised revision => some (.modify revision)

end Step

/-- What is found, table by table and column by column, where a new schema is compared with an old
one: a step, or nothing to do, or a failure. -/
def Schema.findings (old new : Schema) : List (Except MigrationError (Option Step)) :=
  new.tables.flatMap fun table =>
    match old.table? table.name with
    | none => [.ok (some (.create table))]
    | some current =>
      table.columns.map fun column => (current.classify column).map (Step.ofChange? table.name)

/-- Steps in their order, and the failure that ended the search for more, if there was one. -/
structure Plan where
  steps : List Step
  failure : Option MigrationError
  deriving DecidableEq

namespace Plan

/-- The plan of some findings. -/
def ofFindings : List (Except MigrationError (Option Step)) → Plan
  | [] => ⟨[], none⟩
  | .error failure :: _ => ⟨[], some failure⟩
  | .ok none :: rest => ofFindings rest
  | .ok (some step) :: rest =>
    let plan := ofFindings rest
    { plan with steps := step :: plan.steps }

/-- The plan that takes an old schema to a new one. -/
def between (old new : Schema) : Plan :=
  ofFindings (old.findings new)

/-- Without a failure, a plan has all the steps that were found. -/
theorem ofFindings_map_ok (found : List (Option Step)) :
    ofFindings (found.map .ok) = ⟨found.filterMap id, none⟩ := by
  induction found with
  | nil => rfl
  | cons step? rest ih =>
    cases step? with
    | none => simpa [ofFindings] using ih
    | some step => simp [ofFindings, ih]

end Plan

end SchemaGrowth
