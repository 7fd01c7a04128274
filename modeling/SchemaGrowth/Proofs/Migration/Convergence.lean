import SchemaGrowth.Proofs.Dump.History
import SchemaGrowth.Proofs.Migration.Effect

/-!
# Migrating twice

Once a migration is carried out, another one to the same schema has nothing left to do:
`migration_converges`. There is one exception, a merged enumeration whose closing bracket is quoted
in the new definition. Its modifiers were cut out of a quoted part, and are squeezed once they stand
behind a bracket that is not quoted, so they may differ again.
-/

namespace SchemaGrowth

open Definition Enumeration

namespace Table

/-- A column that may still differ after a migration: an enumeration on both sides that was merged,
whose new definition has its closing bracket in quotes. -/
def Unsettled (current : Table) (wanted : Column) : Prop :=
  ∃ had merged, current.column? wanted.name = some had
    ∧ isEnum (canonical had.definition) = true ∧ isEnum (canonical wanted.definition) = true
    ∧ current.classify wanted
        = .ok (.revised ⟨current.name, ⟨wanted.name, Enumeration.definition merged⟩,
            canonical had.definition, canonical wanted.definition⟩)
    ∧ (canonical wanted.definition).count ')' = 1
    ∧ InQuotes ')' (canonical wanted.definition)

variable {current table : Table} {wanted : Column}

/-- A column that has taken what a migration set it to has nothing left to change. -/
theorem classify_rewritten {change : Change} (h : current.classify wanted = .ok change)
    (hname : table.name = current.name)
    (hcolumn : table.column? wanted.name
      = (current.rewritten? wanted).or (current.column? wanted.name)) :
    table.classify wanted = .ok .unchanged
    ∨ current.Unsettled wanted ∧ ∃ revision, table.classify wanted = .ok (.revised revision) := by
  rw [rewritten?_of_classify h] at hcolumn
  cases hhad : current.column? wanted.name with
  | none =>
    rw [classify_of_column?_eq_none hhad] at h
    obtain rfl := Except.ok.inj h
    left
    rw [classify, hcolumn]
    exact Change.between_of_equivalent (equivalent_refl _) _
  | some had =>
    have hclass := classify_of_column?_eq_some hhad
    have hcompare := Change.comparison_between current.name had wanted
    rw [← hclass, h] at hcompare
    -- Unless the column was merged, it has either kept a definition that was good enough or taken
    -- the new one as it stands.
    cases hcompare with
    | equivalent same =>
      left
      rw [classify_of_column?_eq_some (hcolumn.trans hhad), hname]
      exact hclass.symm.trans h
    | contained =>
      left
      rw [classify_of_column?_eq_some (hcolumn.trans hhad), hname]
      exact hclass.symm.trans h
    | plain differ noEnums =>
      left
      rw [classify, hcolumn]
      exact Change.between_of_equivalent (equivalent_refl _) _
    | @merged oldEnum newEnum merged differ oldIsEnum newIsEnum oldRead newRead merge =>
      have hbetween := Change.between_merged newIsEnum oldRead newRead merge table.name
      rw [classify_of_column?_eq_some hcolumn]
      rcases hbetween with hb | ⟨hq, hb⟩
      · exact .inl hb
      · exact .inr ⟨⟨had, merged, hhad, oldIsEnum, newIsEnum, h, count_of_ofDefinition? newRead, hq⟩,
          hb⟩

end Table

/-! ## Findings -/

/-- A plan of nothing but revisions. -/
theorem Plan.ofFindings_of_revisions {P : Revision → Prop}
    {findings : List (Except MigrationError (Option Step))}
    (h : ∀ finding ∈ findings,
      finding = .ok none ∨ ∃ revision, finding = .ok (some (.modify revision)) ∧ P revision) :
    ∃ revisions : List Revision,
      ofFindings findings = ⟨revisions.map .modify, none⟩ ∧ ∀ revision ∈ revisions, P revision := by
  induction findings with
  | nil => exact ⟨[], rfl, by simp⟩
  | cons finding rest ih =>
    obtain ⟨revisions, hrest, hall⟩ := ih fun f hf => h f (List.mem_cons_of_mem _ hf)
    rcases h finding (by simp) with rfl | ⟨revision, rfl, hp⟩
    · exact ⟨revisions, hrest, hall⟩
    · refine ⟨revision :: revisions, ?_, ?_⟩
      · rw [ofFindings, hrest]
        rfl
      · intro r hr
        rcases List.mem_cons.mp hr with rfl | hr
        · exact hp
        · exact hall r hr

namespace Schema

variable {old new : Schema}

/-- A column of a new schema that may still differ after a migration from an old one. -/
def Unsettled (old new : Schema) (tableName columnName : Text) : Prop :=
  ∃ table ∈ new.tables, ∃ wanted ∈ table.columns, ∃ current,
    table.name = tableName ∧ wanted.name = columnName ∧ old.table? tableName = some current
    ∧ current.Unsettled wanted

/-- A table of the old schema has, once it is grown, every column of the new one as it was set, and
its other columns as they were. -/
theorem column?_grown {table current : Table} (h : old.table? table.name = some current)
    (hn : table.columnNames.Nodup) {wanted : Column} (hw : wanted ∈ table.columns) :
    (old.grown table).column? wanted.name
      = (current.rewritten? wanted).or (current.column? wanted.name) := by
  rw [grown_of_table? h]
  exact Keyed.get?_foldl_put_filterMap (fun _ _ hr => Table.name_of_rewritten? hr) hn hw _

theorem name_grown {table current : Table} (h : old.table? table.name = some current) :
    (old.grown table).name = current.name := by
  rw [grown_of_table? h]

/-- A table has all of its own columns. -/
theorem classify_self {table : Table} (hn : table.columnNames.Nodup) {wanted : Column}
    (hw : wanted ∈ table.columns) : table.classify wanted = .ok .unchanged := by
  have hcolumn : table.column? wanted.name = some wanted := Keyed.get?_of_mem hn hw
  rw [Table.classify_of_column?_eq_some hcolumn]
  exact Change.between_of_equivalent (equivalent_refl _) _

/-- In the schema that a migration leaves behind, at most unsettled columns are found to differ. -/
theorem finding_upgraded (h : (Plan.between old new).failure = none)
    (hn : new.tableNames.Nodup) {table : Table} (ht : table ∈ new.tables)
    (hc : table.columnNames.Nodup) {finding : Except MigrationError (Option Step)}
    (hf : finding ∈ (old.upgraded new).findingsOf table) :
    finding = .ok none ∨ ∃ revision, finding = .ok (some (.modify revision))
      ∧ Unsettled old new revision.table revision.column.name := by
  rw [findingsOf, table?_upgraded h hn ht] at hf
  obtain ⟨wanted, hw, rfl⟩ := List.mem_map.mp hf
  cases hold : old.table? table.name with
  | none =>
    -- A created table is compared with itself.
    have hgrown : old.grown table = table := by
      rw [grown, hold]
    rw [hgrown, classify_self hc hw]
    exact .inl rfl
  | some current =>
    have hfound : (current.classify wanted).map (Step.ofChange? table.name) ∈ old.findings new := by
      refine List.mem_flatMap.mpr ⟨table, ht, ?_⟩
      rw [hold]
      exact List.mem_map_of_mem hw
    obtain ⟨step?, hstep⟩ := (Plan.of_failure_eq_none h).1 _ hfound
    cases hclass : current.classify wanted with
    | error failure => simp [hclass, Except.map] at hstep
    | ok change =>
      rcases Table.classify_rewritten hclass (name_grown hold) (column?_grown hold hc hw) with
        hagain | ⟨hunsettled, revision, hagain⟩
      · rw [hagain]
        exact .inl rfl
      · obtain ⟨htable, hcolumn⟩ := Table.revision_of_classify hagain
        have hname : revision.table = table.name :=
          htable.trans ((name_grown hold).trans (name_of_table? hold))
        rw [hagain]
        refine .inr ⟨revision, rfl, table, ht, wanted, hw, current, hname.symm, hcolumn.symm, ?_,
          hunsettled⟩
        rw [hname]
        exact hold

/-- The plan of a second migration revises unsettled columns at most. -/
theorem between_upgraded (h : (Plan.between old new).failure = none) (hn : new.tableNames.Nodup)
    (hc : ∀ table ∈ new.tables, table.columnNames.Nodup) :
    ∃ revisions : List Revision,
      Plan.between (old.upgraded new) new = ⟨revisions.map .modify, none⟩
      ∧ ∀ revision ∈ revisions, Unsettled old new revision.table revision.column.name := by
  refine Plan.ofFindings_of_revisions ?_
  intro finding hf
  obtain ⟨table, ht, hfinding⟩ := List.mem_flatMap.mp hf
  exact finding_upgraded h hn ht (hc table ht) hfinding

end Schema

/-! ## The statements of revisions -/

/-- The statement that makes a revision. -/
def Revision.text (revision : Revision) : Text :=
  "ALTER TABLE `".toList ++ revision.table ++ "` MODIFY `".toList ++ revision.column.name
    ++ "` ".toList ++ revision.column.definition ++ ";".toList

theorem Script.modifies_ofSteps (steps : List Step) :
    (ofSteps steps).modifies = (steps.filterMap Step.revision?).map Revision.text :=
  List.map_congr_left fun revision _ => Statement.text_modifyColumn revision.table revision.column

/-! ## Dumps -/

theorem Dump.migration_eq_ok {old new : Text} {script : Script} :
    Dump.migration old new = .ok script
      ↔ (Plan.between (Schema.ofDump old) (Schema.ofDump new)).failure = none
        ∧ script = Script.ofSteps (Plan.between (Schema.ofDump old) (Schema.ofDump new)).steps :=
  Plan.script_eq_ok

/-- **A migration converges.** Where there is a migration from one dump to another, there is one
again once its steps are carried out, each revision by setting the column to the definition that its
statement gives. The second migration adds no column and creates no table, and at most it revises
columns that are not settled; without any of these, it is empty. -/
theorem Dump.migration_converges {old new : Text} {script : Script}
    (h : Dump.migration old new = .ok script) :
    script.modifies = ((Plan.between (Schema.ofDump old) (Schema.ofDump new)).steps.filterMap
        Step.revision?).map Revision.text
    ∧ ∃ again,
      ((Schema.ofDump old).upgraded (Schema.ofDump new)).migration (Schema.ofDump new) = .ok again
      ∧ again.adds = [] ∧ again.creates = []
      ∧ (∃ revisions : List Revision, again = Script.ofSteps (revisions.map .modify)
          ∧ again.modifies = revisions.map Revision.text
          ∧ ∀ revision ∈ revisions, Schema.Unsettled (Schema.ofDump old) (Schema.ofDump new)
              revision.table revision.column.name)
      ∧ ((∀ table column,
            ¬ Schema.Unsettled (Schema.ofDump old) (Schema.ofDump new) table column) →
          again = ⟨[], [], [], []⟩) := by
  obtain ⟨hfail, rfl⟩ := Dump.migration_eq_ok.mp h
  obtain ⟨revisions, hplan, hall⟩ := Schema.between_upgraded hfail
    (Schema.nodup_tableNames_ofEvents _) fun _ ht => Schema.nodup_columnNames_ofEvents ht
  have hmodifies : (Script.ofSteps (revisions.map .modify)).modifies
      = revisions.map Revision.text := by
    rw [Script.modifies_ofSteps, List.filterMap_map]
    exact congrArg (List.map _) List.filterMap_some
  refine ⟨Script.modifies_ofSteps _, Script.ofSteps (revisions.map .modify), ?_, ?_, ?_,
    ⟨revisions, rfl, hmodifies, hall⟩, ?_⟩
  · rw [Schema.migration, hplan]
    rfl
  · simp [Script.ofSteps, Step.addText?]
  · simp [Script.ofSteps, Step.createText?]
  · intro hsettled
    have hnone : revisions = [] := by
      rw [List.eq_nil_iff_forall_not_mem]
      intro revision hr
      exact hsettled _ _ (hall revision hr)
    rw [hnone]
    rfl

/-- An old dump of a table. -/
def Dump.partsBefore : Text :=
  "CREATE TABLE `parts` (\n`kind` enum('nut')\n) ENGINE".toList

/-- A new dump with another value, another column and another table. -/
def Dump.partsAfter : Text :=
  "CREATE TABLE `parts` (\n`kind` enum('bolt'),\n`size` int\n) ENGINE\nCREATE TABLE `bins` (".toList

theorem Dump.migration_converges_parts :
    ∃ script again, Dump.migration partsBefore partsAfter = .ok script
      ∧ ((Schema.ofDump partsBefore).upgraded (Schema.ofDump partsAfter)).migration
          (Schema.ofDump partsAfter) = .ok again
      ∧ again.adds = [] ∧ again.creates = [] := by
  have hfail :
      (Plan.between (Schema.ofDump partsBefore) (Schema.ofDump partsAfter)).failure = none := by
    decide +kernel
  have hscript := Dump.migration_eq_ok.mpr ⟨hfail, rfl⟩
  obtain ⟨-, again, hagain, hadds, hcreates, -⟩ := Dump.migration_converges hscript
  exact ⟨_, again, hscript, hagain, hadds, hcreates⟩

/-- The exception is there: a bracket in quotes brings the same revision back again and again. -/
example :
    let old := Schema.ofDump "CREATE TABLE `t`\n`c` enum('a')".toList
    let new := Schema.ofDump "CREATE TABLE `t`\n`c` enum('b)c  d'".toList
    (Script.ofSteps (Plan.between (old.upgraded new) new).steps).modifies
      = ["ALTER TABLE `t` MODIFY `c` ENUM('a','b')c  d';".toList] := by
  decide +kernel

end SchemaGrowth
