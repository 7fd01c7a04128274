import Mathlib.Data.List.Nodup
import SchemaGrowth.Migration.Script
import SchemaGrowth.Proofs.Dump.History
import SchemaGrowth.Proofs.Migration.Comparison

/-!
# What a migration does to a schema

A step is carried out on a schema by inserting a table or setting a column of one. Steps of one
table leave every other table alone, so the table that a migration leaves behind follows from its
own steps: `table?_upgraded` gives it for a table that is created, and for one that was
there already.
-/

namespace SchemaGrowth

/-! ## Steps -/

/-- The table that a step changes or creates. -/
def Step.target : Step → Text
  | create table => table.name
  | add table _ _ => table
  | modify revision => revision.table

/-- The column that a step sets in a table that is there. -/
def Step.written? : Step → Option Column
  | create _ => none
  | add _ column _ => some column
  | modify revision => some revision.column

/-- The column that a change sets. -/
def Change.written? : Change → Option Column
  | unchanged => none
  | added column _ => some column
  | revised revision => some revision.column

namespace Schema

/-- The schema after a step. -/
def carryOut (schema : Schema) : Step → Schema
  | .create table => schema.insert table
  | .add table column _ => schema.modify table (·.setColumn column)
  | .modify revision => schema.modify revision.table (·.setColumn revision.column)

/-- The schema after some steps. -/
def migrated (schema : Schema) (steps : List Step) : Schema :=
  steps.foldl carryOut schema

/-- The schema that the migration to a new schema leaves behind. -/
def upgraded (old new : Schema) : Schema :=
  old.migrated (Plan.between old new).steps

theorem migrated_append (schema : Schema) (first second : List Step) :
    schema.migrated (first ++ second) = (schema.migrated first).migrated second := by
  simp [migrated]

theorem table?_carryOut_ne {step : Step} {name : Text} (h : step.target ≠ name)
    (schema : Schema) : (schema.carryOut step).table? name = schema.table? name := by
  cases step with
  | create table => exact table?_insert_ne h schema
  | add table column behind => exact table?_modify_ne (fun t => t.name_setColumn column) h schema
  | modify revision => exact table?_modify_ne (fun t => t.name_setColumn revision.column) h schema

/-- Steps of other tables leave a table alone. -/
theorem table?_migrated_ne {steps : List Step} {name : Text}
    (h : ∀ step ∈ steps, step.target ≠ name) (schema : Schema) :
    (schema.migrated steps).table? name = schema.table? name := by
  induction steps generalizing schema with
  | nil => rfl
  | cons step rest ih =>
    rw [migrated, List.foldl_cons, ← migrated, ih fun s hs => h s (List.mem_cons_of_mem _ hs),
      table?_carryOut_ne (h step (by simp))]

/-- Steps that only set columns of one table set them there. -/
theorem table?_migrated_self {steps : List Step} {name : Text}
    (h : ∀ step ∈ steps, step.target = name ∧ step.written?.isSome) (schema : Schema) :
    (schema.migrated steps).table? name
      = (schema.table? name).map fun t => (steps.filterMap Step.written?).foldl Table.setColumn t := by
  induction steps generalizing schema with
  | nil => simp [migrated]
  | cons step rest ih =>
    obtain ⟨ht, hw⟩ := h step (by simp)
    have hrest := ih (fun s hs => h s (List.mem_cons_of_mem _ hs)) (schema.carryOut step)
    rw [migrated, List.foldl_cons, ← migrated, hrest]
    cases step with
    | create table => simp [Step.written?] at hw
    | add table column behind =>
      obtain rfl : table = name := ht
      rw [carryOut, table?_modify_self (fun t => t.name_setColumn column), Option.map_map]
      rfl
    | modify revision =>
      obtain rfl : revision.table = name := ht
      rw [carryOut, table?_modify_self (fun t => t.name_setColumn revision.column), Option.map_map]
      rfl

end Schema

/-! ## Columns that are set -/

namespace Keyed

theorem map_filterMap_sublist {α κ : Type} {key : α → κ} {f : α → Option α}
    (hf : ∀ x y, f x = some y → key y = key x) (xs : List α) :
    ((xs.filterMap f).map key).Sublist (xs.map key) := by
  induction xs with
  | nil => simp
  | cons x rest ih =>
    cases hx : f x with
    | none =>
      rw [List.filterMap_cons_none hx]
      exact ih.cons _
    | some y =>
      rw [List.filterMap_cons_some hx, List.map_cons, List.map_cons, hf x y hx]
      exact ih.cons_cons _

variable {α κ : Type} [DecidableEq κ]

/-- Of entries that some of a list give rise to, each under the key of its origin, the one that is
read comes from the origin with its key. -/
theorem get?_foldl_put_filterMap {key : α → κ} {f : α → Option α}
    (hf : ∀ x y, f x = some y → key y = key x) {xs : List α} (hn : (xs.map key).Nodup) {x : α}
    (hx : x ∈ xs) (ys : List α) :
    get? key (key x) ((xs.filterMap f).foldl (fun ys x => put key x ys) ys)
      = (f x).or (get? key (key x) ys) := by
  -- The last entry with a key is the only one, as every origin gives rise to one entry at most.
  have hn' : ((xs.filterMap f).reverse.map key).Nodup := by
    rw [List.map_reverse, List.nodup_reverse]
    exact hn.sublist (map_filterMap_sublist hf xs)
  rw [get?_foldl_put]
  congr 1
  cases hfx : f x with
  | some y =>
    rw [← hf x y hfx]
    exact get?_of_mem hn' (List.mem_reverse.mpr (List.mem_filterMap.mpr ⟨x, hx, hfx⟩))
  | none =>
    rw [get?_eq_none_iff]
    intro hm
    obtain ⟨y, hy, hk⟩ := List.mem_map.mp hm
    obtain ⟨z, hz, hfz⟩ := List.mem_filterMap.mp (List.mem_reverse.mp hy)
    have hzx : z = x := List.inj_on_of_nodup_map hn hz hx ((hf z y hfz).symm.trans hk)
    rw [hzx, hfx] at hfz
    cases hfz

end Keyed

namespace Table

/-- What a migration sets a column of a new schema to, if it sets it. -/
def rewritten? (current : Table) (column : Column) : Option Column :=
  match current.classify column with
  | .ok change => change.written?
  | .error _ => none

theorem rewritten?_of_classify {current : Table} {column : Column} {change : Change}
    (h : current.classify column = .ok change) : current.rewritten? column = change.written? := by
  rw [rewritten?, h]

/-- A column keeps its name. -/
theorem name_of_rewritten? {current : Table} {column written : Column}
    (h : current.rewritten? column = some written) : written.name = column.name := by
  cases hclass : current.classify column with
  | error failure => simp [rewritten?, hclass] at h
  | ok change =>
    rw [rewritten?_of_classify hclass] at h
    cases change with
    | unchanged => cases h
    | added added behind =>
      obtain rfl := Option.some.inj h
      rw [added_of_classify hclass]
    | revised revision =>
      obtain rfl := Option.some.inj h
      exact (revision_of_classify hclass).2

end Table

/-! ## Plans -/

/-- The step of a finding. -/
def stepOf? : Except MigrationError (Option Step) → Option Step
  | .ok step? => step?
  | .error _ => none

namespace Plan

/-- A plan without a failure has the step of every finding. -/
theorem of_failure_eq_none {findings : List (Except MigrationError (Option Step))}
    (h : (ofFindings findings).failure = none) :
    (∀ finding ∈ findings, ∃ step?, finding = .ok step?)
      ∧ (ofFindings findings).steps = findings.filterMap stepOf? := by
  induction findings with
  | nil => exact ⟨by simp, rfl⟩
  | cons finding rest ih =>
    cases finding with
    | error failure => simp [ofFindings] at h
    | ok step? =>
      have hrest : (ofFindings rest).failure = none := by
        cases step? <;> exact h
      obtain ⟨hok, hsteps⟩ := ih hrest
      refine ⟨?_, ?_⟩
      · intro finding hm
        rcases List.mem_cons.mp hm with rfl | hm
        · exact ⟨step?, rfl⟩
        · exact hok finding hm
      · cases step? with
        | none => exact hsteps
        | some step => exact congrArg (step :: ·) hsteps

theorem script_eq_ok {plan : Plan} {script : Script} :
    plan.script = .ok script ↔ plan.failure = none ∧ script = Script.ofSteps plan.steps := by
  unfold Plan.script
  cases plan.failure <;> simp [eq_comm]

end Plan

namespace Schema

/-- What is found for one table of a new schema. -/
def findingsOf (old : Schema) (table : Table) : List (Except MigrationError (Option Step)) :=
  match old.table? table.name with
  | none => [.ok (some (.create table))]
  | some current =>
    table.columns.map fun column => (current.classify column).map (Step.ofChange? table.name)

theorem findings_eq_flatMap (old new : Schema) :
    old.findings new = new.tables.flatMap old.findingsOf := rfl

/-- The steps of one table of a new schema. -/
def stepsOf (old : Schema) (table : Table) : List Step :=
  (old.findingsOf table).filterMap stepOf?

/-- The table that a migration leaves behind for one of the new schema. -/
def grown (old : Schema) (table : Table) : Table :=
  match old.table? table.name with
  | none => table
  | some current => (table.columns.filterMap current.rewritten?).foldl Table.setColumn current

theorem grown_of_table? {old : Schema} {table current : Table}
    (h : old.table? table.name = some current) :
    old.grown table = { current with
      columns := (table.columns.filterMap current.rewritten?).foldl
        (fun cs c => Keyed.put Column.name c cs) current.columns } := by
  rw [grown, h]
  exact Table.foldl_setColumn _ _

theorem steps_between {old new : Schema} (h : (Plan.between old new).failure = none) :
    (Plan.between old new).steps = new.tables.flatMap old.stepsOf := by
  have hs := (Plan.of_failure_eq_none h).2
  rw [Plan.between, hs, findings_eq_flatMap]
  exact List.filterMap_flatMap

theorem name_of_table? {schema : Schema} {name : Text} {table : Table}
    (h : schema.table? name = some table) : table.name = name := by
  simpa using List.find?_some h

/-- A table has a name of its own. -/
theorem name_ne_of_nodup {schema : Schema} (h : schema.tableNames.Nodup) {table : Table}
    {before after : List Table} (hsplit : schema.tables = before ++ table :: after) :
    ∀ other ∈ before ++ after, other.name ≠ table.name := by
  rw [tableNames, hsplit, List.map_append, List.map_cons, List.nodup_middle, List.nodup_cons,
    ← List.map_append] at h
  intro other ho e
  exact h.1 (e ▸ List.mem_map_of_mem ho)

variable {old : Schema} {table current : Table}

theorem stepsOf_new (h : old.table? table.name = none) : old.stepsOf table = [.create table] := by
  simp [stepsOf, findingsOf, h, stepOf?]

/-- Each step of a table that is there sets one of its columns. -/
theorem mem_stepsOf_current (h : old.table? table.name = some current) {step : Step}
    (hs : step ∈ old.stepsOf table) : step.target = table.name ∧ step.written?.isSome := by
  rw [stepsOf, findingsOf, h] at hs
  obtain ⟨finding, hf, hstep⟩ := List.mem_filterMap.mp hs
  obtain ⟨column, hc, rfl⟩ := List.mem_map.mp hf
  cases hclass : current.classify column with
  | error failure => simp [hclass, Except.map, stepOf?] at hstep
  | ok change =>
    cases change with
    | unchanged => simp [hclass, Except.map, stepOf?, Step.ofChange?] at hstep
    | added column behind =>
      obtain rfl : Step.add table.name column behind = step := by
        simpa [hclass, Except.map, stepOf?, Step.ofChange?] using hstep
      exact ⟨rfl, rfl⟩
    | revised revision =>
      obtain rfl : Step.modify revision = step := by
        simpa [hclass, Except.map, stepOf?, Step.ofChange?] using hstep
      exact ⟨(Table.revision_of_classify hclass).1.trans (name_of_table? h), rfl⟩

theorem target_of_mem_stepsOf {step : Step} (hs : step ∈ old.stepsOf table) :
    step.target = table.name := by
  cases h : old.table? table.name with
  | none =>
    rw [stepsOf_new h] at hs
    obtain rfl := List.mem_singleton.mp hs
    rfl
  | some current => exact (mem_stepsOf_current h hs).1

theorem filterMap_written?_stepsOf (h : old.table? table.name = some current) :
    (old.stepsOf table).filterMap Step.written? = table.columns.filterMap current.rewritten? := by
  simp only [stepsOf, findingsOf, h, List.filterMap_map, List.filterMap_filterMap]
  congr 1
  funext column
  simp only [Function.comp, Table.rewritten?]
  cases current.classify column with
  | error failure => rfl
  | ok change => cases change <;> rfl

/-- The steps of a table turn it into the grown one. -/
theorem table?_migrated_stepsOf {schema : Schema}
    (h : schema.table? table.name = old.table? table.name) :
    (schema.migrated (old.stepsOf table)).table? table.name = some (old.grown table) := by
  cases ht : old.table? table.name with
  | none =>
    rw [stepsOf_new ht, grown, ht]
    exact table?_insert_self schema table
  | some current =>
    rw [table?_migrated_self (fun step hs => mem_stepsOf_current ht hs), h, ht,
      filterMap_written?_stepsOf ht, grown, ht]
    rfl

/-- A migration leaves the grown table behind for every table of the new schema. -/
theorem table?_upgraded {new : Schema} (h : (Plan.between old new).failure = none)
    (hn : new.tableNames.Nodup) (ht : table ∈ new.tables) :
    (old.upgraded new).table? table.name = some (old.grown table) := by
  obtain ⟨before, after, hsplit⟩ := List.append_of_mem ht
  have hother := name_ne_of_nodup hn hsplit
  -- Of the steps, only those in the middle are about the table.
  have hframe : ∀ tables : List Table, (∀ other ∈ tables, other ∈ before ++ after) →
      ∀ step ∈ tables.flatMap old.stepsOf, step.target ≠ table.name := by
    intro tables hsub step hs
    obtain ⟨other, ho, hm⟩ := List.mem_flatMap.mp hs
    rw [target_of_mem_stepsOf hm]
    exact hother other (hsub other ho)
  rw [upgraded, steps_between h, hsplit, List.flatMap_append, List.flatMap_cons, migrated_append,
    migrated_append, table?_migrated_ne (hframe after fun other ho => List.mem_append_right _ ho)]
  exact table?_migrated_stepsOf
    (table?_migrated_ne (hframe before fun other ho => List.mem_append_left _ ho) old)

end Schema

end SchemaGrowth
