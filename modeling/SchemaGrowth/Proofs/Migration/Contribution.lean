import Mathlib.Data.List.Forall2
import SchemaGrowth.Proofs.Migration.Effect

/-!
# What every column contributes to a migration

A migration is found table by table and column by column, and its statements are sorted by their
kind on the way. `Contributes` says, without any order, what one column gives to the script:
nothing, a statement that adds it, or one that modifies it together with an account. One way leads
to no script at all: an enumeration that changes and cannot be read. `migration_classifies` puts the
columns together again: the script has the contributions of all columns in their order, and the
failure is the one of the first column that cannot be read.
-/

namespace SchemaGrowth

open Definition Enumeration

/-! ## Failures -/

/-- A text with one opening bracket and, behind it, one closing bracket. -/
def Enumeration.Bracketed (definition : Text) : Prop :=
  ∃ head list tail : Text, definition = head ++ '(' :: (list ++ ')' :: tail)
    ∧ '(' ∉ head ++ list ++ tail ∧ ')' ∉ head ++ list ++ tail

/-- Just the texts with such brackets can be read as enumerations. -/
theorem Enumeration.isSome_ofDefinition? {definition : Text} :
    (ofDefinition? definition).isSome ↔ Bracketed definition := by
  rw [Option.isSome_iff_exists]
  constructor
  · rintro ⟨enumeration, he⟩
    obtain ⟨head, list, hd, ho, hc, -⟩ := ofDefinition?_eq_some.mp he
    exact ⟨head, list, enumeration.modifiers, hd, ho, hc⟩
  · rintro ⟨head, list, tail, hd, ho, hc⟩
    exact ⟨⟨list.enclosed literalMark, tail⟩,
      ofDefinition?_eq_some.mpr ⟨head, list, hd, ho, hc, rfl⟩⟩

theorem Enumeration.ofDefinition?_eq_none {definition : Text} :
    ofDefinition? definition = none ↔ ¬ Bracketed definition := by
  rw [← isSome_ofDefinition?, Option.not_isSome_iff_eq_none]

instance : DecidablePred Enumeration.Bracketed :=
  fun _ => decidable_of_iff _ Enumeration.isSome_ofDefinition?

/-- A column that cannot be taken from an old definition to a new one: the definitions differ, both
are enumerations, and one of them has no brackets to be read between. -/
structure Column.Unmergeable (had wanted : Column) : Prop where
  differ : equivalent had.definition wanted.definition = false
  hadIsEnum : isEnum (canonical had.definition) = true
  wantedIsEnum : isEnum (canonical wanted.definition) = true
  malformed : ¬ Bracketed (canonical had.definition) ∨ ¬ Bracketed (canonical wanted.definition)

/-- The definition with which a failure is explained: the old one unless that can be read. -/
def Column.blamed (had wanted : Column) : Text :=
  if Bracketed (canonical had.definition) then canonical wanted.definition
  else canonical had.definition

theorem Change.between_eq_error {table : Text} {had wanted : Column} {failure : MigrationError} :
    between table had wanted = .error failure
      ↔ had.Unmergeable wanted
        ∧ failure = .malformedEnum table wanted.name (had.blamed wanted) := by
  have hcompare := comparison_between table had wanted
  constructor
  · intro h
    rw [h] at hcompare
    cases hcompare with
    | oldMalformed differ oldIsEnum newIsEnum unread =>
      have hmalformed := ofDefinition?_eq_none.mp unread
      exact ⟨⟨differ, oldIsEnum, newIsEnum, .inl hmalformed⟩,
        by rw [Column.blamed, if_neg hmalformed]⟩
    | newMalformed differ oldIsEnum newIsEnum oldRead unread =>
      have hbracketed : Bracketed (canonical had.definition) :=
        isSome_ofDefinition?.mp (by rw [oldRead]; rfl)
      exact ⟨⟨differ, oldIsEnum, newIsEnum, .inr (ofDefinition?_eq_none.mp unread)⟩,
        by rw [Column.blamed, if_pos hbracketed]⟩
  · rintro ⟨⟨hdiffer, hhad, hwanted, hmalformed⟩, rfl⟩
    generalize between table had wanted = result at hcompare ⊢
    cases hcompare with
    | equivalent same => simp [same] at hdiffer
    | plain differ noEnums => simp [hhad, hwanted] at noEnums
    | oldMalformed differ oldIsEnum newIsEnum unread =>
      rw [Column.blamed, if_neg (ofDefinition?_eq_none.mp unread)]
    | newMalformed differ oldIsEnum newIsEnum oldRead unread =>
      have hbracketed : Bracketed (canonical had.definition) :=
        isSome_ofDefinition?.mp (by rw [oldRead]; rfl)
      rw [Column.blamed, if_pos hbracketed]
    | contained differ oldIsEnum newIsEnum oldRead newRead nothingNew =>
      simp [← ofDefinition?_eq_none, oldRead, newRead] at hmalformed
    | merged differ oldIsEnum newIsEnum oldRead newRead merge =>
      simp [← ofDefinition?_eq_none, oldRead, newRead] at hmalformed

theorem Change.between_of_differ {had wanted : Column} {table : Text}
    (differ : equivalent had.definition wanted.definition = false)
    (noEnums : ¬ (isEnum (canonical had.definition) = true
      ∧ isEnum (canonical wanted.definition) = true)) :
    between table had wanted
      = .ok (.revised ⟨table, wanted, canonical had.definition, canonical wanted.definition⟩) := by
  rw [← Bool.and_eq_true, Bool.not_eq_true] at noEnums
  simp [between, differ, noEnums]

theorem Change.between_of_read {had wanted : Column} {oldEnum newEnum : Enumeration}
    (differ : equivalent had.definition wanted.definition = false)
    (hadIsEnum : isEnum (canonical had.definition) = true)
    (wantedIsEnum : isEnum (canonical wanted.definition) = true)
    (oldRead : ofDefinition? (canonical had.definition) = some oldEnum)
    (newRead : ofDefinition? (canonical wanted.definition) = some newEnum) (table : Text) :
    between table had wanted
      = .ok (match oldEnum.merge? newEnum with
        | none => .unchanged
        | some merged => .revised ⟨table, ⟨wanted.name, merged.definition⟩,
            canonical had.definition, canonical wanted.definition⟩) := by
  simp only [between, differ, hadIsEnum, wantedIsEnum, mergeEnums_ok oldRead newRead, bind,
    Except.bind, Bool.and_self, Bool.false_eq_true, if_false, if_true]
  cases oldEnum.merge? newEnum <;> rfl

/-- What is not contained is merged. -/
theorem Enumeration.merge?_of_something {old new : Enumeration}
    (h : ¬ ((∀ value ∈ new.values, value ∈ old.values) ∧ old.sameModifiers new = true)) :
    old.merge? new = some ⟨(old.values ++ new.values).eraseDups, new.modifiers⟩ := by
  rw [← merge?_eq_none] at h
  obtain ⟨merged, hmerged⟩ := Option.ne_none_iff_exists'.mp h
  rw [hmerged, eq_of_merge? hmerged]

/-! ## Contributions -/

/-- What one column gives to a script. -/
inductive Contribution where
  | nothing
  | add (statement : Text)
  | modify (statement account : Text)

namespace Contribution

/-- The statement that adds the column. -/
def added? : Contribution → Option Text
  | add statement => some statement
  | _ => none

/-- The statement that modifies the column. -/
def modified? : Contribution → Option Text
  | modify statement _ => some statement
  | _ => none

/-- The account of the modified column. -/
def account? : Contribution → Option Text
  | modify _ account => some account
  | _ => none

end Contribution

/-- The contribution of a column that takes a new definition. -/
def Contribution.ofRevision (current : Table) (had wanted : Column) (definition : Text) :
    Contribution :=
  let statement := (Statement.modifyColumn current.name ⟨wanted.name, definition⟩).text
  .modify statement
    (Revision.accountOf current.name wanted.name (canonical had.definition)
      (canonical wanted.definition) statement)

/-- What a column of a new schema contributes, given the table of the old schema. -/
inductive Contributes (current : Table) (wanted : Column) : Contribution → Prop
  /-- A column that is not there is added, behind the last column if there is one. -/
  | added (new : current.column? wanted.name = none) :
      Contributes current wanted
        (.add (Statement.addColumn current.name wanted current.lastColumn?).text)
  /-- A column with an equivalent definition stays, whatever its definition is. -/
  | same {had : Column} (there : current.column? wanted.name = some had)
      (same : equivalent had.definition wanted.definition = true) :
      Contributes current wanted .nothing
  /-- A column that is an enumeration on one side at most takes the new definition as written. -/
  | revised {had : Column} (there : current.column? wanted.name = some had)
      (differ : equivalent had.definition wanted.definition = false)
      (noEnums : ¬ (isEnum (canonical had.definition) = true
        ∧ isEnum (canonical wanted.definition) = true)) :
      Contributes current wanted (.ofRevision current had wanted wanted.definition)
  /-- An enumeration stays if it has every new value and the same modifiers. -/
  | contained {had : Column} {oldEnum newEnum : Enumeration}
      (there : current.column? wanted.name = some had)
      (differ : equivalent had.definition wanted.definition = false)
      (hadIsEnum : isEnum (canonical had.definition) = true)
      (wantedIsEnum : isEnum (canonical wanted.definition) = true)
      (oldRead : ofDefinition? (canonical had.definition) = some oldEnum)
      (newRead : ofDefinition? (canonical wanted.definition) = some newEnum)
      (nothingNew : (∀ value ∈ newEnum.values, value ∈ oldEnum.values)
        ∧ oldEnum.sameModifiers newEnum = true) :
      Contributes current wanted .nothing
  /-- Any other enumeration takes the values of both sides, each once, and the new modifiers. -/
  | merged {had : Column} {oldEnum newEnum : Enumeration}
      (there : current.column? wanted.name = some had)
      (differ : equivalent had.definition wanted.definition = false)
      (hadIsEnum : isEnum (canonical had.definition) = true)
      (wantedIsEnum : isEnum (canonical wanted.definition) = true)
      (oldRead : ofDefinition? (canonical had.definition) = some oldEnum)
      (newRead : ofDefinition? (canonical wanted.definition) = some newEnum)
      (something : ¬ ((∀ value ∈ newEnum.values, value ∈ oldEnum.values)
        ∧ oldEnum.sameModifiers newEnum = true)) :
      Contributes current wanted
        (.ofRevision current had wanted (Enumeration.definition
          ⟨(oldEnum.values ++ newEnum.values).eraseDups, newEnum.modifiers⟩))

namespace Change

/-- What a change of a column contributes to a script. -/
def contribution (table : Text) : Change → Contribution
  | .unchanged => .nothing
  | .added column behind => .add (Statement.addColumn table column behind).text
  | .revised revision => .modify revision.statement.text revision.account

end Change

namespace Table

variable {current : Table} {wanted : Column}

/-- What is found for a column is what it contributes. -/
theorem contributes_of_classify {change : Change} (h : current.classify wanted = .ok change) :
    Contributes current wanted (change.contribution current.name) := by
  cases hhad : current.column? wanted.name with
  | none =>
    rw [classify_of_column?_eq_none hhad] at h
    obtain rfl := Except.ok.inj h
    exact .added hhad
  | some had =>
    have hcompare := Change.comparison_between current.name had wanted
    rw [← classify_of_column?_eq_some hhad, h] at hcompare
    cases hcompare with
    | equivalent same => exact .same hhad same
    | plain differ noEnums =>
      refine .revised hhad differ ?_
      simpa using noEnums
    | contained differ oldIsEnum newIsEnum oldRead newRead nothingNew =>
      exact .contained hhad differ oldIsEnum newIsEnum oldRead newRead
        (merge?_eq_none.mp nothingNew)
    | merged differ oldIsEnum newIsEnum oldRead newRead merge =>
      obtain rfl := eq_of_merge? merge
      refine .merged hhad differ oldIsEnum newIsEnum oldRead newRead ?_
      rw [← merge?_eq_none, merge]
      simp

/-- What a column contributes is found, so it contributes one thing at most. -/
theorem classify_of_contributes {contribution : Contribution}
    (h : Contributes current wanted contribution) :
    ∃ change, current.classify wanted = .ok change
      ∧ contribution = change.contribution current.name := by
  cases h with
  | added new => exact ⟨_, classify_of_column?_eq_none new, rfl⟩
  | same there same =>
    exact ⟨_, (classify_of_column?_eq_some there).trans (Change.between_of_equivalent same _), rfl⟩
  | revised there differ noEnums =>
    exact ⟨_, (classify_of_column?_eq_some there).trans (Change.between_of_differ differ noEnums),
      rfl⟩
  | contained there differ hadIsEnum wantedIsEnum oldRead newRead nothingNew =>
    have hbetween := Change.between_of_read differ hadIsEnum wantedIsEnum oldRead newRead
      current.name
    rw [merge?_eq_none.mpr nothingNew] at hbetween
    exact ⟨_, (classify_of_column?_eq_some there).trans hbetween, rfl⟩
  | merged there differ hadIsEnum wantedIsEnum oldRead newRead something =>
    have hbetween := Change.between_of_read differ hadIsEnum wantedIsEnum oldRead newRead
      current.name
    rw [merge?_of_something something] at hbetween
    exact ⟨_, (classify_of_column?_eq_some there).trans hbetween, rfl⟩

theorem contributes_unique {first second : Contribution} (hf : Contributes current wanted first)
    (hs : Contributes current wanted second) : first = second := by
  obtain ⟨change, hchange, rfl⟩ := classify_of_contributes hf
  obtain ⟨other, hother, rfl⟩ := classify_of_contributes hs
  obtain rfl := Except.ok.inj (hchange.symm.trans hother)
  rfl

theorem classify_eq_error {failure : MigrationError} :
    current.classify wanted = .error failure
      ↔ ∃ had, current.column? wanted.name = some had ∧ had.Unmergeable wanted
        ∧ failure = .malformedEnum current.name wanted.name (had.blamed wanted) := by
  cases hhad : current.column? wanted.name with
  | none => simp [classify_of_column?_eq_none hhad]
  | some had => simp [classify_of_column?_eq_some hhad, Change.between_eq_error]

end Table

/-! ## Schemas -/

namespace Schema

/-- The columns of a schema, each with its table, in order. -/
def declared (schema : Schema) : List (Table × Column) :=
  schema.tables.flatMap fun table => table.columns.map (table, ·)

/-- The columns of a new schema whose tables are there already, each with the table of the old
schema, in order. -/
def compared (old new : Schema) : List (Table × Column) :=
  new.declared.filterMap fun entry => (old.table? entry.1.name).map (·, entry.2)

/-- Whether a column of a new schema stands in the way of a migration. -/
def Obstructs (old : Schema) (table : Table) (wanted : Column) : Prop :=
  ∃ current had, old.table? table.name = some current
    ∧ current.column? wanted.name = some had ∧ had.Unmergeable wanted

/-- The failure to which a column of a new schema leads. -/
def failureOf? (old : Schema) (entry : Table × Column) : Option MigrationError :=
  match old.table? entry.1.name with
  | none => none
  | some current =>
    match current.classify entry.2 with
    | .ok _ => none
    | .error failure => some failure

theorem failureOf?_eq_some {old : Schema} {table : Table} {wanted : Column}
    {failure : MigrationError} :
    old.failureOf? (table, wanted) = some failure
      ↔ ∃ current had, old.table? table.name = some current
        ∧ current.column? wanted.name = some had ∧ had.Unmergeable wanted
        ∧ failure = .malformedEnum table.name wanted.name (had.blamed wanted) := by
  cases hcurrent : old.table? table.name with
  | none => simp [failureOf?, hcurrent]
  | some current =>
    have hclass : old.failureOf? (table, wanted) = some failure
        ↔ current.classify wanted = .error failure := by
      simp only [failureOf?, hcurrent]
      cases current.classify wanted <;> simp
    rw [hclass, Table.classify_eq_error, ← name_of_table? hcurrent]
    simp

theorem failureOf?_eq_none {old : Schema} {table : Table} {wanted : Column} :
    old.failureOf? (table, wanted) = none ↔ ¬ old.Obstructs table wanted := by
  rw [Option.eq_none_iff_forall_ne_some]
  constructor
  · rintro h ⟨current, had, hcurrent, hhad, hunmergeable⟩
    exact h _ (failureOf?_eq_some.mpr ⟨current, had, hcurrent, hhad, hunmergeable, rfl⟩)
  · intro h failure hfailure
    obtain ⟨current, had, hcurrent, hhad, hunmergeable, -⟩ := failureOf?_eq_some.mp hfailure
    exact h ⟨current, had, hcurrent, hhad, hunmergeable⟩

/-! ### Plans that fail -/

/-- The failure of a finding. -/
def failureIn? : Except MigrationError (Option Step) → Option MigrationError
  | .ok _ => none
  | .error failure => some failure

theorem failure_ofFindings (findings : List (Except MigrationError (Option Step))) :
    (Plan.ofFindings findings).failure = findings.findSome? failureIn? := by
  induction findings with
  | nil => rfl
  | cons finding rest ih =>
    cases finding with
    | error failure => rfl
    | ok step? => cases step? <;> exact ih

theorem findSome?_findingsOf (old : Schema) (table : Table) :
    (old.findingsOf table).findSome? failureIn?
      = (table.columns.map (table, ·)).findSome? old.failureOf? := by
  rw [findingsOf, List.findSome?_map]
  cases hcurrent : old.table? table.name with
  | none =>
    have hnone : table.columns.findSome? (old.failureOf? ∘ (table, ·)) = none := by
      rw [List.findSome?_eq_none_iff]
      intro wanted _
      simp [failureOf?, hcurrent]
    rw [hnone]
    rfl
  | some current =>
    simp only [List.findSome?_map]
    congr 1
    funext wanted
    simp only [Function.comp, failureOf?, hcurrent]
    cases current.classify wanted <;> rfl

/-- A plan fails with the failure of the first column that leads to one. -/
theorem failure_between (old new : Schema) :
    (Plan.between old new).failure = new.declared.findSome? old.failureOf? := by
  rw [Plan.between, failure_ofFindings, findings_eq_flatMap, declared]
  induction new.tables with
  | nil => rfl
  | cons table rest ih =>
    rw [List.flatMap_cons, List.flatMap_cons, List.findSome?_append, List.findSome?_append, ih,
      findSome?_findingsOf]

theorem migration_eq_error {old new : Schema} {failure : MigrationError} :
    old.migration new = .error failure ↔ (Plan.between old new).failure = some failure := by
  rw [migration, Plan.script]
  cases (Plan.between old new).failure <;> simp

/-! ### Plans that do not fail -/

/-- The contribution of a column. -/
def contributionOf (entry : Table × Column) : Contribution :=
  match entry.1.classify entry.2 with
  | .ok change => change.contribution entry.1.name
  | .error _ => .nothing

/-- The script of some contributions and of some tables to create. -/
def scriptOf (contributions : List Contribution) (created : List Table) : Script :=
  { adds := contributions.filterMap Contribution.added?
    modifies := contributions.filterMap Contribution.modified?
    creates := created.map fun table => (Statement.createTable table).text
    comparisons := contributions.filterMap Contribution.account? }

/-- The columns of one table of a new schema with the table of the old schema. -/
theorem compared_eq_flatMap (old new : Schema) :
    old.compared new = new.tables.flatMap fun table =>
      match old.table? table.name with
      | none => []
      | some current => table.columns.map (current, ·) := by
  rw [compared, declared, List.filterMap_flatMap]
  congr 1
  funext table
  rw [List.filterMap_map]
  cases hcurrent : old.table? table.name with
  | none =>
    rw [List.filterMap_eq_nil_iff]
    intro wanted _
    simp [hcurrent]
  | some current =>
    simp only [Function.comp_def, hcurrent, Option.map_some]
    exact congrFun List.filterMap_eq_map' _

/-- What is read off the steps of a migration that create no table is read off the contributions of
the columns. -/
theorem filterMap_steps {old new : Schema} {ofStep : Step → Option Text}
    {ofContribution : Contribution → Option Text} (hcreate : ∀ table, ofStep (.create table) = none)
    (hchange : ∀ table change, (Step.ofChange? table change).bind ofStep
      = ofContribution (change.contribution table))
    (hnothing : ofContribution .nothing = none) :
    (new.tables.flatMap old.stepsOf).filterMap ofStep
      = ((old.compared new).map contributionOf).filterMap ofContribution := by
  rw [compared_eq_flatMap, List.map_flatMap, List.filterMap_flatMap, List.filterMap_flatMap]
  congr 1
  funext table
  cases hcurrent : old.table? table.name with
  | none => simp [stepsOf_new hcurrent, hcreate]
  | some current =>
    have hname := name_of_table? hcurrent
    simp only [stepsOf, findingsOf, hcurrent, List.filterMap_map, List.filterMap_filterMap,
      List.map_map]
    congr 1
    funext wanted
    simp only [Function.comp_def, contributionOf]
    cases current.classify wanted with
    | error failure => simp [Except.map, stepOf?, hnothing]
    | ok change =>
      rw [hname, ← hchange]
      rfl

theorem filterMap_createText?_steps (old new : Schema) :
    (new.tables.flatMap old.stepsOf).filterMap Step.createText?
      = (new.tables.filter fun table => (old.table? table.name).isNone).map
          fun table => (Statement.createTable table).text := by
  induction new.tables with
  | nil => rfl
  | cons table rest ih =>
    rw [List.flatMap_cons, List.filterMap_append, ih]
    cases hcurrent : old.table? table.name with
    | none => simp [stepsOf_new hcurrent, hcurrent, Step.createText?]
    | some current =>
      have hnone : (old.stepsOf table).filterMap Step.createText? = [] := by
        rw [List.filterMap_eq_nil_iff]
        intro step hstep
        have hwritten := (mem_stepsOf_current hcurrent hstep).2
        cases step with
        | create table => simp [Step.written?] at hwritten
        | add table column behind => rfl
        | modify revision => rfl
      simp [hnone, hcurrent]

/-- Without a failure, the script has the contributions of all columns. -/
theorem ofSteps_between {old new : Schema} (h : (Plan.between old new).failure = none) :
    Script.ofSteps (Plan.between old new).steps
      = scriptOf ((old.compared new).map contributionOf)
          (new.tables.filter fun table => (old.table? table.name).isNone) := by
  rw [steps_between h, Script.ofSteps, scriptOf, Script.mk.injEq]
  refine ⟨?_, ?_, filterMap_createText?_steps old new, ?_⟩
  · refine filterMap_steps (fun _ => rfl) ?_ rfl
    intro table change
    cases change <;> rfl
  · rw [List.map_filterMap]
    refine filterMap_steps (fun _ => rfl) ?_ rfl
    intro table change
    cases change <;> rfl
  · rw [List.map_filterMap]
    refine filterMap_steps (fun _ => rfl) ?_ rfl
    intro table change
    cases change <;> rfl

/-- A column that stands in no one's way contributes what is found for it. -/
theorem contributes_contributionOf {old new : Schema}
    (h : ∀ entry ∈ new.declared, ¬ old.Obstructs entry.1 entry.2) {entry : Table × Column}
    (he : entry ∈ old.compared new) : Contributes entry.1 entry.2 (contributionOf entry) := by
  obtain ⟨⟨table, wanted⟩, hdeclared, hentry⟩ := List.mem_filterMap.mp he
  obtain ⟨current, hcurrent, rfl⟩ := Option.map_eq_some_iff.mp hentry
  cases hclass : current.classify wanted with
  | error failure =>
    obtain ⟨had, hhad, hunmergeable, -⟩ := Table.classify_eq_error.mp hclass
    exact absurd ⟨current, had, hcurrent, hhad, hunmergeable⟩ (h _ hdeclared)
  | ok change =>
    simp only [contributionOf, hclass]
    exact Table.contributes_of_classify hclass

theorem failure_between_eq_none {old new : Schema} :
    (Plan.between old new).failure = none
      ↔ ∀ entry ∈ new.declared, ¬ old.Obstructs entry.1 entry.2 := by
  rw [failure_between, List.findSome?_eq_none_iff]
  simp only [Prod.forall, failureOf?_eq_none]

theorem migration_eq_ok {old new : Schema} {script : Script} :
    old.migration new = .ok script
      ↔ (∀ entry ∈ new.declared, ¬ old.Obstructs entry.1 entry.2)
        ∧ script = scriptOf ((old.compared new).map contributionOf)
            (new.tables.filter fun table => (old.table? table.name).isNone) := by
  rw [migration, Plan.script_eq_ok, ← failure_between_eq_none]
  constructor
  · rintro ⟨hfailure, hscript⟩
    exact ⟨hfailure, hscript.trans (ofSteps_between hfailure)⟩
  · rintro ⟨hfailure, hscript⟩
    exact ⟨hfailure, hscript.trans (ofSteps_between hfailure).symm⟩

/-- **A migration adds up what the columns contribute, unless an enumeration cannot be read.** There
is no migration just if some column stands in the way. The failure is then the one of the first such
column, table by table and column by column, and it names the definition that cannot be read, the
old one first. Otherwise the script creates the tables that are missing, whatever their columns are,
and has the contributions of the columns of all other tables, one for each and in their order. -/
theorem migration_classifies (old new : Schema) :
    ((∃ failure, old.migration new = .error failure)
      ↔ ∃ entry ∈ new.declared, old.Obstructs entry.1 entry.2)
    ∧ (∀ failure, old.migration new = .error failure
      ↔ ∃ before table wanted after current had,
        new.declared = before ++ (table, wanted) :: after
        ∧ (∀ entry ∈ before, ¬ old.Obstructs entry.1 entry.2)
        ∧ old.table? table.name = some current ∧ current.column? wanted.name = some had
        ∧ had.Unmergeable wanted
        ∧ failure = .malformedEnum table.name wanted.name
            (if Bracketed (canonical had.definition) then canonical wanted.definition
              else canonical had.definition))
    ∧ (∀ script, old.migration new = .ok script
      ↔ (∀ entry ∈ new.declared, ¬ old.Obstructs entry.1 entry.2)
        ∧ ∃ contributions : List Contribution,
          List.Forall₂ (fun entry contribution => Contributes entry.1 entry.2 contribution)
            (old.compared new) contributions
          ∧ script.adds = contributions.filterMap Contribution.added?
          ∧ script.modifies = contributions.filterMap Contribution.modified?
          ∧ script.comparisons = contributions.filterMap Contribution.account?
          ∧ script.creates = (new.tables.filter fun table => (old.table? table.name).isNone).map
              fun table => (Statement.createTable table).text)
    ∧ ∀ current wanted first second, Contributes current wanted first →
        Contributes current wanted second → first = second := by
  refine ⟨?_, ?_, ?_, fun _ _ _ _ => Table.contributes_unique⟩
  · simp only [migration_eq_error, failure_between]
    rw [← Option.isSome_iff_exists, List.findSome?_isSome_iff]
    simp only [Option.isSome_iff_ne_none, ne_eq, Prod.exists, failureOf?_eq_none, not_not]
  · intro failure
    rw [migration_eq_error, failure_between, List.findSome?_eq_some_iff]
    constructor
    · rintro ⟨before, ⟨table, wanted⟩, after, hsplit, hfailure, hbefore⟩
      obtain ⟨current, had, hcurrent, hhad, hunmergeable, rfl⟩ := failureOf?_eq_some.mp hfailure
      exact ⟨before, table, wanted, after, current, had, hsplit,
        fun entry he => failureOf?_eq_none.mp (hbefore entry he), hcurrent, hhad, hunmergeable, rfl⟩
    · rintro ⟨before, table, wanted, after, current, had, hsplit, hbefore, hcurrent, hhad,
        hunmergeable, rfl⟩
      exact ⟨before, (table, wanted), after, hsplit,
        failureOf?_eq_some.mpr ⟨current, had, hcurrent, hhad, hunmergeable, rfl⟩,
        fun entry he => failureOf?_eq_none.mpr (hbefore entry he)⟩
  · intro script
    rw [migration_eq_ok]
    refine and_congr_right ?_
    intro hclear
    have hall : List.Forall₂ (fun entry contribution => Contributes entry.1 entry.2 contribution)
        (old.compared new) ((old.compared new).map contributionOf) := by
      rw [List.forall₂_map_right_iff, List.forall₂_same]
      exact fun entry he => contributes_contributionOf hclear he
    constructor
    · rintro rfl
      exact ⟨_, hall, rfl, rfl, rfl, rfl⟩
    · rintro ⟨contributions, hcontributions, hadds, hmodifies, hcomparisons, hcreates⟩
      -- Each column contributes one thing, so there is only one list of contributions.
      have hunique : Relator.RightUnique fun (entry : Table × Column) contribution =>
          Contributes entry.1 entry.2 contribution := fun _ _ _ => Table.contributes_unique
      obtain rfl : contributions = (old.compared new).map contributionOf :=
        List.right_unique_forall₂' hunique hcontributions hall
      obtain ⟨adds, modifies, creates, comparisons⟩ := script
      simp only at hadds hmodifies hcomparisons hcreates
      rw [scriptOf, hadds, hmodifies, hcomparisons, hcreates]

/-- An enumeration that cannot be read is in the way only once it changes. -/
example :
    let old : Schema := ⟨[⟨"t".toList, [⟨"c".toList, "enum('a'".toList⟩], []⟩]⟩
    let same : Schema := ⟨[⟨"t".toList, [⟨"c".toList, "ENUM('A'".toList⟩], []⟩]⟩
    let other : Schema := ⟨[⟨"t".toList, [⟨"c".toList, "enum('b')".toList⟩], []⟩]⟩
    old.migration same = .ok ⟨[], [], [], []⟩
      ∧ old.migration other
        = .error (.malformedEnum "t".toList "c".toList "enum('a'".toList) := by
  decide +kernel

end Schema

end SchemaGrowth
