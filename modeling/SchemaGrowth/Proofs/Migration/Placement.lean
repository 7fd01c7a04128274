import SchemaGrowth.Proofs.Dump.History
import SchemaGrowth.Proofs.Migration.Effect

/-!
# Where the added columns come to stand

Every statement that adds a column names the column behind which it comes: the last one that the
table had before the migration. The database carries the statements out one after the other, so a
later one comes between that column and those added before it. `carryOutAll?_anchored` says what a
run of such statements makes of a table, and `Dump.extends_of_migration` what a migration does: no
statement fails, the columns that were there come first and stay in their order, and the new ones
follow in the order opposite to that of the new dump. Only those of a table that had no columns
follow in their own order.
-/

namespace SchemaGrowth

/-! ## Statements that add columns -/

/-- A column that a statement adds to a table, directly behind another one if that is named. -/
structure Addition where
  table : Text
  column : Column
  behind : Option Text
  deriving DecidableEq

namespace Addition

/-- The statement. -/
def text (addition : Addition) : Text :=
  "ALTER TABLE `".toList ++ addition.table ++ "` ADD `".toList ++ addition.column.name
    ++ "` ".toList ++ addition.column.definition
    ++ (match addition.behind with
        | some anchor => " AFTER `".toList ++ anchor ++ "`".toList
        | none => [])
    ++ ";".toList

/-- Names with another one directly behind the first that is `anchor`, if there is one. -/
def insertBehind? (anchor name : Text) : List Text → Option (List Text)
  | [] => none
  | other :: rest =>
    if other = anchor then some (other :: name :: rest)
    else (insertBehind? anchor name rest).map (other :: ·)

/-- The columns of a table, by their names and in order, once the database has carried out a
statement. It refuses a column that is there already, and one behind a column that is not. -/
def carryOut? (names : List Text) (addition : Addition) : Option (List Text) :=
  if addition.column.name ∈ names then none
  else match addition.behind with
    | none => some (names ++ [addition.column.name])
    | some anchor => insertBehind? anchor addition.column.name names

/-- The columns of a table once the database has carried out some statements in their order. -/
def carryOutAll? (names : List Text) (additions : List Addition) : Option (List Text) :=
  additions.foldlM carryOut? names

theorem insertBehind?_append {anchor : Text} {front : List Text} (h : anchor ∉ front) (name : Text)
    (rest : List Text) :
    insertBehind? anchor name (front ++ anchor :: rest) = some (front ++ anchor :: name :: rest) := by
  induction front with
  | nil => simp [insertBehind?]
  | cons other front ih =>
    have hother : other ≠ anchor := fun e => h (by simp [e])
    rw [List.cons_append, insertBehind?, if_neg hother, ih fun hm => h (List.mem_cons_of_mem _ hm)]
    rfl

/-- Behind an anchor that is there, a new column comes directly behind it. -/
theorem carryOut?_anchored {anchor : Text} {front placed : List Text} {addition : Addition}
    (hbehind : addition.behind = some anchor) (hanchor : anchor ∉ front)
    (hnew : addition.column.name ∉ front ++ anchor :: placed) :
    carryOut? (front ++ anchor :: placed) addition
      = some (front ++ anchor :: addition.column.name :: placed) := by
  rw [carryOut?, if_neg hnew, hbehind]
  exact insertBehind?_append hanchor _ _

theorem carryOut?_unanchored {names : List Text} {addition : Addition}
    (hbehind : addition.behind = none) (hnew : addition.column.name ∉ names) :
    carryOut? names addition = some (names ++ [addition.column.name]) := by
  rw [carryOut?, if_neg hnew, hbehind]

/-- New columns behind one anchor come to stand in the opposite order, before those that were placed
behind it earlier. -/
theorem carryOutAll?_anchored {anchor : Text} {front placed : List Text} {additions : List Addition}
    (hbehind : ∀ addition ∈ additions, addition.behind = some anchor)
    (hnew : (front ++ anchor :: (placed ++ additions.map (·.column.name))).Nodup) :
    carryOutAll? (front ++ anchor :: placed) additions
      = some (front ++ anchor :: ((additions.map (·.column.name)).reverse ++ placed)) := by
  induction additions generalizing placed with
  | nil => rfl
  | cons addition rest ih =>
    have hmiddle : ((front ++ anchor :: placed)
        ++ addition.column.name :: rest.map (·.column.name)).Nodup := by
      simpa using hnew
    obtain ⟨hname, hrest⟩ := List.nodup_cons.mp (List.nodup_middle.mp hmiddle)
    have hanchor : anchor ∉ front := fun hm =>
      (List.nodup_cons.mp (List.nodup_middle.mp hnew)).1 (List.mem_append_left _ hm)
    -- The next column will find this one where it is now, directly behind the anchor.
    have hplaced : (front ++ anchor :: ((addition.column.name :: placed)
        ++ rest.map (·.column.name))).Nodup := by
      have hsplit : ((front ++ [anchor]) ++ addition.column.name ::
          (placed ++ rest.map (·.column.name))).Nodup := by
        refine List.nodup_middle.mpr (List.nodup_cons.mpr ⟨?_, ?_⟩)
        · simpa using hname
        · simpa using hrest
      simpa using hsplit
    have hstep := carryOut?_anchored (hbehind _ List.mem_cons_self) hanchor fun hm =>
      hname (List.mem_append_left _ hm)
    have hlater := ih (fun other ho => hbehind other (List.mem_cons_of_mem _ ho)) hplaced
    rw [carryOutAll?, List.foldlM_cons, hstep]
    rw [carryOutAll?] at hlater
    simpa using hlater

/-- New columns without an anchor come last, in their order. -/
theorem carryOutAll?_unanchored {names : List Text} {additions : List Addition}
    (hbehind : ∀ addition ∈ additions, addition.behind = none)
    (hnew : (names ++ additions.map (·.column.name)).Nodup) :
    carryOutAll? names additions = some (names ++ additions.map (·.column.name)) := by
  induction additions generalizing names with
  | nil => simp [carryOutAll?]
  | cons addition rest ih =>
    have hname : addition.column.name ∉ names := fun hm =>
      (List.nodup_cons.mp (List.nodup_middle.mp hnew)).1 (List.mem_append_left _ hm)
    have hstep := carryOut?_unanchored (hbehind _ List.mem_cons_self) hname
    have hplaced : ((names ++ [addition.column.name]) ++ rest.map (·.column.name)).Nodup := by
      simpa using hnew
    have hlater := ih (fun other ho => hbehind other (List.mem_cons_of_mem _ ho)) hplaced
    rw [carryOutAll?, List.foldlM_cons, hstep]
    rw [carryOutAll?] at hlater
    simpa using hlater

end Addition

namespace Table

/-- The names of a table that another one lacks, in their order. -/
def newNames (table current : Table) : List Text :=
  table.columnNames.filter (· ∉ current.columnNames)

/-- What is added to a table for the columns of another one that it lacks. -/
def additionsTo (current table : Table) : List Addition :=
  (table.columns.filter (·.name ∉ current.columnNames)).map
    (⟨table.name, ·, current.lastColumn?⟩)

theorem map_name_additionsTo (current table : Table) :
    (current.additionsTo table).map (·.column.name) = table.newNames current := by
  rw [additionsTo, List.map_map, newNames, columnNames, columnNames, List.filter_map]
  rfl

theorem behind_of_mem_additionsTo {current table : Table} {addition : Addition}
    (h : addition ∈ current.additionsTo table) : addition.behind = current.lastColumn? := by
  obtain ⟨column, -, rfl⟩ := List.mem_map.mp h
  rfl

theorem nodup_append_newNames {current table : Table} (hc : current.columnNames.Nodup)
    (ht : table.columnNames.Nodup) : (current.columnNames ++ table.newNames current).Nodup := by
  refine hc.append (ht.filter _) ?_
  intro name hm hnew
  simpa [hm] using List.of_mem_filter hnew

theorem carryOutAll?_additionsTo {current table : Table} (hc : current.columnNames.Nodup)
    (ht : table.columnNames.Nodup) :
    Addition.carryOutAll? current.columnNames (current.additionsTo table)
      = some (current.columnNames
          ++ if current.columnNames = [] then table.newNames current
            else (table.newNames current).reverse) := by
  have hall := nodup_append_newNames hc ht
  rw [← map_name_additionsTo] at hall
  cases hnames : current.columnNames using List.reverseRecOn with
  | nil =>
    have hbehind : ∀ addition ∈ current.additionsTo table, addition.behind = none := by
      intro addition ha
      rw [behind_of_mem_additionsTo ha, lastColumn?, hnames, List.getLast?_nil]
    rw [hnames] at hall
    rw [Addition.carryOutAll?_unanchored hbehind hall, map_name_additionsTo, if_pos rfl]
  | append_singleton front anchor =>
    have hbehind : ∀ addition ∈ current.additionsTo table, addition.behind = some anchor := by
      intro addition ha
      rw [behind_of_mem_additionsTo ha, lastColumn?, hnames, List.getLast?_concat]
    rw [hnames, List.append_assoc] at hall
    rw [Addition.carryOutAll?_anchored hbehind hall, map_name_additionsTo, if_neg (by simp)]
    simp

/-- All columns come behind the last one that was there, the last of them first. -/
example :
    let column (c : Char) : Column := ⟨[c], "int".toList⟩
    let current : Table := ⟨"t".toList, [column 'a', column 'b'], []⟩
    let table : Table := ⟨"t".toList, ['u', 'b', 'v', 'a', 'w'].map column, []⟩
    Addition.carryOutAll? current.columnNames (current.additionsTo table)
      = some [['a'], ['b'], ['w'], ['v'], ['u']] := by
  decide

end Table

/-! ## The statements of a migration -/

/-- The column that a step adds. -/
def Step.addition? : Step → Option Addition
  | .add table column behind => some ⟨table, column, behind⟩
  | _ => none

namespace Schema

/-- The columns that a migration adds, in the order of their statements. -/
def additions (old new : Schema) : List Addition :=
  (Plan.between old new).steps.filterMap Step.addition?

theorem adds_of_migration {old new : Schema} {script : Script}
    (h : old.migration new = .ok script) : script.adds = (old.additions new).map Addition.text := by
  obtain ⟨-, rfl⟩ := Plan.script_eq_ok.mp h
  rw [additions, List.map_filterMap]
  refine List.filterMap_congr fun step _ => ?_
  cases step with
  | add table column behind => exact congrArg some (Statement.text_addColumn table column behind)
  | create _ => rfl
  | modify _ => rfl

variable {old : Schema} {table current : Table}

/-- A column is added if the table lacks it, behind the last one of the table. -/
theorem addition?_classify (name : Text) (column : Column) :
    (stepOf? ((current.classify column).map (Step.ofChange? name))).bind Step.addition?
      = if column.name ∉ current.columnNames then some ⟨name, column, current.lastColumn?⟩
        else none := by
  cases hcolumn : current.column? column.name with
  | none =>
    have hlacks : column.name ∉ current.columnNames := Keyed.get?_eq_none_iff.mp hcolumn
    rw [Table.classify_of_column?_eq_none hcolumn, if_pos hlacks]
    rfl
  | some had =>
    have hhas : ¬ column.name ∉ current.columnNames := fun hlacks => by
      rw [Table.column?, Keyed.get?_eq_none_iff.mpr hlacks] at hcolumn
      cases hcolumn
    have hcompare := Change.comparison_between current.name had column
    rw [Table.classify_of_column?_eq_some hcolumn, if_neg hhas]
    generalize Change.between current.name had column = result at hcompare
    cases hcompare <;> rfl

theorem filterMap_addition?_stepsOf (h : old.table? table.name = some current) :
    (old.stepsOf table).filterMap Step.addition? = current.additionsTo table := by
  simp only [stepsOf, findingsOf, h, List.filterMap_map, List.filterMap_filterMap,
    Function.comp_def, addition?_classify]
  rw [Table.additionsTo, ← List.filterMap_eq_map, List.filterMap_filter]
  refine List.filterMap_congr fun column _ => ?_
  simp

/-- Of the columns that a migration adds, those of one table come from its own columns. -/
theorem filter_additions {new : Schema} (h : (Plan.between old new).failure = none)
    (hn : new.tableNames.Nodup) (ht : table ∈ new.tables) :
    (old.additions new).filter (·.table = table.name)
      = (old.stepsOf table).filterMap Step.addition? := by
  have htable : ∀ other, ∀ addition ∈ (old.stepsOf other).filterMap Step.addition?,
      addition.table = other.name := by
    intro other addition ha
    obtain ⟨step, hstep, hs⟩ := List.mem_filterMap.mp ha
    have htarget := target_of_mem_stepsOf hstep
    cases step with
    | add name column behind =>
      obtain rfl := Option.some.inj hs
      exact htarget
    | create _ => cases hs
    | modify _ => cases hs
  obtain ⟨before, after, hsplit⟩ := List.append_of_mem ht
  have hname := name_ne_of_nodup hn hsplit
  have hothers : ∀ tables : List Table, (∀ other ∈ tables, other ∈ before ++ after) →
      (tables.flatMap fun other => (old.stepsOf other).filterMap Step.addition?).filter
        (·.table = table.name) = [] := by
    intro tables hsub
    refine List.filter_eq_nil_iff.mpr fun addition ha => ?_
    obtain ⟨other, ho, hm⟩ := List.mem_flatMap.mp ha
    simpa [htable other addition hm] using hname other (hsub other ho)
  have hself : ((old.stepsOf table).filterMap Step.addition?).filter (·.table = table.name)
      = (old.stepsOf table).filterMap Step.addition? :=
    List.filter_eq_self.mpr fun addition ha => by simp [htable table addition ha]
  rw [additions, steps_between h, List.filterMap_flatMap, hsplit, List.flatMap_append,
    List.flatMap_cons, List.filter_append, List.filter_append, hself,
    hothers before fun other ho => List.mem_append_left _ ho,
    hothers after fun other ho => List.mem_append_right _ ho, List.nil_append, List.append_nil]

end Schema

/-- What the statements of a script that add columns do, carried out one after the other. -/
structure Script.Extends (script : Script) (old new : Schema) : Prop where
  /-- The statements are those that add the columns of the migration. -/
  adds : script.adds = (old.additions new).map Addition.text
  /-- The statements of a table that is in both schemas do not fail. They leave the columns that it
  had where they were, and behind them come those that only the new schema has: in the opposite
  order, or in their own order if the table had no columns. -/
  placed : ∀ table ∈ new.tables, ∀ current, old.table? table.name = some current →
    Addition.carryOutAll? current.columnNames
        ((old.additions new).filter (·.table = table.name))
      = some (current.columnNames
          ++ if current.columnNames = [] then table.newNames current
            else (table.newNames current).reverse)
  /-- No column comes twice. -/
  distinct : ∀ table ∈ new.tables, ∀ current, old.table? table.name = some current →
    (current.columnNames ++ table.newNames current).Nodup

/-- **The columns that a migration adds come behind those that were there.** -/
theorem Dump.extends_of_migration {old new : Text} {script : Script}
    (h : Dump.migration old new = .ok script) :
    script.Extends (Schema.ofDump old) (Schema.ofDump new) := by
  obtain ⟨hclear, -⟩ := Plan.script_eq_ok.mp h
  have hnames : ∀ table ∈ (Schema.ofDump new).tables, table.columnNames.Nodup := fun _ ht =>
    Schema.nodup_columnNames_ofEvents ht
  have hcurrent : ∀ name current, (Schema.ofDump old).table? name = some current →
      current.columnNames.Nodup := fun _ _ hc =>
    Schema.nodup_columnNames_ofEvents (List.mem_of_find?_eq_some hc)
  refine ⟨Schema.adds_of_migration h, ?_, ?_⟩
  · intro table ht current hc
    rw [Schema.filter_additions hclear (Schema.nodup_tableNames_ofEvents _) ht,
      Schema.filterMap_addition?_stepsOf hc]
    exact Table.carryOutAll?_additionsTo (hcurrent _ _ hc) (hnames table ht)
  · intro table ht current hc
    exact Table.nodup_append_newNames (hcurrent _ _ hc) (hnames table ht)

/-- A dump with a table of one column and a table without columns. -/
def Dump.narrowTables : Text :=
  "CREATE TABLE `t` (\n`a` x\n);\nCREATE TABLE `e` (\n);".toList

/-- A dump with two more columns in each, around the one that was there. -/
def Dump.wideTables : Text :=
  "CREATE TABLE `t` (\n`b` x\n`a` y\n`c` x\n);\nCREATE TABLE `e` (\n`b` x\n`c` x\n);".toList

theorem Dump.extends_of_migration_wideTables :
    ∃ script, Dump.migration narrowTables wideTables = .ok script
      ∧ script.Extends (Schema.ofDump narrowTables) (Schema.ofDump wideTables) := by
  have hclear : (Plan.between (Schema.ofDump narrowTables) (Schema.ofDump wideTables)).failure
      = none := by
    decide +kernel
  have hscript := Plan.script_eq_ok.mpr ⟨hclear, rfl⟩
  exact ⟨_, hscript, Dump.extends_of_migration hscript⟩

end SchemaGrowth
