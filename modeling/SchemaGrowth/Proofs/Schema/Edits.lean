import Mathlib.Data.List.Infix
import SchemaGrowth.Proofs.Dump.History

/-!
# Schemas under edits

A schema changes in two ways: a table that was built on its own is inserted whole, or the table of a
name is extended in place by a column or a line. `Edited` says what one edit does, and what it
leaves alone. From it follows what holds after any run of edits (`edits_keep`): names stay distinct,
what was there keeps its place, and a table holds what was written to it since it was last inserted.
-/

namespace SchemaGrowth

/-! ## Tables and their parts -/

/-- What a table is built from. -/
inductive Table.Part where
  | column (column : Column)
  | alterLine (line : Text)
  deriving DecidableEq

namespace Table

/-- The column that a part declares. -/
def Part.column? : Part → Option Column
  | column declared => some declared
  | alterLine _ => none

/-- The line that a part holds. -/
def Part.alterLine? : Part → Option Text
  | column _ => none
  | alterLine line => some line

/-- The columns among some parts, once for each declaration. -/
def columnsIn (parts : List Part) : List Column :=
  parts.filterMap Part.column?

/-- The lines among some parts. -/
def linesIn (parts : List Part) : List Text :=
  parts.filterMap Part.alterLine?

/-- A table with one more part. -/
def add (table : Table) : Part → Table
  | .column column => table.setColumn column
  | .alterLine line => table.addAlterLine line

/-- A table with more parts, added in their order. -/
def extend (table : Table) (parts : List Part) : Table :=
  parts.foldl add table

/-- A table that is built on its own. -/
def build (name : Text) (parts : List Part) : Table :=
  (empty name).extend parts

@[simp] theorem name_add (table : Table) (part : Part) : (table.add part).name = table.name := by
  cases part <;> rfl

theorem extend_append (table : Table) (first second : List Part) :
    table.extend (first ++ second) = (table.extend first).extend second := by
  simp [extend]

/-- All of a table after some parts were added: columns are put by their names, and lines come
last. -/
theorem extend_eq (table : Table) (parts : List Part) :
    table.extend parts
      = ⟨table.name,
        (columnsIn parts).foldl (fun columns c => Keyed.put Column.name c columns) table.columns,
        table.alterLines ++ linesIn parts⟩ := by
  induction parts generalizing table with
  | nil => simp [extend, columnsIn, linesIn]
  | cons part rest ih =>
    rw [extend, List.foldl_cons, ← extend, ih]
    cases part with
    | column column => rfl
    | alterLine line => exact congrArg (Table.mk _ _) (List.append_assoc _ [line] _)

@[simp] theorem name_extend (table : Table) (parts : List Part) :
    (table.extend parts).name = table.name := by
  rw [extend_eq]

@[simp] theorem name_build (name : Text) (parts : List Part) : (build name parts).name = name :=
  name_extend (empty name) parts

/-- Of the columns of a name, the one that was added last is read. -/
theorem column?_extend (table : Table) (parts : List Part) (name : Text) :
    (table.extend parts).column? name
      = (Keyed.get? Column.name name (columnsIn parts).reverse).or (table.column? name) := by
  rw [extend_eq, column?, Keyed.get?_foldl_put, ← column?]

theorem column?_build (table : Text) (parts : List Part) (name : Text) :
    (build table parts).column? name
      = Keyed.get? Column.name name (columnsIn parts).reverse := by
  rw [build, column?_extend]
  exact Option.or_none

theorem nodup_columnNames_add {table : Table} (h : table.columnNames.Nodup) (part : Part) :
    (table.add part).columnNames.Nodup := by
  cases part with
  | column column => exact nodup_columnNames_setColumn h column
  | alterLine line => exact h

theorem nodup_columnNames_extend {table : Table} (h : table.columnNames.Nodup)
    (parts : List Part) : (table.extend parts).columnNames.Nodup := by
  induction parts generalizing table with
  | nil => exact h
  | cons part rest ih => exact ih (nodup_columnNames_add h part)

theorem nodup_columnNames_build (name : Text) (parts : List Part) :
    (build name parts).columnNames.Nodup := by
  have hempty : (empty name).columnNames.Nodup := List.nodup_nil
  exact nodup_columnNames_extend hempty parts

/-- The columns that are there keep their places. -/
theorem columnNames_prefix_add (table : Table) (part : Part) :
    table.columnNames <+: (table.add part).columnNames := by
  cases part with
  | column column =>
    by_cases h : column.name ∈ table.columnNames
    · rw [add, columnNames_setColumn_of_mem h]
    · rw [add, columnNames_setColumn_of_not_mem h]
      exact List.prefix_append _ _
  | alterLine line => exact List.prefix_refl _

/-- Just the tables whose columns have distinct names can be built. So a changed copy of a table of
a schema can be inserted, too. -/
theorem exists_build_iff {table : Table} :
    (∃ parts, table = build table.name parts) ↔ table.columnNames.Nodup := by
  constructor
  · rintro ⟨parts, h⟩
    rw [h]
    exact nodup_columnNames_build _ _
  · intro h
    have hcolumns : columnsIn (table.columns.map .column ++ table.alterLines.map .alterLine)
        = table.columns := by
      simp [columnsIn, List.filterMap_map, Function.comp_def, Part.column?]
    have hlines : linesIn (table.columns.map .column ++ table.alterLines.map .alterLine)
        = table.alterLines := by
      simp [linesIn, List.filterMap_map, Function.comp_def, Part.alterLine?]
    refine ⟨table.columns.map .column ++ table.alterLines.map .alterLine, ?_⟩
    rw [build, extend_eq, hcolumns, hlines]
    simp only [empty, Keyed.foldl_put_of_nodup h, List.nil_append]

end Table

/-! ## Edits -/

namespace Schema

open Table

/-- A change of a schema. -/
inductive Edit where
  /-- A table that was built on its own is inserted. -/
  | insert (table : Text) (parts : List Part)
  /-- The table of a name is extended, if there is one. -/
  | extend (table : Text) (part : Part)
  deriving DecidableEq

namespace Edit

/-- The name of the table that an edit changes. -/
def table : Edit → Text
  | insert table _ => table
  | extend table _ => table

/-- Whether an edit inserts a table of a name. -/
def Inserts (name : Text) : Edit → Prop
  | insert table _ => table = name
  | extend _ _ => False

/-- The part that an edit adds to the table of a name. -/
def partFor? (name : Text) : Edit → Option Part
  | insert _ _ => none
  | extend table part => if table = name then some part else none

end Edit

/-- The parts that edits add to the table of a name. -/
def partsFor (name : Text) (edits : List Edit) : List Part :=
  edits.filterMap (Edit.partFor? name)

theorem partsFor_concat_insert (name table : Text) (edits : List Edit) (parts : List Part) :
    partsFor name (edits ++ [.insert table parts]) = partsFor name edits := by
  rw [partsFor, List.filterMap_append]
  exact List.append_nil _

theorem partsFor_concat_extend (name : Text) (edits : List Edit) (part : Part) :
    partsFor name (edits ++ [.extend name part]) = partsFor name edits ++ [part] := by
  simp [partsFor, Edit.partFor?]

theorem partsFor_concat_extend_ne {name table : Text} (h : table ≠ name) (edits : List Edit)
    (part : Part) : partsFor name (edits ++ [.extend table part]) = partsFor name edits := by
  simp [partsFor, Edit.partFor?, h]

/-- The schema after an edit. -/
def edit (schema : Schema) : Edit → Schema
  | .insert table parts => schema.insert (.build table parts)
  | .extend table part => schema.modify table (·.add part)

/-- The schema after some edits. -/
def after (schema : Schema) (edits : List Edit) : Schema :=
  edits.foldl edit schema

/-- The column of a name in the table of a name. -/
def column? (schema : Schema) (table name : Text) : Option Column :=
  (schema.table? table).bind (·.column? name)

theorem after_concat (schema : Schema) (edits : List Edit) (edit : Edit) :
    schema.after (edits ++ [edit]) = (schema.after edits).edit edit := by
  simp [after]

theorem after_append (schema : Schema) (first second : List Edit) :
    schema.after (first ++ second) = (schema.after first).after second := by
  simp [after]

/-! ### One edit -/

theorem table?_edit_insert (schema : Schema) (name : Text) (parts : List Part) :
    (schema.edit (.insert name parts)).table? name = some (.build name parts) := by
  have h := table?_insert_self schema (.build name parts)
  rwa [name_build] at h

theorem table?_edit_extend (schema : Schema) (name : Text) (part : Part) :
    (schema.edit (.extend name part)).table? name = (schema.table? name).map (·.add part) :=
  table?_modify_self (fun t => t.name_add part) schema name

/-- An edit leaves the tables of other names alone. -/
theorem table?_edit_ne {edit : Edit} {name : Text} (h : edit.table ≠ name) (schema : Schema) :
    (schema.edit edit).table? name = schema.table? name := by
  cases edit with
  | insert table parts =>
    refine table?_insert_ne ?_ schema
    rwa [name_build]
  | extend table part => exact table?_modify_ne (fun t => t.name_add part) h schema

/-- Where there is no table to extend, nothing changes. -/
theorem edit_extend_of_none {schema : Schema} {name : Text} (h : schema.table? name = none)
    (part : Part) : schema.edit (.extend name part) = schema := by
  have hkept := Keyed.modifyFirst_append (Keyed.get?_eq_none_iff.mp h) (·.add part) []
  rw [List.append_nil] at hkept
  exact congrArg Schema.mk (hkept.trans (List.append_nil _))

/-- The tables that are there keep their places. -/
theorem tableNames_prefix_edit (schema : Schema) (edit : Edit) :
    schema.tableNames <+: (schema.edit edit).tableNames := by
  cases edit with
  | insert table parts =>
    by_cases h : (Table.build table parts).name ∈ schema.tableNames
    · rw [Schema.edit, tableNames_insert_of_mem h]
    · rw [Schema.edit, tableNames_insert_of_not_mem h]
      exact List.prefix_append _ _
  | extend table part =>
    rw [Schema.edit, tableNames_modify (fun t => t.name_add part)]

/-- What an edit does to a schema. -/
structure Edited (before : Schema) (edit : Edit) (after : Schema) : Prop where
  /-- The tables that are there keep their places. -/
  tableNames : before.tableNames <+: after.tableNames
  /-- So do the columns of every table that is not replaced. -/
  columnNames : ∀ name table, before.table? name = some table → ¬ edit.Inserts name →
    ∃ now, after.table? name = some now ∧ table.columnNames <+: now.columnNames
  /-- A table that is inserted is read. -/
  inserted : ∀ name parts, edit = .insert name parts →
    after.table? name = some (.build name parts)
  /-- A column that is set is read, and all else of its table is unchanged. -/
  columnSet : ∀ name table column, before.table? name = some table →
    edit = .extend name (.column column) →
    ∃ now, after.table? name = some now ∧ now.column? column.name = some column
      ∧ (∀ other, other ≠ column.name → now.column? other = table.column? other)
      ∧ now.alterLines = table.alterLines
  /-- A line that is appended comes last, and all else of its table is unchanged. -/
  lineAppended : ∀ name table line, before.table? name = some table →
    edit = .extend name (.alterLine line) →
    after.table? name = some { table with alterLines := table.alterLines ++ [line] }
  /-- A table that is not there is not extended. -/
  missing : ∀ name part, before.table? name = none → edit = .extend name part → after = before
  /-- All other tables are unchanged. -/
  others : ∀ name, edit.table ≠ name → after.table? name = before.table? name

theorem edited (schema : Schema) (edit : Edit) : Edited schema edit (schema.edit edit) := by
  refine ⟨tableNames_prefix_edit schema edit, ?_, ?_, ?_, ?_, ?_, ?_⟩
  · intro name table ht hkept
    by_cases hname : edit.table = name
    · cases edit with
      | insert other parts => exact absurd hname hkept
      | extend other part =>
        obtain rfl : other = name := hname
        refine ⟨table.add part, ?_, columnNames_prefix_add table part⟩
        rw [table?_edit_extend, ht, Option.map_some]
    · exact ⟨table, (table?_edit_ne hname schema).trans ht, List.prefix_refl _⟩
  · rintro name parts rfl
    exact table?_edit_insert schema name parts
  · rintro name table column ht rfl
    refine ⟨table.setColumn column, ?_, column?_setColumn_self table column, ?_, rfl⟩
    · rw [table?_edit_extend, ht]
      rfl
    · exact fun other ho => column?_setColumn_ne ho.symm table
  · rintro name table line ht rfl
    rw [table?_edit_extend, ht]
    rfl
  · rintro name part ht rfl
    exact edit_extend_of_none ht part
  · exact fun name hname => table?_edit_ne hname schema

/-! ### Distinct names -/

/-- A schema whose tables have distinct names, and each of whose tables has columns with distinct
names. -/
structure WellNamed (schema : Schema) : Prop where
  tables : schema.tableNames.Nodup
  columns : ∀ table ∈ schema.tables, table.columnNames.Nodup

theorem WellNamed.empty : WellNamed empty :=
  ⟨List.nodup_nil, by simp [Schema.empty]⟩

/-- The schema of a dump is well named. -/
theorem wellNamed_ofDump (dump : Text) : (ofDump dump).WellNamed :=
  ⟨nodup_tableNames_ofEvents _, fun _ ht => nodup_columnNames_ofEvents ht⟩

/-- An edit keeps a schema well named. -/
theorem WellNamed.edit {schema : Schema} (h : schema.WellNamed) (edit : Edit) :
    (schema.edit edit).WellNamed := by
  have hnames : (schema.edit edit).tableNames.Nodup := by
    cases edit with
    | insert table parts => exact nodup_tableNames_insert h.tables _
    | extend table part =>
      rw [Schema.edit, tableNames_modify (fun t => t.name_add part)]
      exact h.tables
  refine ⟨hnames, fun table ht => ?_⟩
  -- The table is read by its name, and what is read was written or was there before.
  have hread : (schema.edit edit).table? table.name = some table := Keyed.get?_of_mem hnames ht
  by_cases hname : edit.table = table.name
  · cases edit with
    | insert name parts =>
      rw [← show name = table.name from hname, table?_edit_insert] at hread
      obtain rfl := Option.some.inj hread
      exact nodup_columnNames_build name parts
    | extend name part =>
      rw [← show name = table.name from hname, table?_edit_extend] at hread
      obtain ⟨current, hc, rfl⟩ := Option.map_eq_some_iff.mp hread
      exact nodup_columnNames_add (h.columns current (List.mem_of_find?_eq_some hc)) part
  · rw [table?_edit_ne hname] at hread
    exact h.columns table (List.mem_of_find?_eq_some hread)

theorem WellNamed.after {schema : Schema} (h : schema.WellNamed) (edits : List Edit) :
    (schema.after edits).WellNamed := by
  induction edits using List.reverseRecOn with
  | nil => exact h
  | append_singleton edits edit ih =>
    rw [after_concat]
    exact ih.edit edit

/-! ### Runs of edits -/

/-- A table that is not inserted has what it had and what was added to it. -/
theorem table?_after_of_not_inserts {name : Text} {edits : List Edit}
    (h : ∀ edit ∈ edits, ¬ edit.Inserts name) (schema : Schema) :
    (schema.after edits).table? name
      = (schema.table? name).map (·.extend (partsFor name edits)) := by
  induction edits using List.reverseRecOn with
  | nil => simp [after, partsFor, Table.extend]
  | append_singleton edits edit ih =>
    have hbefore := ih fun e he => h e (List.mem_append_left _ he)
    have hedit := h edit (by simp)
    rw [after_concat]
    cases edit with
    | insert table parts =>
      have hname : (Edit.insert table parts).table ≠ name := hedit
      rw [table?_edit_ne hname, hbefore, partsFor_concat_insert]
    | extend table part =>
      by_cases hname : table = name
      · subst hname
        rw [table?_edit_extend, hbefore, Option.map_map, partsFor_concat_extend]
        simp [Function.comp_def, Table.extend]
      · have hother : (Edit.extend table part).table ≠ name := hname
        rw [table?_edit_ne hother, hbefore, partsFor_concat_extend_ne hname]

/-- A table that is inserted has what it was built from and what was added to it behind that. -/
theorem table?_after_insert {name : Text} {later : List Edit}
    (h : ∀ edit ∈ later, ¬ edit.Inserts name) (schema : Schema) (earlier : List Edit)
    (parts : List Part) :
    (schema.after (earlier ++ .insert name parts :: later)).table? name
      = some (.build name (parts ++ partsFor name later)) := by
  have hsplit : earlier ++ .insert name parts :: later
      = (earlier ++ [.insert name parts]) ++ later := by
    simp
  rw [hsplit, after_append, after_concat, table?_after_of_not_inserts h, table?_edit_insert,
    Option.map_some, build, build, extend_append]

/-- Where a run of edits starts: without any table, or with the tables of a dump. -/
inductive Source where
  | nothing
  | dump (text : Text)

/-- The schema at the start of a run. -/
def Source.schema : Source → Schema
  | nothing => empty
  | dump text => ofDump text

theorem Source.wellNamed (source : Source) : source.schema.WellNamed := by
  cases source with
  | nothing => exact .empty
  | dump text => exact wellNamed_ofDump text

/-- **What every run of edits keeps.** The names of tables are distinct, and so are those of the
columns of a table. The next edit does what it says and leaves all else alone. A table that was
never inserted is the one of the start with all that was added, and otherwise the one that was
inserted last with all that was added behind that; and of its columns of a name, the one that was
written last is read. -/
theorem edits_keep (source : Source) (edits : List Edit) :
    (source.schema.after edits).WellNamed
    ∧ (∀ edit, Edited (source.schema.after edits) edit (source.schema.after (edits ++ [edit])))
    ∧ (∀ name, (∀ edit ∈ edits, ¬ edit.Inserts name) →
        (source.schema.after edits).table? name
            = (source.schema.table? name).map (·.extend (partsFor name edits))
          ∧ ∀ column, (source.schema.after edits).column? name column
            = (source.schema.table? name).bind fun table =>
                (Keyed.get? Column.name column (columnsIn (partsFor name edits)).reverse).or
                  (table.column? column))
    ∧ (∀ name earlier parts later, edits = earlier ++ .insert name parts :: later →
        (∀ edit ∈ later, ¬ edit.Inserts name) →
        (source.schema.after edits).table? name
            = some (.build name (parts ++ partsFor name later))
          ∧ ∀ column, (source.schema.after edits).column? name column
            = Keyed.get? Column.name column (columnsIn (parts ++ partsFor name later)).reverse) := by
  refine ⟨source.wellNamed.after edits, ?_, ?_, ?_⟩
  · intro edit
    rw [after_concat]
    exact edited _ edit
  · intro name hname
    have htable := table?_after_of_not_inserts hname source.schema
    refine ⟨htable, fun column => ?_⟩
    rw [column?, htable, Option.bind_map]
    exact Option.bind_congr fun table _ => column?_extend table _ column
  · rintro name earlier parts later rfl hlater
    have htable := table?_after_insert hlater source.schema earlier parts
    refine ⟨htable, fun column => ?_⟩
    rw [column?, htable, Option.bind_some, column?_build]

/-- A table that is inserted again keeps its place, and nothing of what it had. -/
example :
    let column (c : Char) : Column := ⟨[c], ['x']⟩
    empty.after
        [.insert ['a'] [.column (column 'p')], .extend ['b'] (.column (column 'q')),
          .insert ['b'] [], .insert ['a'] [.alterLine ['l']], .extend ['a'] (.column (column 'q'))]
      = ⟨[⟨['a'], [column 'q'], [['l']]⟩, ⟨['b'], [], []⟩]⟩ := by
  decide

end Schema

end SchemaGrowth
