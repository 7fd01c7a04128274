import SchemaGrowth.Keyed
import SchemaGrowth.Text.Basic

/-!
# Schemas

A schema holds the tables of one dump in the order in which they first appear. A table holds its
columns in the order of their declaration, and the lines of the `ALTER TABLE` blocks that followed
it. Definitions are kept as they were written.
-/

namespace SchemaGrowth

/-! ## Columns and tables -/

/-- A column: its name, and all that was declared of it after the name. -/
structure Column where
  name : Text
  definition : Text
  deriving DecidableEq

/-- A table. -/
structure Table where
  name : Text
  columns : List Column
  /-- The lines of the `ALTER TABLE` blocks of the table, as written and without their headers. -/
  alterLines : List Text
  deriving DecidableEq

namespace Table

/-- The table of a name that has no columns and no lines yet. -/
def empty (name : Text) : Table :=
  ⟨name, [], []⟩

/-- Declares a column. A name declared again keeps its place and takes the new definition. -/
def setColumn (table : Table) (column : Column) : Table :=
  { table with columns := Keyed.put Column.name column table.columns }

/-- Appends a line of an `ALTER TABLE` block. -/
def addAlterLine (table : Table) (line : Text) : Table :=
  { table with alterLines := table.alterLines ++ [line] }

/-- The column of a name. -/
def column? (table : Table) (name : Text) : Option Column :=
  Keyed.get? Column.name name table.columns

/-- The names of the columns in the order of their declaration. -/
def columnNames (table : Table) : List Text :=
  table.columns.map Column.name

/-- The name of the column declared last. -/
def lastColumn? (table : Table) : Option Text :=
  table.columnNames.getLast?

@[simp] theorem name_setColumn (table : Table) (column : Column) :
    (table.setColumn column).name = table.name := rfl

@[simp] theorem name_addAlterLine (table : Table) (line : Text) :
    (table.addAlterLine line).name = table.name := rfl

theorem column?_setColumn_self (table : Table) (column : Column) :
    (table.setColumn column).column? column.name = some column :=
  Keyed.get?_put_self Column.name column table.columns

theorem column?_setColumn_ne {column : Column} {name : Text} (h : column.name ≠ name)
    (table : Table) : (table.setColumn column).column? name = table.column? name :=
  Keyed.get?_put_ne h table.columns

/-- A column declared again keeps its place. -/
theorem columnNames_setColumn_of_mem {table : Table} {column : Column}
    (h : column.name ∈ table.columnNames) :
    (table.setColumn column).columnNames = table.columnNames :=
  Keyed.map_put_of_mem h

/-- A new column comes last. -/
theorem columnNames_setColumn_of_not_mem {table : Table} {column : Column}
    (h : column.name ∉ table.columnNames) :
    (table.setColumn column).columnNames = table.columnNames ++ [column.name] :=
  Keyed.map_put_of_not_mem h

/-- Distinct names stay distinct. -/
theorem nodup_columnNames_setColumn {table : Table} (h : table.columnNames.Nodup)
    (column : Column) : (table.setColumn column).columnNames.Nodup :=
  Keyed.nodup_map_put h column

end Table

/-! ## Schemas -/

/-- The tables of one dump, in order. -/
structure Schema where
  tables : List Table
  deriving DecidableEq

namespace Schema

/-- The schema without tables. -/
def empty : Schema :=
  ⟨[]⟩

/-- Whether the schema has no tables. -/
def isEmpty (schema : Schema) : Bool :=
  schema.tables.isEmpty

/-- Inserts a table. It takes the place of a table of the same name, or else comes last. -/
def insert (schema : Schema) (table : Table) : Schema :=
  ⟨Keyed.put Table.name table schema.tables⟩

/-- Changes the table of a name, if there is one. -/
def modify (schema : Schema) (name : Text) (f : Table → Table) : Schema :=
  ⟨Keyed.modifyFirst Table.name name f schema.tables⟩

/-- The table of a name. -/
def table? (schema : Schema) (name : Text) : Option Table :=
  Keyed.get? Table.name name schema.tables

/-- The names of the tables, in order. -/
def tableNames (schema : Schema) : List Text :=
  schema.tables.map Table.name

@[simp] theorem tableNames_empty : empty.tableNames = [] := rfl

theorem table?_insert_self (schema : Schema) (table : Table) :
    (schema.insert table).table? table.name = some table :=
  Keyed.get?_put_self Table.name table schema.tables

theorem table?_insert_ne {table : Table} {name : Text} (h : table.name ≠ name) (schema : Schema) :
    (schema.insert table).table? name = schema.table? name :=
  Keyed.get?_put_ne h schema.tables

/-- A table inserted again keeps its place. -/
theorem tableNames_insert_of_mem {schema : Schema} {table : Table}
    (h : table.name ∈ schema.tableNames) : (schema.insert table).tableNames = schema.tableNames :=
  Keyed.map_put_of_mem h

/-- A new table comes last. -/
theorem tableNames_insert_of_not_mem {schema : Schema} {table : Table}
    (h : table.name ∉ schema.tableNames) :
    (schema.insert table).tableNames = schema.tableNames ++ [table.name] :=
  Keyed.map_put_of_not_mem h

theorem tableNames_modify {f : Table → Table} (hf : ∀ t, (f t).name = t.name) (schema : Schema)
    (name : Text) : (schema.modify name f).tableNames = schema.tableNames :=
  Keyed.map_modifyFirst hf name schema.tables

/-- Distinct names stay distinct. -/
theorem nodup_tableNames_insert {schema : Schema} (h : schema.tableNames.Nodup) (table : Table) :
    (schema.insert table).tableNames.Nodup :=
  Keyed.nodup_map_put h table

theorem table?_modify_self {f : Table → Table} (hf : ∀ t, (f t).name = t.name) (schema : Schema)
    (name : Text) : (schema.modify name f).table? name = (schema.table? name).map f :=
  Keyed.get?_modifyFirst_self hf schema.tables

theorem table?_modify_ne {f : Table → Table} (hf : ∀ t, (f t).name = t.name) {name other : Text}
    (h : name ≠ other) (schema : Schema) :
    (schema.modify name f).table? other = schema.table? other :=
  Keyed.get?_modifyFirst_ne hf h schema.tables

end Schema

end SchemaGrowth
