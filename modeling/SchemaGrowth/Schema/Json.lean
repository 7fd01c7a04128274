import SchemaGrowth.Json
import SchemaGrowth.Schema.Basic

/-!
# Schemas as JSON

The JSON text of a schema. Members stand in the order in which the parts of a table are declared.
-/

namespace SchemaGrowth

open Json

/-- The JSON text of a column. -/
def Column.json (layout : Layout) (depth : Nat) (column : Column) : Text :=
  layout.object depth
    [ ("name".toList, string column.name),
      ("definition".toList, string column.definition) ]

/-- The JSON text of a table. -/
def Table.json (layout : Layout) (depth : Nat) (table : Table) : Text :=
  layout.object depth
    [ ("name".toList, string table.name),
      ("columns".toList,
        layout.array (depth + 1) (table.columns.map (Column.json layout (depth + 2)))),
      ("trailing_alter_lines".toList,
        layout.array (depth + 1) (table.alterLines.map string)) ]

/-- The JSON text of a schema. -/
def Schema.json (layout : Layout) (schema : Schema) : Text :=
  layout.object 0
    [("tables".toList, layout.array 1 (schema.tables.map (Table.json layout 2)))]

end SchemaGrowth
