import SchemaGrowth.Dump.Line
import SchemaGrowth.Text.Lines

/-!
# Reading a dump

The schema of a dump follows from what its lines say, one after another. Reading never fails: a line
that says nothing is passed over, and so is a line of an `ALTER TABLE` block for a table that the
dump has not declared before it; `undeclared` names the tables of those lines.
-/

namespace SchemaGrowth

open Dump

namespace Schema

/-- The schema after a line said something. -/
def apply (schema : Schema) : Event → Schema
  | .created table => schema.insert (Table.empty table)
  | .column table column => schema.modify table (·.setColumn column)
  | .alterLine table line => schema.modify table (·.addAlterLine line)
  | .closed | .alterOpened _ | .ignored => schema

/-- The schema that some events build up. -/
def ofEvents (events : List Event) : Schema :=
  events.foldl apply empty

/-- The tables without a declaration for which the events hold a line, once for each such line. -/
def undeclared : Schema → List Event → List Text
  | _, [] => []
  | schema, .alterLine table line :: rest =>
    let later := undeclared (schema.apply (.alterLine table line)) rest
    if (schema.table? table).isNone then table :: later else later
  | schema, event :: rest => undeclared (schema.apply event) rest

end Schema

/-- What the lines of a dump say. -/
def Dump.events (dump : Text) : List Event :=
  Place.outside.events dump.lines

/-- The schema of a dump. -/
def Schema.ofDump (dump : Text) : Schema :=
  ofEvents (events dump)

theorem Schema.ofEvents_append (first second : List Event) :
    ofEvents (first ++ second) = second.foldl apply (ofEvents first) := by
  simp [ofEvents]

end SchemaGrowth
