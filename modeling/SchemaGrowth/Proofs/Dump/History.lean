import Mathlib.Data.List.DropRight
import SchemaGrowth.Proofs.Dump.Rule
import SchemaGrowth.Proofs.FirstSeen

/-!
# What a schema keeps of its dump

Reading a dump is a fold over what its lines say. This module reads the result off the events
without a fold: `tables_ofEvents` gives the tables of a schema in the order of their first
creation, each with the columns and lines that stand behind its last one. `ofDump_collects` adds
that no column is ever lost for want of its table, and which lines of `ALTER TABLE` blocks are.
-/

namespace SchemaGrowth

namespace Dump

/-! ## Views of the events -/

namespace Event

/-- The table that an event creates. -/
def created? : Event → Option Text
  | .created table => some table
  | _ => none

/-- The column that an event declares in a table. -/
def columnOf? (table : Text) : Event → Option Column
  | .column owner declared => if owner = table then some declared else none
  | _ => none

/-- The line of an `ALTER TABLE` block that an event holds for a table. -/
def alterLineOf? (table : Text) : Event → Option Text
  | .alterLine owner line => if owner = table then some line else none
  | _ => none

variable {table : Text} {event : Event}

theorem columnOf?_eq_some {declared : Column} :
    event.columnOf? table = some declared ↔ event = .column table declared := by
  cases event <;> simp [columnOf?]

theorem alterLineOf?_eq_some {line : Text} :
    event.alterLineOf? table = some line ↔ event = .alterLine table line := by
  cases event <;> simp [alterLineOf?]

end Event

/-- The names of the created tables, once for each creation. -/
def createdNames (events : List Event) : List Text :=
  events.filterMap Event.created?

/-- The columns that are declared in a table. -/
def columnsOf (table : Text) (events : List Event) : List Column :=
  events.filterMap (Event.columnOf? table)

/-- The lines of the `ALTER TABLE` blocks of a table. -/
def alterLinesOf (table : Text) (events : List Event) : List Text :=
  events.filterMap (Event.alterLineOf? table)

/-- The events behind the last creation of a table: all events if it was never created. -/
def sinceCreated (table : Text) (events : List Event) : List Event :=
  events.rtakeWhile (· ≠ .created table)

theorem columnsOf_append (table : Text) (first second : List Event) :
    columnsOf table (first ++ second) = columnsOf table first ++ columnsOf table second :=
  List.filterMap_append

theorem sinceCreated_suffix (table : Text) (events : List Event) :
    sinceCreated table events <:+ events :=
  List.rtakeWhile_suffix _ events

theorem not_mem_sinceCreated (table : Text) (events : List Event) :
    .created table ∉ sinceCreated table events := by
  intro h
  simpa using List.mem_rtakeWhile_imp h

theorem mem_createdNames {events : List Event} {name : Text} :
    name ∈ createdNames events ↔ .created name ∈ events := by
  constructor
  · intro h
    obtain ⟨event, he, hn⟩ := List.mem_filterMap.mp h
    cases event with
    | created table =>
      obtain rfl : table = name := by simpa [Event.created?] using hn
      exact he
    | _ => simp [Event.created?] at hn
  · intro h
    exact List.mem_filterMap.mpr ⟨.created name, h, rfl⟩

/-- Only a creation starts the events of a table anew. -/
theorem sinceCreated_append (table : Text) (before after : List Event) :
    sinceCreated table (before ++ after)
      = if .created table ∈ after then sinceCreated table after
        else sinceCreated table before ++ after := by
  induction after using List.reverseRecOn with
  | nil => simp
  | append_singleton after event ih =>
    rw [sinceCreated, ← List.append_assoc, List.rtakeWhile_concat, ← sinceCreated, ih]
    by_cases he : event = .created table
    · simp [he, sinceCreated]
    · by_cases ha : Event.created table ∈ after
      · simp [he, ha, Ne.symm he, sinceCreated]
      · simp [he, ha, Ne.symm he]

end Dump

open Dump

/-! ## Tables and schemas of events -/

/-- The table that some events build up from nothing. -/
def Table.collected (name : Text) (events : List Event) : Table :=
  ⟨name, (columnsOf name events).foldl (fun columns c => Keyed.put Column.name c columns) [],
    alterLinesOf name events⟩

namespace Table

/-- The columns stand in the order of their first declaration. -/
theorem columnNames_collected (name : Text) (events : List Event) :
    (collected name events).columnNames = ((columnsOf name events).map Column.name).eraseDups :=
  Keyed.map_foldl_put Column.name (columnsOf name events)

/-- A column has the definition that it was given last. -/
theorem column?_collected (name column : Text) (events : List Event) :
    (collected name events).column? column
      = Keyed.get? Column.name column (columnsOf name events).reverse := by
  rw [column?, collected, Keyed.get?_foldl_put]
  simp

/-- Columns are set one after another. -/
theorem foldl_setColumn (columns : List Column) (table : Table) :
    columns.foldl setColumn table
      = { table with
          columns := columns.foldl (fun cs c => Keyed.put Column.name c cs) table.columns } := by
  induction columns generalizing table with
  | nil => rfl
  | cons column rest ih => exact ih (table.setColumn column)

/-- An event of another table makes no difference. -/
theorem collected_append_cons {name : Text} {event : Event} (hc : event.columnOf? name = none)
    (hl : event.alterLineOf? name = none) (before after : List Event) :
    collected name (before ++ event :: after) = collected name (before ++ after) := by
  simp [collected, columnsOf, alterLinesOf, hc, hl]

theorem collected_column (name : Text) (events : List Event) (column : Column) :
    collected name (events ++ [.column name column]) = (collected name events).setColumn column := by
  simp [collected, columnsOf, alterLinesOf, Event.columnOf?, Event.alterLineOf?, setColumn]

theorem collected_alterLine (name : Text) (events : List Event) (line : Text) :
    collected name (events ++ [.alterLine name line])
      = (collected name events).addAlterLine line := by
  have hc : Event.columnOf? name (.alterLine name line) = none := rfl
  simp [collected, columnsOf, alterLinesOf, List.filterMap_cons_none hc, Event.alterLineOf?,
    addAlterLine]

end Table

namespace Schema

theorem ofEvents_concat (events : List Event) (event : Event) :
    ofEvents (events ++ [event]) = (ofEvents events).apply event := by
  simp [ofEvents]

/-- Only a creation changes the names of the tables. -/
theorem tableNames_apply_of_not_created {event : Event} (h : event.created? = none)
    (schema : Schema) : (schema.apply event).tableNames = schema.tableNames := by
  cases event with
  | created table => simp [Event.created?] at h
  | column table column => exact tableNames_modify (fun t => t.name_setColumn column) schema table
  | alterLine table line => exact tableNames_modify (fun t => t.name_addAlterLine line) schema table
  | closed => rfl
  | alterOpened table => rfl
  | ignored => rfl

/-- The tables stand in the order of their first creation. -/
theorem tableNames_ofEvents (events : List Event) :
    (ofEvents events).tableNames = (createdNames events).eraseDups := by
  induction events using List.reverseRecOn with
  | nil => rfl
  | append_singleton events event ih =>
    rw [ofEvents_concat]
    cases hc : event.created? with
    | none =>
      have hn : createdNames (events ++ [event]) = createdNames events := by
        simp [createdNames, List.filterMap_cons_none hc]
      rw [tableNames_apply_of_not_created hc, ih, hn]
    | some table =>
      have hn : createdNames (events ++ [event]) = createdNames events ++ [table] := by
        simp [createdNames, List.filterMap_cons_some hc]
      have he : event = .created table := by
        cases event with
        | created name => exact congrArg Event.created (Option.some.inj hc)
        | _ => simp [Event.created?] at hc
      subst he
      rw [hn]
      by_cases h : table ∈ createdNames events
      · have hm : (Table.empty table).name ∈ (ofEvents events).tableNames := by
          rw [ih]
          exact List.mem_eraseDups.mpr h
        rw [apply, tableNames_insert_of_mem hm, ih]
        exact (eraseDups_concat_of_mem h).symm
      · have hm : (Table.empty table).name ∉ (ofEvents events).tableNames := by
          rw [ih]
          exact fun m => h (List.mem_eraseDups.mp m)
        rw [apply, tableNames_insert_of_not_mem hm, ih]
        exact (eraseDups_concat_of_not_mem h).symm

theorem nodup_tableNames_ofEvents (events : List Event) : (ofEvents events).tableNames.Nodup := by
  rw [tableNames_ofEvents]
  exact nodup_eraseDups _

/-- An event that is not about a table leaves it as it is. -/
theorem table?_apply_of_other {event : Event} {name : Text} (hn : event ≠ .created name)
    (hc : event.columnOf? name = none) (hl : event.alterLineOf? name = none) (schema : Schema) :
    (schema.apply event).table? name = schema.table? name := by
  cases event with
  | created table =>
    have hne : (Table.empty table).name ≠ name := fun e => hn (congrArg Event.created e)
    exact table?_insert_ne hne schema
  | column table column =>
    have hne : table ≠ name := by
      rintro rfl
      simp [Event.columnOf?] at hc
    exact table?_modify_ne (fun t => t.name_setColumn column) hne schema
  | alterLine table line =>
    have hne : table ≠ name := by
      rintro rfl
      simp [Event.alterLineOf?] at hl
    exact table?_modify_ne (fun t => t.name_addAlterLine line) hne schema
  | closed => rfl
  | alterOpened table => rfl
  | ignored => rfl

/-- A table holds what was said of it since it was last created. -/
theorem table?_ofEvents (name : Text) (events : List Event) :
    (ofEvents events).table? name
      = if .created name ∈ events then some (.collected name (sinceCreated name events))
        else none := by
  induction events using List.reverseRecOn with
  | nil => rfl
  | append_singleton events event ih =>
    rw [ofEvents_concat, sinceCreated_append]
    by_cases hn : event = .created name
    · subst hn
      simp only [List.mem_append, List.mem_singleton, or_true, if_true]
      exact (table?_insert_self (ofEvents events) (.empty name)).trans
        (congrArg some (by simp [sinceCreated, List.rtakeWhile]; rfl))
    have hm : Event.created name ∈ events ++ [event] ↔ Event.created name ∈ events := by
      simp [Ne.symm hn]
    have hs : Event.created name ∉ [event] := by
      simpa using Ne.symm hn
    rw [if_congr hm rfl rfl, if_neg hs]
    by_cases hc : event.columnOf? name = none
    · by_cases hl : event.alterLineOf? name = none
      · rw [table?_apply_of_other hn hc hl, ih, Table.collected_append_cons hc hl, List.append_nil]
      · cases event with
        | alterLine table line =>
          obtain rfl : table = name := by simpa [Event.alterLineOf?] using hl
          rw [apply, table?_modify_self (fun t => t.name_addAlterLine line), ih,
            Table.collected_alterLine]
          split <;> rfl
        | _ => simp [Event.alterLineOf?] at hl
    · cases event with
      | column table column =>
        obtain rfl : table = name := by simpa [Event.columnOf?] using hc
        rw [apply, table?_modify_self (fun t => t.name_setColumn column), ih,
          Table.collected_column]
        split <;> rfl
      | _ => simp [Event.columnOf?] at hc

/-- The tables of a schema: one for each name, in the order of the first creations, with all that
was said of it since the last one. -/
theorem tables_ofEvents (events : List Event) :
    (ofEvents events).tables
      = (createdNames events).eraseDups.map
          fun name => .collected name (sinceCreated name events) := by
  rw [← tableNames_ofEvents, tableNames, List.map_map]
  refine (List.map_id _).symm.trans (List.map_congr_left ?_)
  intro table ht
  have hg : (ofEvents events).table? table.name = some table :=
    Keyed.get?_of_mem (nodup_tableNames_ofEvents events) ht
  rw [table?_ofEvents] at hg
  split at hg
  · exact (Option.some.inj hg).symm
  · cases hg

/-- No table has two columns of one name. -/
theorem nodup_columnNames_ofEvents {events : List Event} {table : Table}
    (h : table ∈ (ofEvents events).tables) : table.columnNames.Nodup := by
  rw [tables_ofEvents] at h
  obtain ⟨name, -, rfl⟩ := List.mem_map.mp h
  rw [Table.columnNames_collected]
  exact nodup_eraseDups _

/-- Schemas with the same distinct names are the same if every table is. -/
theorem eq_of_table?_eq {first second : Schema} (h : first.tableNames.Nodup)
    (hnames : first.tableNames = second.tableNames)
    (htable : ∀ name, first.table? name = second.table? name) : first = second :=
  congrArg Schema.mk (Keyed.eq_of_get?_eq h hnames htable)

/-- Without an event that creates no table, the tables have the same names. -/
theorem tableNames_ofEvents_drop {event : Event} (h : event.created? = none)
    (before after : List Event) :
    (ofEvents (before ++ event :: after)).tableNames = (ofEvents (before ++ after)).tableNames := by
  simp [tableNames_ofEvents, createdNames, h]

/-- Without an event, a table is the same if the event does not count for it: it is about another
table, or stands before the first creation or before a later one. -/
theorem table?_ofEvents_drop {event : Event} {name : Text} {before after : List Event}
    (hcreated : event.created? = none)
    (h : .created name ∈ before → .created name ∉ after →
      event.columnOf? name = none ∧ event.alterLineOf? name = none) :
    (ofEvents (before ++ event :: after)).table? name = (ofEvents (before ++ after)).table? name := by
  have hne : Event.created name ≠ event := by
    rintro rfl
    cases hcreated
  have hcons : Event.created name ∈ event :: after ↔ Event.created name ∈ after := by
    simp [hne]
  simp only [table?_ofEvents, sinceCreated_append, List.mem_append, hcons]
  by_cases ha : Event.created name ∈ after
  · have hafter := sinceCreated_append name [event] after
    rw [if_pos ha, List.singleton_append] at hafter
    simp only [ha, or_true, if_true, hafter]
  · by_cases hb : Event.created name ∈ before
    · obtain ⟨hcolumn, hline⟩ := h hb ha
      simp only [hb, ha, true_or, if_true, if_false, Table.collected_append_cons hcolumn hline]
    · simp only [hb, ha, or_self, if_false]

theorem ofEvents_drop {event : Event} {before after : List Event} (hcreated : event.created? = none)
    (h : ∀ name, .created name ∈ before → .created name ∉ after →
      event.columnOf? name = none ∧ event.alterLineOf? name = none) :
    ofEvents (before ++ event :: after) = ofEvents (before ++ after) :=
  eq_of_table?_eq (nodup_tableNames_ofEvents _) (tableNames_ofEvents_drop hcreated before after)
    fun name => table?_ofEvents_drop hcreated (h name)

/-- A line of an `ALTER TABLE` block that no creation stands before, or that one stands behind, is
as good as not there. -/
theorem ofEvents_drop_alterLine {name line : Text} {before after : List Event}
    (h : .created name ∉ before ∨ .created name ∈ after) :
    ofEvents (before ++ .alterLine name line :: after) = ofEvents (before ++ after) := by
  refine ofEvents_drop rfl ?_
  intro table hb ha
  have hne : name ≠ table := by
    rintro rfl
    exact h.elim (fun hn => hn hb) ha
  exact ⟨rfl, if_neg hne⟩

/-- A line of an `ALTER TABLE` block between the last creation of its table and the end of the
events is kept, and in its place. -/
theorem table?_ofEvents_alterLine {name line : Text} {before after : List Event}
    (hb : .created name ∈ before) (ha : .created name ∉ after) :
    ∃ table ∈ (ofEvents (before ++ .alterLine name line :: after)).tables, table.name = name ∧
      table.alterLines
        = alterLinesOf name (sinceCreated name before) ++ line :: alterLinesOf name after := by
  have ha' : Event.created name ∉ .alterLine name line :: after := by
    simp [ha]
  have hg := table?_ofEvents name (before ++ .alterLine name line :: after)
  rw [if_pos (List.mem_append_left _ hb), sinceCreated_append, if_neg ha'] at hg
  refine ⟨_, List.mem_of_find?_eq_some hg, rfl, ?_⟩
  simp [Table.collected, alterLinesOf, Event.alterLineOf?]

end Schema

/-! ## Dumps -/

namespace Dump

/-- A body is only read behind the creation of its table. -/
def Place.Announced (events : List Event) (place : Place) : Prop :=
  ∀ table, place = .body table → .created table ∈ events

/-- Every column stands behind a creation of its table. -/
def ColumnsAnnounced (events : List Event) : Prop :=
  ∀ before table column after, events = before ++ .column table column :: after →
    .created table ∈ before

theorem ColumnsAnnounced.concat {events : List Event} {event : Event} (h : ColumnsAnnounced events)
    (he : ∀ table column, event = .column table column → .created table ∈ events) :
    ColumnsAnnounced (events ++ [event]) := by
  intro before table column after hs
  rcases List.eq_nil_or_concat after with rfl | ⟨after, last, rfl⟩
  · obtain ⟨rfl, hl⟩ := List.append_inj' hs rfl
    exact he table column (List.singleton_inj.mp hl)
  · have hs' : events ++ [event] = (before ++ .column table column :: after) ++ [last] := by
      simpa using hs
    exact h before table column after (List.append_inj' hs' rfl).1

/-- The rules keep a body behind its creation. -/
theorem Rule.announced {events : List Event} {place next : Place} {line : Text} {event : Event}
    (rule : Rule place line event next) (hc : ColumnsAnnounced events)
    (hp : place.Announced events) :
    ColumnsAnnounced (events ++ [event]) ∧ next.Announced (events ++ [event]) := by
  have hkeep : place.Announced (events ++ [event]) := by
    intro table ht
    exact List.mem_append_left _ (hp table ht)
  cases rule with
  | created create named =>
    refine ⟨hc.concat (by simp), ?_⟩
    rintro table ⟨⟩
    simp
  | unnamedCreate create unnamed => exact ⟨hc.concat (by simp), by simp [Place.Announced]⟩
  | closed noCreate bodyEnd => exact ⟨hc.concat (by simp), by simp [Place.Announced]⟩
  | alterOpened noCreate noEnd alter named =>
    exact ⟨hc.concat (by simp), by simp [Place.Announced]⟩
  | unnamedAlter noCreate noEnd alter unnamed => exact ⟨hc.concat (by simp), hkeep⟩
  | outside noCreate noAlter => exact ⟨hc.concat (by simp), hkeep⟩
  | column noCreate noEnd noAlter declared =>
    refine ⟨hc.concat ?_, hkeep⟩
    rintro table column ⟨⟩
    exact hp _ rfl
  | noColumn noCreate noEnd noAlter none => exact ⟨hc.concat (by simp), hkeep⟩
  | alterLine noCreate noAlter =>
    refine ⟨hc.concat (by simp), ?_⟩
    intro table ht
    split at ht <;> cases ht

theorem Place.announced (lines : List Text) :
    ColumnsAnnounced (outside.events lines)
      ∧ (outside.behind lines).Announced (outside.events lines) :=
  invariant (fun _ events place => ColumnsAnnounced events ∧ place.Announced events)
    ⟨by simp [ColumnsAnnounced], by simp [Announced]⟩
    (fun hold rule => rule.announced hold.1 hold.2) lines

/-- In a dump, every column stands behind a creation of its table. -/
theorem columnsAnnounced_events (dump : Text) : ColumnsAnnounced (events dump) :=
  (Place.announced dump.lines).1

end Dump

namespace Schema

/-- **A schema is what the lines of its dump say, and nothing gets lost on the way.** Its tables are
the created ones in the order of their first creation. Each has the columns and the lines that stand
behind its last creation: a column once, where it was declared first and as it was declared last,
and the lines in order. No column lacks its table, and a line of an `ALTER TABLE` block is left out
only if its table was not created before it, or is created again behind it. -/
theorem ofDump_collects (dump : Text) :
    (∀ name, name ∈ (ofDump dump).tableNames ↔ .created name ∈ events dump)
    ∧ (ofDump dump).tableNames = (createdNames (events dump)).eraseDups
    ∧ (ofDump dump).tableNames.Nodup
    ∧ (∀ table ∈ (ofDump dump).tables,
        table.columnNames
            = ((columnsOf table.name (sinceCreated table.name (events dump))).map
                Column.name).eraseDups
        ∧ table.columnNames.Nodup
        ∧ (∀ column ∈ table.columns,
            Keyed.get? Column.name column.name
                (columnsOf table.name (sinceCreated table.name (events dump))).reverse
              = some column)
        ∧ table.alterLines = alterLinesOf table.name (sinceCreated table.name (events dump)))
    ∧ (∀ before name column after, events dump = before ++ .column name column :: after →
        .created name ∈ before ∧ name ∈ (ofEvents before).tableNames)
    ∧ (∀ before name line after, events dump = before ++ .alterLine name line :: after →
        if .created name ∈ before ∧ .created name ∉ after then
          ∃ table ∈ (ofDump dump).tables, table.name = name ∧ table.alterLines
            = alterLinesOf name (sinceCreated name before) ++ line :: alterLinesOf name after
        else ofDump dump = ofEvents (before ++ after)) := by
  have hnames : (ofDump dump).tableNames = (createdNames (events dump)).eraseDups :=
    tableNames_ofEvents (events dump)
  refine ⟨?_, hnames, nodup_tableNames_ofEvents (events dump), ?_, ?_, ?_⟩
  · intro name
    rw [hnames, List.mem_eraseDups, mem_createdNames]
  · intro table ht
    have hd := nodup_columnNames_ofEvents ht
    rw [ofDump, tables_ofEvents] at ht
    obtain ⟨name, -, rfl⟩ := List.mem_map.mp ht
    refine ⟨Table.columnNames_collected name (sinceCreated name (events dump)), hd, ?_, rfl⟩
    intro column hc
    rw [Table.name, Table.collected, ← Table.column?_collected]
    exact Keyed.get?_of_mem hd hc
  · intro before name column after hs
    have hb := columnsAnnounced_events dump before name column after hs
    refine ⟨hb, ?_⟩
    rw [tableNames_ofEvents, List.mem_eraseDups, mem_createdNames]
    exact hb
  · intro before name line after hs
    rw [ofDump, hs]
    split
    · rename_i h
      exact table?_ofEvents_alterLine h.1 h.2
    · rename_i h
      refine ofEvents_drop_alterLine ?_
      by_cases hb : Event.created name ∈ before
      · exact .inr (by_contra fun ha => h ⟨hb, ha⟩)
      · exact .inl hb

end Schema

end SchemaGrowth
