import SchemaGrowth.Proofs.Dump.Attribution
import SchemaGrowth.Proofs.Dump.History
import SchemaGrowth.Proofs.Text.LineEnds

/-!
# Lines left out of a body

Any line of a body that holds a mark declares a column: one of a key or of a constraint as well. If
a line is left out, nothing changes but the columns of its table (`Schema.ofDump_withoutLine`), and
they change unless the line declares no column, its table is created again, or the column would be
the same without it (`Column.IsIdle`).
-/

namespace SchemaGrowth

open Dump

section Split

variable {α : Type} {xs : List α} {x : α}

theorem eq_take_append_cons_drop {i : Nat} (h : xs[i]? = some x) :
    xs = xs.take i ++ x :: xs.drop (i + 1) := by
  obtain ⟨hi, rfl⟩ := List.getElem?_eq_some_iff.mp h
  rw [List.getElem_cons_drop, List.take_append_drop]

theorem exists_getElem?_of_eq_append_cons {before after : List α} (h : xs = before ++ x :: after) :
    ∃ i : Nat, xs[i]? = some x ∧ xs.drop (i + 1) = after := by
  subst h
  refine ⟨before.length, by simp, ?_⟩
  rw [← List.drop_drop, List.drop_left, List.drop_one, List.tail_cons]

end Split

/-! ## Declarations that make no difference -/

/-- Whether a column is declared to no effect among those of a table: the others alone give it its
place and its definition. -/
structure Column.IsIdle (column : Column) (before after : List Column) : Prop where
  /-- The name is there already, or is declared again before another new one. -/
  placed : column.name ∈ before.map Column.name
    ∨ ∃ between rest, after.map Column.name = between ++ column.name :: rest
      ∧ ∀ name ∈ between, name ∈ before.map Column.name
  /-- Another definition replaces that of the column, or it was there already. -/
  defined : column.name ∈ after.map Column.name
    ∨ Keyed.get? Column.name column.name before.reverse = some column

namespace Schema

/-- Whether the tables of two schemas have the same columns. -/
def SameColumns (first second : Schema) : Prop :=
  ∀ name, (first.table? name).map Table.columns = (second.table? name).map Table.columns

/-- Whether two schemas are the same but for the columns of one table. -/
structure SameBut (name : Text) (first second : Schema) : Prop where
  names : first.tableNames = second.tableNames
  others : ∀ other, other ≠ name → first.table? other = second.table? other
  alterLines : (first.table? name).map Table.alterLines = (second.table? name).map Table.alterLines

theorem SameBut.refl (name : Text) (schema : Schema) : SameBut name schema schema :=
  ⟨rfl, fun _ _ => rfl, rfl⟩

theorem SameColumns.refl (schema : Schema) : SameColumns schema schema :=
  fun _ => rfl

/-- A table that is not created again holds all that was said of it since. -/
theorem table?_ofEvents_of_created {name : Text} {before after : List Event}
    (hb : .created name ∈ before) (ha : .created name ∉ after) :
    (ofEvents (before ++ after)).table? name
      = some (.collected name (sinceCreated name before ++ after)) := by
  rw [table?_ofEvents, if_pos (List.mem_append_left _ hb), sinceCreated_append, if_neg ha]

section Column

variable {name : Text} {column : Column} {before after : List Event}

theorem alterLinesOf_drop_column :
    alterLinesOf name (before ++ .column name column :: after)
      = alterLinesOf name (before ++ after) := by
  have hnone : Event.alterLineOf? name (.column name column) = none := rfl
  simp [alterLinesOf, hnone]

theorem columnsOf_column :
    columnsOf name (before ++ .column name column :: after)
      = columnsOf name before ++ column :: columnsOf name after := by
  simp [columnsOf, Event.columnOf?]

variable (hb : .created name ∈ before)
include hb

/-- A column changes nothing but the columns of its table. -/
theorem sameBut_drop_column :
    SameBut name (ofEvents (before ++ after)) (ofEvents (before ++ .column name column :: after)) := by
  refine ⟨(tableNames_ofEvents_drop rfl before after).symm, ?_, ?_⟩
  · intro other hne
    have hother : Event.columnOf? other (.column name column) = none := if_neg hne.symm
    exact (table?_ofEvents_drop rfl fun _ _ => ⟨hother, rfl⟩).symm
  · by_cases ha : Event.created name ∈ after
    · rw [table?_ofEvents_drop rfl fun _ hn => absurd ha hn]
    · have ha' : Event.created name ∉ .column name column :: after := by
        simp [ha]
      rw [table?_ofEvents_of_created hb ha, table?_ofEvents_of_created hb ha']
      exact congrArg some alterLinesOf_drop_column.symm

/-- A column that is declared behind the last creation of its table changes the columns unless it is
idle. -/
theorem sameColumns_drop_column (ha : .created name ∉ after) :
    SameColumns (ofEvents (before ++ after)) (ofEvents (before ++ .column name column :: after))
      ↔ column.IsIdle (columnsOf name (sinceCreated name before)) (columnsOf name after) := by
  have ha' : Event.created name ∉ .column name column :: after := by
    simp [ha]
  have hself : ((ofEvents (before ++ after)).table? name).map Table.columns
        = ((ofEvents (before ++ .column name column :: after)).table? name).map Table.columns
      ↔ column.IsIdle (columnsOf name (sinceCreated name before)) (columnsOf name after) := by
    rw [table?_ofEvents_of_created hb ha, table?_ofEvents_of_created hb ha', Option.map_some,
      Option.map_some, Option.some_inj, Table.collected, Table.collected, columnsOf_column, eq_comm,
      columnsOf_append]
    refine Keyed.foldl_put_append_cons_iff.trans ?_
    exact ⟨fun h => ⟨h.1, h.2⟩, fun h => ⟨h.placed, h.defined⟩⟩
  constructor
  · intro h
    exact hself.mp (h name)
  · intro h other
    by_cases hne : other = name
    · rw [hne]
      exact hself.mpr h
    · rw [(sameBut_drop_column hb).others other hne]

end Column

/-- A column that is read is the last one of its name that was declared. -/
theorem get?_reverse_eq_some {columns : List Column} {column : Column} :
    Keyed.get? Column.name column.name columns.reverse = some column
      ↔ ∃ before after, columns = before ++ column :: after
        ∧ ∀ later ∈ after, later.name ≠ column.name := by
  rw [Keyed.get?, List.find?_eq_some_iff_append]
  constructor
  · rintro ⟨-, reversed, rest, hsplit, hreversed⟩
    refine ⟨rest.reverse, reversed.reverse, ?_, by simpa using hreversed⟩
    have hcolumns := congrArg List.reverse hsplit
    simpa using hcolumns
  · rintro ⟨before, after, rfl, hafter⟩
    exact ⟨by simp, after.reverse, before.reverse, by simp, by simpa using hafter⟩

/-- The columns of a table are those that were declared since it was last created, and not declared
again since. -/
theorem mem_columns_ofEvents {events : List Event} {table : Table}
    (h : table ∈ (ofEvents events).tables) {column : Column} :
    column ∈ table.columns
      ↔ ∃ i : Nat, events[i]? = some (.column table.name column)
        ∧ .created table.name ∉ events.drop (i + 1)
        ∧ ∀ later ∈ columnsOf table.name (events.drop (i + 1)), later.name ≠ column.name := by
  have hnodup := nodup_columnNames_ofEvents h
  rw [tables_ofEvents] at h
  obtain ⟨name, -, rfl⟩ := List.mem_map.mp h
  have hread : column ∈ (Table.collected name (sinceCreated name events)).columns
      ↔ Keyed.get? Column.name column.name (columnsOf name (sinceCreated name events)).reverse
        = some column := by
    rw [← Table.column?_collected]
    exact ⟨Keyed.get?_of_mem hnodup, List.mem_of_find?_eq_some⟩
  rw [hread, get?_reverse_eq_some]
  show _ ↔ ∃ i : Nat, events[i]? = some (.column name column)
    ∧ .created name ∉ events.drop (i + 1)
    ∧ ∀ later ∈ columnsOf name (events.drop (i + 1)), later.name ≠ column.name
  constructor
  · rintro ⟨earlier, later, hcolumns, hlater⟩
    obtain ⟨first, second, hsince, -, hsecond⟩ := List.filterMap_eq_append_iff.mp hcolumns
    obtain ⟨skipped, event, after, rfl, -, hevent, rfl⟩ := List.filterMap_eq_cons_iff.mp hsecond
    obtain rfl := Event.columnOf?_eq_some.mp hevent
    obtain ⟨forgotten, hevents⟩ := sinceCreated_suffix name events
    have hsplit : events = (forgotten ++ first ++ skipped) ++ .column name column :: after := by
      rw [← hevents, hsince]
      simp
    have hafter : .created name ∉ after := by
      intro hm
      refine not_mem_sinceCreated name events ?_
      rw [hsince]
      simp [hm]
    obtain ⟨i, hi, hdrop⟩ := exists_getElem?_of_eq_append_cons hsplit
    rw [← hdrop] at hafter hlater
    exact ⟨i, hi, hafter, hlater⟩
  · rintro ⟨i, hi, hafter, hlater⟩
    have hnot : Event.created name ∉ .column name column :: events.drop (i + 1) := by
      simp [hafter]
    rw [eq_take_append_cons_drop hi, sinceCreated_append, if_neg hnot, columnsOf_column]
    exact ⟨_, _, rfl, hlater⟩

end Schema

namespace Dump

/-! ## Lines at which a body goes on -/

/-- Whether a line is read in a block that goes on behind it: the line is no header and does not
end the block. -/
def Place.Keeps (place : Place) (line : Text) : Prop :=
  (place.read line).2 = place ∧ (place.read line).1.created? = none

/-- A body goes on at every line but those with the words of a header or of its end. -/
theorem Place.keeps_body {table line : Text} :
    (body table).Keeps line
      ↔ line.hasWord createWords = false ∧ line.hasWord bodyEndWords = false
        ∧ (line.hasWord alterWords = true → identifierMark ∉ line) := by
  have hrule := (body table).rule_read line
  unfold Keeps
  generalize (body table).read line = reading at hrule ⊢
  obtain ⟨event, next⟩ := reading
  cases hrule with
  | created create named => simp [create, Event.created?]
  | unnamedCreate create unnamed => simp [create]
  | closed noCreate bodyEnd => simp [bodyEnd]
  | alterOpened noCreate noEnd alter named =>
    have hmark : identifierMark ∈ line := by
      by_contra hm
      simp [Text.identifier?_eq_none.mpr hm] at named
    simp [alter, hmark]
  | unnamedAlter noCreate noEnd alter unnamed =>
    have noEnd : line.hasWord bodyEndWords = false := by simpa [isBody] using noEnd
    simp [noCreate, noEnd, Event.created?, Text.identifier?_eq_none.mp unnamed]
  | column noCreate noEnd noAlter declared => simp [noCreate, noEnd, noAlter, Event.created?]
  | noColumn noCreate noEnd noAlter none => simp [noCreate, noEnd, noAlter, Event.created?]

/-- Such a line declares the column that it holds, if it holds one. -/
theorem Place.Keeps.read_body {table line : Text} (h : (body table).Keeps line) :
    (body table).read line
      = ((Column.ofLine? line).elim .ignored (.column table), .body table) := by
  obtain ⟨noCreate, noEnd, hmark⟩ := keeps_body.mp h
  cases alter : line.hasWord alterWords with
  | true =>
    have unnamed := Text.identifier?_eq_none.mpr (hmark alter)
    rw [(Rule.unnamedAlter noCreate (by simp [isBody, noEnd]) alter unnamed).read_eq,
      Column.ofLine?, unnamed]
    rfl
  | false =>
    cases declared : Column.ofLine? line with
    | none => exact (Rule.noColumn noCreate noEnd alter declared).read_eq
    | some column => exact (Rule.column noCreate noEnd alter declared).read_eq

/-- Without a line at which a block goes on, the other lines say the same. -/
theorem Place.Keeps.events_eraseIdx {place : Place} {lines : List Text} {i : Nat} {line : Text}
    (hline : lines[i]? = some line) (h : (place.behind (lines.take i)).Keeps line) :
    place.events (lines.eraseIdx i)
      = (place.events lines).take i ++ (place.events lines).drop (i + 1) := by
  have htake : lines.take (i + 1) = lines.take i ++ [line] := by
    rw [List.take_add_one, hline]
    rfl
  rw [List.eraseIdx_eq_take_drop_succ, events_append, take_events, drop_events, htake,
    behind_concat, h.1]

/-- A line of a dump in the body of a table that goes on behind the line. -/
structure BodyLine (dump : Text) (i : Nat) (line table : Text) : Prop where
  held : dump.lines[i]? = some line
  place : Place.outside.behind (dump.lines.take i) = .body table
  keeps : (Place.body table).Keeps line

namespace BodyLine

variable {dump line table : Text} {i : Nat} (h : BodyLine dump i line table)
include h

theorem created : .created table ∈ (events dump).take i := by
  rw [events, Place.take_events]
  exact (Place.announced (dump.lines.take i)).2 table h.place

theorem events_eq : events dump = (events dump).take i
    ++ (Column.ofLine? line).elim .ignored (.column table) :: (events dump).drop (i + 1) := by
  have hevent := Place.getElem?_events h.held .outside
  rw [h.place, h.keeps.read_body] at hevent
  exact eq_take_append_cons_drop hevent

theorem events_withoutLine :
    events (dump.withoutLine i) = (events dump).take i ++ (events dump).drop (i + 1) := by
  have hkeeps := h.keeps
  rw [← h.place] at hkeeps
  rw [events, Text.lines_withoutLine, hkeeps.events_eraseIdx h.held, events]

end BodyLine

/-- A column is said by a line of a body that holds it. -/
theorem getElem?_events_eq_column {dump table : Text} {i : Nat} {column : Column} :
    (events dump)[i]? = some (.column table column)
      ↔ ∃ line, BodyLine dump i line table ∧ Column.ofLine? line = some column := by
  constructor
  · intro h
    have hi : i < dump.lines.length := by
      have hlength := (List.getElem?_eq_some_iff.mp h).1
      rwa [events, Place.length_events] at hlength
    have hline : dump.lines[i]? = some dump.lines[i] := List.getElem?_eq_getElem hi
    rw [events, Place.getElem?_events hline, Option.some_inj, Place.read_eq_column] at h
    obtain ⟨hplace, noCreate, noEnd, noAlter, declared⟩ := h
    have hkeeps : (Place.body table).Keeps dump.lines[i] :=
      Place.keeps_body.mpr ⟨noCreate, noEnd, by simp [noAlter]⟩
    exact ⟨dump.lines[i], ⟨hline, hplace, hkeeps⟩, declared⟩
  · rintro ⟨line, h, declared⟩
    rw [events, Place.getElem?_events h.held, h.place, h.keeps.read_body, declared]
    rfl

end Dump

namespace Schema

section BodyLine

variable {dump line table : Text} {i : Nat} (h : BodyLine dump i line table)
include h

theorem ofDump_withoutLine_eq :
    ofDump (dump.withoutLine i)
      = ofEvents ((events dump).take i ++ (events dump).drop (i + 1)) := by
  rw [ofDump, h.events_withoutLine]

theorem ofDump_bodyLine_eq :
    ofDump dump = ofEvents ((events dump).take i
      ++ (Column.ofLine? line).elim .ignored (.column table) :: (events dump).drop (i + 1)) :=
  congrArg ofEvents h.events_eq

/-- A line that holds no column says nothing. -/
theorem ofDump_withoutLine_of_none (hnone : Column.ofLine? line = none) :
    ofDump (dump.withoutLine i) = ofDump dump := by
  rw [ofDump_withoutLine_eq h, ofDump_bodyLine_eq h, hnone]
  exact (ofEvents_drop rfl fun _ _ _ => ⟨rfl, rfl⟩).symm

/-- Without a line of a body, a schema is the same but for the columns of the table. -/
theorem sameBut_withoutLine : SameBut table (ofDump (dump.withoutLine i)) (ofDump dump) := by
  cases hcolumn : Column.ofLine? line with
  | none =>
    rw [ofDump_withoutLine_of_none h hcolumn]
    exact SameBut.refl table (ofDump dump)
  | some column =>
    rw [ofDump_withoutLine_eq h, ofDump_bodyLine_eq h, hcolumn]
    exact sameBut_drop_column h.created

/-- Without a line of a body, the columns are the same unless the line declares one that counts. -/
theorem sameColumns_withoutLine :
    SameColumns (ofDump (dump.withoutLine i)) (ofDump dump)
      ↔ identifierMark ∉ line ∨ .created table ∈ (events dump).drop (i + 1)
        ∨ ∃ column, Column.ofLine? line = some column
          ∧ column.IsIdle (columnsOf table (sinceCreated table ((events dump).take i)))
            (columnsOf table ((events dump).drop (i + 1))) := by
  cases hcolumn : Column.ofLine? line with
  | none =>
    have hmark : identifierMark ∉ line := by
      intro hm
      obtain ⟨_, _, -, hread⟩ := Column.ofLine?_of_mem hm
      simp [hread] at hcolumn
    rw [ofDump_withoutLine_of_none h hcolumn]
    exact iff_of_true (SameColumns.refl (ofDump dump)) (.inl hmark)
  | some column =>
    have hmark := Column.mem_of_ofLine? hcolumn
    by_cases ha : .created table ∈ (events dump).drop (i + 1)
    · have hsame : SameColumns (ofDump (dump.withoutLine i)) (ofDump dump) := by
        intro name
        rw [ofDump_withoutLine_eq h, ofDump_bodyLine_eq h, hcolumn]
        by_cases hne : name = table
        · rw [hne]
          exact congrArg _ (table?_ofEvents_drop rfl fun _ hn => absurd ha hn).symm
        · exact congrArg _ ((sameBut_drop_column h.created).others name hne)
      exact iff_of_true hsame (.inr (.inl ha))
    · rw [ofDump_withoutLine_eq h, ofDump_bodyLine_eq h, hcolumn]
      refine (sameColumns_drop_column h.created ha).trans ?_
      simp [hmark, ha]

end BodyLine

/-- **A line of a body declares a column wherever it holds a mark.** To leave it out changes nothing
but the columns of its table. These change too, unless the line holds no mark, or the table is
created again, or the column that the line declares is idle. So the columns of a table are those of
all lines with a mark, the last one for each name. -/
theorem ofDump_withoutLine (dump : Text) :
    (∀ i line table, BodyLine dump i line table →
      SameBut table (ofDump (dump.withoutLine i)) (ofDump dump)
      ∧ (SameColumns (ofDump (dump.withoutLine i)) (ofDump dump)
        ↔ identifierMark ∉ line ∨ .created table ∈ (events dump).drop (i + 1)
          ∨ ∃ column, Column.ofLine? line = some column
            ∧ column.IsIdle (columnsOf table (sinceCreated table ((events dump).take i)))
              (columnsOf table ((events dump).drop (i + 1)))))
    ∧ ∀ table ∈ (ofDump dump).tables, ∀ column, column ∈ table.columns
      ↔ ∃ i line, BodyLine dump i line table.name ∧ Column.ofLine? line = some column
        ∧ .created table.name ∉ (events dump).drop (i + 1)
        ∧ ∀ later ∈ columnsOf table.name ((events dump).drop (i + 1)),
          later.name ≠ column.name := by
  refine ⟨fun i line table h => ⟨sameBut_withoutLine h, sameColumns_withoutLine h⟩, ?_⟩
  intro table ht column
  rw [mem_columns_ofEvents ht]
  constructor
  · rintro ⟨i, hevent, hlast⟩
    obtain ⟨line, hline, declared⟩ := getElem?_events_eq_column.mp hevent
    exact ⟨i, line, hline, declared, hlast⟩
  · rintro ⟨i, line, hline, declared, hlast⟩
    exact ⟨i, getElem?_events_eq_column.mpr ⟨line, hline, declared⟩, hlast⟩

/-- A dump with a key below its only column. -/
def keyedDump : Text :=
  "CREATE TABLE `t` (\n  `a` int,\n  PRIMARY KEY (`a`)\n) ENGINE=InnoDB;\n".toList

/-- The line of the key. -/
def keyLine : Text :=
  "  PRIMARY KEY (`a`)".toList

/-- A line that does not start with a mark can change a column: the key takes its definition. -/
theorem not_sameColumns_keyLine :
    BodyLine keyedDump 2 keyLine "t".toList ∧ keyLine.trimStart.head? ≠ some identifierMark
      ∧ ((ofDump keyedDump).table? "t".toList).map Table.columns
        = some [⟨"a".toList, ")".toList⟩]
      ∧ ((ofDump (keyedDump.withoutLine 2)).table? "t".toList).map Table.columns
        = some [⟨"a".toList, "int".toList⟩]
      ∧ ¬ SameColumns (ofDump (keyedDump.withoutLine 2)) (ofDump keyedDump) := by
  have hkeyed : ((ofDump keyedDump).table? "t".toList).map Table.columns
      = some [⟨"a".toList, ")".toList⟩] := by
    decide +kernel
  have hplain : ((ofDump (keyedDump.withoutLine 2)).table? "t".toList).map Table.columns
      = some [⟨"a".toList, "int".toList⟩] := by
    decide +kernel
  refine ⟨⟨by decide +kernel, by decide +kernel, by decide +kernel, by decide +kernel⟩,
    by decide +kernel, hkeyed, hplain, ?_⟩
  intro h
  have hsame := h "t".toList
  rw [hkeyed, hplain] at hsame
  exact absurd hsame (by decide +kernel)

end Schema

end SchemaGrowth
