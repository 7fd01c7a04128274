import SchemaGrowth.Proofs.Migration.Contribution
import SchemaGrowth.Proofs.Migration.CreateLines

/-!
# The lines of a script

The statements of a script are written one below the other and without any escape. Nothing is lost
by that: no name and no definition of a dump holds a line feed, and no name holds a mark. So the
lines of a file are its statements again, and a statement cut at its marks gives back the names in
it. `legible_of_migration` says this of the statements that add and modify columns, and of the
report of both.
-/

namespace SchemaGrowth

open Dump Text

/-! ## Lines that end with a semicolon -/

/-- A text that stands on a line of its own. -/
structure Text.IsStatement (t : Text) : Prop where
  feed : '\n' ∉ t
  semicolon : t.getLast? = some ';'

/-- A text that is read back as a line. -/
def Text.IsLine (t : Text) : Prop :=
  '\n' ∉ t ∧ t.getLast? ≠ some '\r'

theorem Text.IsStatement.isLine {t : Text} (h : t.IsStatement) : t.IsLine := by
  refine ⟨h.feed, ?_⟩
  rw [h.semicolon]
  decide

namespace Script

theorem stack_concat (init : List Text) (last : Text) :
    stack (init ++ [last]) = unlines init ++ last := by
  induction init with
  | nil => simp [stack, unlines]
  | cons first rest ih =>
    obtain ⟨second, more, hrest⟩ := List.exists_cons_of_ne_nil (l := rest ++ [last]) (by simp)
    rw [stack, hrest] at ih
    rw [stack, List.cons_append, hrest, List.intercalate_cons_cons, ih, unlines_cons]
    simp

/-- Lines are read back from their stack, and so is what follows them. -/
theorem lines_stack_concat {init : List Text} (h : ∀ t ∈ init, t.IsLine) (last : Text) :
    (stack (init ++ [last])).lines = init ++ last.lines := by
  have hreturn : init.map (·.dropLastIf '\r') = init := by
    refine (List.map_congr_left ?_).trans (List.map_id _)
    exact fun t ht => dropLastIf_eq_self.mpr (h t ht).2
  rw [stack_concat, lines_unlines_append fun t ht => (h t ht).1, hreturn]

/-- Statements are the lines of their stack, also if there are none. -/
theorem lines_stack {statements : List Text} (h : ∀ t ∈ statements, t.IsStatement) :
    (stack statements).lines = statements := by
  rcases List.eq_nil_or_concat statements with rfl | ⟨init, last, rfl⟩
  · rfl
  · rw [List.concat_eq_append] at h ⊢
    have hlast := h last (by simp)
    have hne : last ≠ [] := by
      rintro rfl
      cases hlast.semicolon
    rw [lines_stack_concat fun t ht => (h t (List.mem_append_left _ ht)).isLine,
      lines_of_not_mem hlast.feed, if_neg hne]

/-- The lines of a report. -/
theorem lines_report {script : Script} (ha : ∀ t ∈ script.adds, t.IsStatement)
    (hm : ∀ t ∈ script.modifies, t.IsStatement) :
    script.report.lines = [[], "--- ALTER STATEMENTS ---".toList] ++ script.adds
      ++ [[], "--- MODIFY STATEMENTS ---".toList] ++ script.modifies := by
  have halter : ∀ t ∈ [[], "--- ALTER STATEMENTS ---".toList],
      '\n' ∉ t ∧ t.getLast? ≠ some '\r' := by decide
  have hmodify : ∀ t ∈ [[], "--- MODIFY STATEMENTS ---".toList],
      '\n' ∉ t ∧ t.getLast? ≠ some '\r' := by decide
  have hadds : ∀ t ∈ script.adds, t.IsLine := fun t ht => (ha t ht).isLine
  have hmodifies : ∀ t ∈ script.modifies, t.IsLine := fun t ht => (hm t ht).isLine
  rw [report, lines_stack_concat, lines_nil, List.append_nil]
  simp only [List.forall_mem_append]
  exact ⟨⟨⟨halter, hadds⟩, hmodify⟩, hmodifies⟩

end Script

/-! ## Definitions without line feeds -/

theorem Definition.mem_of_mem_canonical {c : Char} {definition : Text}
    (h : c ∈ canonical definition) : c ∈ definition :=
  (infix_trim definition).subset (mem_of_mem_squeeze h)

namespace Enumeration

/-- What is read of a definition stands in it. -/
theorem mem_of_ofDefinition? {definition : Text} {enumeration : Enumeration}
    (h : ofDefinition? definition = some enumeration) {c : Char} :
    ((∃ value ∈ enumeration.values, c ∈ value) → c ∈ definition)
      ∧ (c ∈ enumeration.modifiers → c ∈ definition) := by
  obtain ⟨head, list, rfl, -, -, hvalues⟩ := ofDefinition?_eq_some.mp h
  constructor
  · rintro ⟨value, hv, hc⟩
    rw [hvalues] at hv
    have hlist := (mem_enclosed hv).2 c hc
    simp [hlist]
  · intro hc
    simp [hc]

theorem feed_definition {enumeration : Enumeration}
    (hv : ∀ value ∈ enumeration.values, '\n' ∉ value) (hm : '\n' ∉ enumeration.modifiers) :
    '\n' ∉ enumeration.definition := by
  have hlist : '\n' ∉ enumeration.valueList := by
    intro hc
    rcases mem_valueList hc with hc | hc | ⟨value, hvalue, hc⟩
    · exact absurd hc (by decide)
    · exact absurd hc (by decide)
    · exact hv value hvalue hc
  rw [definition_eq]
  simp [hlist, hm]

/-- Nothing in a merge is new. -/
theorem feed_merged {old new : Text} {oldEnum newEnum : Enumeration}
    (ho : ofDefinition? old = some oldEnum) (hn : ofDefinition? new = some newEnum)
    (hold : '\n' ∉ old) (hnew : '\n' ∉ new) :
    '\n' ∉ definition ⟨(oldEnum.values ++ newEnum.values).eraseDups, newEnum.modifiers⟩ := by
  refine feed_definition ?_ fun hc => hnew ((mem_of_ofDefinition? hn).2 hc)
  intro value hv hc
  rcases List.mem_append.mp (List.mem_eraseDups.mp hv) with hv | hv
  · exact hold ((mem_of_ofDefinition? ho).1 ⟨value, hv, hc⟩)
  · exact hnew ((mem_of_ofDefinition? hn).1 ⟨value, hv, hc⟩)

end Enumeration

/-! ## Statements on columns -/

namespace Statement

theorem isStatement_concat {t : Text} (h : '\n' ∉ t) : Text.IsStatement (t ++ [';']) :=
  ⟨by simp [h], List.getLast?_concat⟩

theorem isStatement_modifyColumn {table : Text} {column : Column} (ht : '\n' ∉ table)
    (hn : '\n' ∉ column.name) (hd : '\n' ∉ column.definition) :
    (modifyColumn table column).text.IsStatement := by
  refine isStatement_concat ?_
  simp [feed_alterHeader ht, feed_declaration hn hd]

theorem isStatement_addColumn {table : Text} {column : Column} {behind : Option Text}
    (ht : '\n' ∉ table) (hn : '\n' ∉ column.name) (hd : '\n' ∉ column.definition)
    (hb : ∀ name ∈ behind, '\n' ∉ name) : (addColumn table column behind).text.IsStatement := by
  refine isStatement_concat ?_
  cases behind with
  | none => simp [feed_alterHeader ht, feed_declaration hn hd]
  | some name => simp [feed_alterHeader ht, feed_declaration hn hd, feed_identifier (hb name rfl)]

/-- An identifier is a piece of its own. -/
theorem splitOn_identifier {head name : Text} (hh : identifierMark ∉ head)
    (hn : identifierMark ∉ name) (t : Text) :
    (head ++ (name.identifier ++ t)).splitOn identifierMark
      = head :: name :: t.splitOn identifierMark := by
  rw [← List.append_assoc, append_identifier_append,
    List.splitOn_append_cons_self_of_not_mem hh, List.splitOn_append_cons_self_of_not_mem hn]

theorem splitOn_identifier_last {name t : Text} (hn : identifierMark ∉ name)
    (ht : identifierMark ∉ t) (head : Text) :
    (head ++ (name.identifier ++ t)).splitOn identifierMark
      = head.splitOn identifierMark ++ [name, t] := by
  rw [← List.append_assoc, append_identifier_append, List.splitOn_append_cons_self,
    List.splitOn_append_cons_self_of_not_mem hn, List.splitOn_eq_singleton ht]

/-- What stands behind the header and the name of a column is cut on its own. -/
theorem splitOn_alterHeader {table verb name : Text} (ht : identifierMark ∉ table)
    (hv : identifierMark ∉ verb) (hn : identifierMark ∉ name) (rest : Text) :
    (alterHeader table ++ verb ++ (name.identifier ++ rest)).splitOn identifierMark
      = "ALTER TABLE ".toList :: table :: verb :: name :: rest.splitOn identifierMark := by
  have hheader : alterHeader table ++ verb ++ (name.identifier ++ rest)
      = "ALTER TABLE ".toList ++ (table.identifier ++ (verb ++ (name.identifier ++ rest))) := by
    change "ALTER TABLE ".toList ++ table.identifier ++ verb ++ (name.identifier ++ rest) = _
    simp only [List.append_assoc]
  rw [hheader, splitOn_identifier (by decide) ht, splitOn_identifier hv hn]

theorem splitOn_modifyColumn {table : Text} {column : Column} (ht : identifierMark ∉ table)
    (hn : identifierMark ∉ column.name) :
    ∃ rest, (modifyColumn table column).text.splitOn identifierMark
      = "ALTER TABLE ".toList :: table :: " MODIFY ".toList :: column.name :: rest := by
  have htext : (modifyColumn table column).text = alterHeader table ++ " MODIFY ".toList
      ++ (column.name.identifier ++ ([' '] ++ column.definition ++ [';'])) := by
    change alterHeader table ++ " MODIFY ".toList
      ++ (column.name.identifier ++ [' '] ++ column.definition) ++ [';'] = _
    simp only [List.append_assoc]
  rw [htext, splitOn_alterHeader ht (by decide) hn]
  exact ⟨_, rfl⟩

theorem splitOn_addColumn {table : Text} {column : Column} {behind : Option Text}
    (ht : identifierMark ∉ table) (hn : identifierMark ∉ column.name)
    (hb : ∀ name ∈ behind, identifierMark ∉ name) :
    ∃ rest, (addColumn table column behind).text.splitOn identifierMark
        = "ALTER TABLE ".toList :: table :: " ADD ".toList :: column.name :: rest
      ∧ ∀ last, behind = some last → ∃ before, rest = before ++ [last, [';']] := by
  cases behind with
  | none =>
    have htext : (addColumn table column none).text = alterHeader table ++ " ADD ".toList
        ++ (column.name.identifier ++ ([' '] ++ column.definition ++ [';'])) := by
      change alterHeader table ++ " ADD ".toList
        ++ (column.name.identifier ++ [' '] ++ column.definition) ++ [] ++ [';'] = _
      simp only [List.append_assoc, List.nil_append]
    rw [htext, splitOn_alterHeader ht (by decide) hn]
    exact ⟨_, rfl, by simp⟩
  | some name =>
    have htext : (addColumn table column (some name)).text = alterHeader table ++ " ADD ".toList
        ++ (column.name.identifier ++ ([' '] ++ column.definition ++ " AFTER ".toList
          ++ (name.identifier ++ [';']))) := by
      change alterHeader table ++ " ADD ".toList
        ++ (column.name.identifier ++ [' '] ++ column.definition)
        ++ (" AFTER ".toList ++ name.identifier) ++ [';'] = _
      simp only [List.append_assoc]
    rw [htext, splitOn_alterHeader ht (by decide) hn,
      splitOn_identifier_last (hb name rfl) (by decide)]
    refine ⟨_, rfl, ?_⟩
    rintro last ⟨⟩
    exact ⟨_, rfl⟩

end Statement

/-! ## Contributions -/

namespace Contributes

variable {current : Table} {wanted : Column} {contribution : Contribution}

/-- Just the columns that a table does not have are added to it. -/
theorem added?_eq (h : Contributes current wanted contribution) :
    contribution.added? = if (current.column? wanted.name).isNone
      then some (Statement.addColumn current.name wanted current.lastColumn?).text else none := by
  cases h with
  | added new => simp [new, Contribution.added?]
  | same there same => simp [there, Contribution.added?]
  | revised there differ noEnums => simp [there, Contribution.added?, Contribution.ofRevision]
  | contained there => simp [there, Contribution.added?]
  | merged there => simp [there, Contribution.added?, Contribution.ofRevision]

/-- Only a column that is there is modified, and the definition that it takes has no line feed if
there is none in the definitions that it is made from. -/
theorem of_modified? (h : Contributes current wanted contribution) {statement : Text}
    (hs : contribution.modified? = some statement)
    (hold : ∀ column ∈ current.columns, '\n' ∉ column.definition)
    (hnew : '\n' ∉ wanted.definition) :
    (current.column? wanted.name).isSome ∧ ∃ definition, '\n' ∉ definition
      ∧ statement = (Statement.modifyColumn current.name ⟨wanted.name, definition⟩).text := by
  cases h with
  | added new => cases hs
  | same there same => cases hs
  | contained there => cases hs
  | revised there differ noEnums =>
    exact ⟨by rw [there]; rfl, _, hnew, (Option.some.inj hs).symm⟩
  | merged there differ hadIsEnum wantedIsEnum oldRead newRead something =>
    refine ⟨by rw [there]; rfl, _, ?_, (Option.some.inj hs).symm⟩
    have hhad := hold _ (List.mem_of_find?_eq_some there)
    exact Enumeration.feed_merged oldRead newRead
      (fun hm => hhad (Definition.mem_of_mem_canonical hm))
      (fun hm => hnew (Definition.mem_of_mem_canonical hm))

end Contributes

/-- The results of a partial function, each with the one that gave it. -/
theorem forall₂_filterMap {α β : Type} {f : α → Option β} {R : α → β → Prop} {xs : List α}
    (h : ∀ x ∈ xs, ∀ y, f x = some y → R x y) :
    List.Forall₂ R (xs.filter fun x => (f x).isSome) (xs.filterMap f) := by
  induction xs with
  | nil => exact .nil
  | cons x rest ih =>
    have hrest := ih fun x hx => h x (List.mem_cons_of_mem _ hx)
    cases hx : f x with
    | none => simpa [hx] using hrest
    | some y =>
      rw [List.filterMap_cons_some hx, List.filter_cons_of_pos (by simp [hx])]
      exact .cons (h x (by simp) y hx) hrest

/-! ## Scripts of dumps -/

/-- A statement that adds a column as it is cut at its marks. -/
def CutsAsAddition (entry : Table × Column) (statement : Text) : Prop :=
  ∃ rest, statement.splitOn identifierMark
      = "ALTER TABLE ".toList :: entry.1.name :: " ADD ".toList :: entry.2.name :: rest
    ∧ ∀ last, entry.1.lastColumn? = some last → ∃ before, rest = before ++ [last, [';']]

/-- A statement that modifies a column as it is cut at its marks. -/
def CutsAsModification (entry : Table × Column) (statement : Text) : Prop :=
  ∃ rest, statement.splitOn identifierMark
    = "ALTER TABLE ".toList :: entry.1.name :: " MODIFY ".toList :: entry.2.name :: rest

namespace Schema

/-- Both sides of a compared column stand in their schemas. -/
theorem mem_of_mem_compared {old new : Schema} {entry : Table × Column}
    (h : entry ∈ old.compared new) :
    entry.1 ∈ old.tables ∧ ∃ table ∈ new.tables, entry.2 ∈ table.columns := by
  obtain ⟨⟨table, wanted⟩, hdeclared, hentry⟩ := List.mem_filterMap.mp h
  obtain ⟨current, hcurrent, rfl⟩ := Option.map_eq_some_iff.mp hentry
  obtain ⟨other, hother, hpair⟩ := List.mem_flatMap.mp hdeclared
  obtain ⟨column, hcolumn, hmade⟩ := List.mem_map.mp hpair
  obtain ⟨rfl, rfl⟩ := Prod.mk.inj hmade
  exact ⟨List.mem_of_find?_eq_some hcurrent, other, hother, hcolumn⟩

variable {old new : Text} {entry : Table × Column} {contribution : Contribution} {statement : Text}

/-- What is compared of two dumps can stand on a line. -/
theorem readable_of_mem_compared (h : entry ∈ (ofDump old).compared (ofDump new)) :
    entry.1.Readable ∧ entry.2.Readable := by
  obtain ⟨hcurrent, table, htable, hcolumn⟩ := mem_of_mem_compared h
  exact ⟨readable_of_mem_ofDump hcurrent, (readable_of_mem_ofDump htable).columns _ hcolumn⟩

/-- The name of the last column can stand on a line. -/
theorem isName_lastColumn? {table : Table} (h : table.Readable) {name : Text}
    (hn : name ∈ table.lastColumn?) : name.IsName := by
  obtain ⟨column, hcolumn, rfl⟩ := List.mem_map.mp (List.mem_of_getLast? hn)
  exact (h.columns column hcolumn).name

theorem addition_of_compared (he : entry ∈ (ofDump old).compared (ofDump new))
    (hc : Contributes entry.1 entry.2 contribution) (hs : contribution.added? = some statement) :
    statement.IsStatement ∧ CutsAsAddition entry statement := by
  obtain ⟨hcurrent, hwanted⟩ := readable_of_mem_compared he
  rw [hc.added?_eq] at hs
  split at hs
  · obtain rfl := Option.some.inj hs
    exact ⟨Statement.isStatement_addColumn hcurrent.name.feed hwanted.name.feed hwanted.feed
        fun name hn => (isName_lastColumn? hcurrent hn).feed,
      Statement.splitOn_addColumn hcurrent.name.mark hwanted.name.mark
        fun name hn => (isName_lastColumn? hcurrent hn).mark⟩
  · cases hs

theorem modification_of_compared (he : entry ∈ (ofDump old).compared (ofDump new))
    (hc : Contributes entry.1 entry.2 contribution) (hs : contribution.modified? = some statement) :
    (entry.1.column? entry.2.name).isSome ∧ statement.IsStatement
      ∧ CutsAsModification entry statement := by
  obtain ⟨hcurrent, hwanted⟩ := readable_of_mem_compared he
  obtain ⟨there, definition, hfeed, rfl⟩ :=
    hc.of_modified? hs (fun column hm => (hcurrent.columns column hm).feed) hwanted.feed
  exact ⟨there, Statement.isStatement_modifyColumn hcurrent.name.feed hwanted.name.feed hfeed,
    Statement.splitOn_modifyColumn hcurrent.name.mark hwanted.name.mark⟩

end Schema

theorem Script.lookup_adds (script : Script) :
    script.artifacts.lookup "alter_statements.sql".toList = some (stack script.adds) := by
  simp [artifacts]

theorem Script.lookup_modifies (script : Script) :
    script.artifacts.lookup "modify_statements.sql".toList = some (stack script.modifies) := by
  simp [artifacts, List.lookup_cons]

/-- A script that can be read back from its files and from its report. -/
structure Script.Legible (script : Script) (old new : Schema) : Prop where
  /-- The lines of the file of added columns are the statements that add them. -/
  adds : (script.artifacts.lookup "alter_statements.sql".toList).map Text.lines = some script.adds
  /-- The lines of the file of modified columns are the statements that modify them. -/
  modifies :
    (script.artifacts.lookup "modify_statements.sql".toList).map Text.lines = some script.modifies
  /-- The lines of the report are both kinds of statements below their headings, and no more. -/
  report : script.report.lines = [[], "--- ALTER STATEMENTS ---".toList] ++ script.adds
    ++ [[], "--- MODIFY STATEMENTS ---".toList] ++ script.modifies
  /-- The columns that a table does not have are added one by one, each statement with its names
  between its marks. -/
  additions : List.Forall₂ CutsAsAddition
    ((old.compared new).filter fun entry => (entry.1.column? entry.2.name).isNone) script.adds
  /-- Of the columns that are there some are modified, each statement with its names between its
  marks. -/
  modifications : ∃ modified, modified.Sublist
      ((old.compared new).filter fun entry => (entry.1.column? entry.2.name).isSome)
    ∧ List.Forall₂ CutsAsModification modified script.modifies

open Schema in
/-- **What a migration between dumps writes is read back as it was meant.** No name breaks out of
its marks or its line, whatever stands in the dumps. -/
theorem Dump.legible_of_migration {old new : Text} {script : Script}
    (h : Dump.migration old new = .ok script) : script.Legible (ofDump old) (ofDump new) := by
  obtain ⟨hclear, hscript⟩ := Schema.migration_eq_ok.mp h
  have hcontributes : ∀ entry ∈ (ofDump old).compared (ofDump new),
      Contributes entry.1 entry.2 (contributionOf entry) :=
    fun _ he => contributes_contributionOf hclear he
  have hadds : script.adds = ((ofDump old).compared (ofDump new)).filterMap fun entry =>
      (contributionOf entry).added? := by
    rw [hscript]
    exact List.filterMap_map ..
  have hmodifies : script.modifies = ((ofDump old).compared (ofDump new)).filterMap fun entry =>
      (contributionOf entry).modified? := by
    rw [hscript]
    exact List.filterMap_map ..
  have hadd : ∀ t ∈ script.adds, t.IsStatement := by
    intro t ht
    rw [hadds] at ht
    obtain ⟨entry, he, hs⟩ := List.mem_filterMap.mp ht
    exact (addition_of_compared he (hcontributes entry he) hs).1
  have hmodify : ∀ t ∈ script.modifies, t.IsStatement := by
    intro t ht
    rw [hmodifies] at ht
    obtain ⟨entry, he, hs⟩ := List.mem_filterMap.mp ht
    exact (modification_of_compared he (hcontributes entry he) hs).2.1
  refine ⟨?_, ?_, Script.lines_report hadd hmodify, ?_, ?_⟩
  · rw [Script.lookup_adds, Option.map_some, Script.lines_stack hadd]
  · rw [Script.lookup_modifies, Option.map_some, Script.lines_stack hmodify]
  · have hfilter : ((ofDump old).compared (ofDump new)).filter
          (fun entry => (contributionOf entry).added?.isSome)
        = ((ofDump old).compared (ofDump new)).filter fun entry =>
          (entry.1.column? entry.2.name).isNone := by
      refine List.filter_congr fun entry he => ?_
      rw [(hcontributes entry he).added?_eq]
      cases entry.1.column? entry.2.name <;> rfl
    rw [hadds, ← hfilter]
    exact forall₂_filterMap fun entry he t hs =>
      (addition_of_compared he (hcontributes entry he) hs).2
  · refine ⟨((ofDump old).compared (ofDump new)).filter fun entry =>
      (contributionOf entry).modified?.isSome, ?_, ?_⟩
    · refine List.sublist_filter_iff.mpr ⟨_, List.filter_sublist, (List.filter_eq_self.mpr ?_).symm⟩
      intro entry he
      obtain ⟨hm, hsome⟩ := List.mem_filter.mp he
      obtain ⟨t, hs⟩ := Option.isSome_iff_exists.mp hsome
      exact (modification_of_compared hm (hcontributes entry hm) hs).1
    · rw [hmodifies]
      exact forall₂_filterMap fun entry he t hs =>
        (modification_of_compared he (hcontributes entry he) hs).2.2

/-- A dump with a nameless column, and with one whose name ends with its line. -/
def Dump.oddNames : Text :=
  "CREATE TABLE `t` (\n`` int,\n`e` enum('u') COMMENT '`',\n`a b\r\r\n) ENGINE".toList

/-- A dump with two more columns and another value. -/
def Dump.oddNamesGrown : Text :=
  "CREATE TABLE `t` (\n`e` enum('v') COMMENT '`',\n`n` int,\n`;\n) ENGINE".toList

theorem Dump.legible_of_migration_oddNames :
    ∃ script, Dump.migration oddNames oddNamesGrown = .ok script
      ∧ script.Legible (Schema.ofDump oddNames) (Schema.ofDump oddNamesGrown) := by
  have hclear : (Plan.between (Schema.ofDump oddNames) (Schema.ofDump oddNamesGrown)).failure
      = none := by
    decide +kernel
  have hscript := Plan.script_eq_ok.mpr ⟨hclear, rfl⟩
  exact ⟨_, hscript, Dump.legible_of_migration hscript⟩

end SchemaGrowth
