import SchemaGrowth.Proofs.Migration.WrittenLines

/-!
# Tables that are created again

The statements that create tables are themselves a dump. `Table.reread` is what becomes of a table
in it, `Table.ReadsBack` what a table needs to come out as it was, and `ofDump_createTables` says
that the dump holds the tables that it was written from exactly if all of them have what they need.
-/

namespace SchemaGrowth

open Dump Text Statement

/-! ## One table -/

/-- The table that is read back from its own lines, where other tables come after it. -/
def Table.reread (table : Table) (after : List Table) : Table :=
  (replay (.body table.name, .empty table.name) (readLines table ++ gap table after)).2

/-- What a table needs to be read back as it is, where other tables come after it. -/
structure Table.ReadsBack (table : Table) (after : List Table) : Prop where
  /-- The last definition ends neither with a comma nor with a blank. -/
  lastColumn : ∀ column ∈ table.columns.getLast?, ∀ c ∈ column.definition.getLast?,
    c ≠ ',' ∧ isBlank c = false
  /-- No line ends with a carriage return. -/
  noReturn : ∀ line ∈ table.alterLines, line.getLast? ≠ some '\r'
  /-- A name that stands in the header of a block has no words that are read otherwise there. -/
  name : table.alterLines ≠ [] →
    table.name.hasWord createWords = false ∧ table.name.hasWord bodyEndWords = false
  /-- The last block is closed before another table comes. -/
  closed : table.alterLines ≠ [] → after ≠ [] →
    ∀ line ∈ table.alterLines.getLast?, endsStatement line = true

theorem eq_nil_of_mem_gap {table : Table} {after : List Table} {line : Text}
    (h : line ∈ gap table after) : line = [] := by
  unfold gap at h
  split at h
  · cases h
  · split at h <;> simpa using h

theorem plain_declarationLines {columns : List Column} (h : ∀ column ∈ columns, column.Readable)
    {line : Text} (hl : line ∈ declarationLines columns) : Plain line := by
  have hdeclaration : ∀ column ∈ columns, Plain (' ' :: ' ' :: column.declaration) := by
    intro column hc
    have hp := Plain.identifier Plain.nil.space.space (h column hc).plainName
      (h column hc).plainDefinition.space
    simpa [Column.declaration] using hp
  rcases mem_declarationLines hl with rfl | ⟨column, hc, rfl | rfl⟩
  · exact Plain.nil
  · exact hdeclaration column hc
  · exact (hdeclaration column hc).comma

namespace Table

variable {table : Table} {after : List Table}

/-- The lines behind the header of a table hold none of the words of a header, except for the
headers of its blocks. -/
theorem Readable.of_mem_readLines (h : table.Readable) {line : Text}
    (hl : line ∈ readLines table ++ gap table after) :
    line.hasWord createWords = false ∧ line.hasWord alterWords = false
      ∨ line = alterHeader table.name := by
  rcases List.mem_append.mp hl with hl | hl
  · obtain ⟨written, hw, rfl⟩ := List.mem_map.mp hl
    have hin := (prefix_dropLastIf written '\r').isInfix
    rcases List.mem_append.mp hw with hw | hw
    · have hp := (plain_declarationLines h.columns hw).of_isInfix hin
      exact .inl ⟨hp.create, hp.alter⟩
    · rcases List.mem_cons.mp hw with rfl | hw
      · exact .inl (by decide)
      · rcases mem_blockLines hw with rfl | hw
        · exact .inr (dropLastIf_alterHeader table.name)
        · have hb := h.alterLines written hw
          exact .inl ⟨hasWord_of_isInfix hin hb.create, hasWord_of_isInfix hin hb.alter⟩
  · obtain rfl := eq_nil_of_mem_gap hl
    exact .inl ⟨Plain.nil.create, Plain.nil.alter⟩

theorem Readable.names (h : table.Readable) {line : Text}
    (hl : line ∈ readLines table ++ gap table after) : Names table.name line := by
  intro hw
  rcases h.of_mem_readLines hl with ⟨hc, ha⟩ | rfl
  · simp [hc, ha] at hw
  · exact identifier?_alterHeader h.name

/-- Behind the columns and the closing line, a table has its columns and is still in its body. -/
theorem reread_eq (h : table.Readable) (after : List Table) :
    table.reread after
      = (replay (.body table.name, ⟨table.name, lastCut table.columns, []⟩)
          ((blockLines table.name false table.alterLines).map (·.dropLastIf '\r')
            ++ gap table after)).2 := by
  have hcolumns : (lastCut table.columns).foldl setColumn (.empty table.name)
      = ⟨table.name, lastCut table.columns, []⟩ := by
    have hn : ((lastCut table.columns).map Column.name).Nodup := by
      rw [map_name_lastCut]
      exact h.distinct
    rw [foldl_setColumn]
    exact congrArg (Table.mk table.name · []) (Keyed.foldl_put_of_nodup hn)
  have hclosing : (Place.body table.name).read (closing.dropLastIf '\r')
      = (.ignored, .body table.name) :=
    read_body_of_plain (.of_words (by decide) (by decide) (by decide)) (by decide)
  rw [reread, readLines_eq, List.append_assoc, replay_append]
  have hbody := replay_declarationLines h.columns (.empty table.name)
  rw [hcolumns] at hbody
  exact congrArg (fun state => (replay state _).2) hbody |>.trans
    (congrArg Prod.snd (replay_of_read hclosing _ _))

/-- A table without blocks has its columns. -/
theorem reread_of_nil (h : table.Readable) (hnone : table.alterLines = []) :
    table.reread after = ⟨table.name, lastCut table.columns, []⟩ := by
  rw [reread_eq h, hnone]
  exact congrArg Prod.snd (replay_empty_body (fun _ hl => eq_nil_of_mem_gap hl) _)

/-- A table with blocks has its columns and its lines, and the empty lines behind a block that is
left open. -/
theorem reread_of_plain (h : table.Readable) (hsome : table.alterLines ≠ [])
    (hc : table.name.hasWord createWords = false)
    (he : table.name.hasWord bodyEndWords = false) :
    table.reread after = ⟨table.name, lastCut table.columns,
      table.alterLines.map (·.dropLastIf '\r')
        ++ if leftOpen false table.alterLines then gap table after else []⟩ := by
  obtain ⟨line, rest, hlines⟩ := List.exists_cons_of_ne_nil hsome
  have hblocks := replay_blockLines h.name hc h.alterLines false (lastCut table.columns) []
  -- The first header is read in the body as it would be read outside.
  have hbody : (Place.body table.name).read (alterHeader table.name)
      = Place.outside.read (alterHeader table.name) := by
    rw [read_alterHeader h.name hc (by simp [he]), read_alterHeader h.name hc rfl]
  have hfirst : replay (.body table.name, ⟨table.name, lastCut table.columns, []⟩)
        ((blockLines table.name false table.alterLines).map (·.dropLastIf '\r'))
      = replay (.outside, ⟨table.name, lastCut table.columns, []⟩)
        ((blockLines table.name false table.alterLines).map (·.dropLastIf '\r')) := by
    rw [hlines, blockLines, if_neg (by simp), List.singleton_append, List.map_cons,
      dropLastIf_alterHeader, replay_cons, replay_cons, hbody]
  rw [blockPlace, if_neg (by simp)] at hblocks
  rw [reread_eq h, replay_append, hfirst, hblocks, replay_empty fun _ hl => eq_nil_of_mem_gap hl]
  rfl

/-- A name with the words that end a body loses the first statement of its blocks. -/
theorem alterLines_reread_of_bodyEnd (h : table.Readable) (hsome : table.alterLines ≠ [])
    (hc : table.name.hasWord createWords = false)
    (he : table.name.hasWord bodyEndWords = true) :
    (table.reread after).alterLines
      = (behindFirst table.alterLines).map (·.dropLastIf '\r')
        ++ if leftOpen false (behindFirst table.alterLines) then gap table after else [] := by
  obtain ⟨line, rest, hlines⟩ := List.exists_cons_of_ne_nil hsome
  have hblocks := replay_blockLines_outside h.name hc h.alterLines (lastCut table.columns) []
  -- The first header ends the body, and what follows it is read outside.
  have hfirst : replay (.body table.name, ⟨table.name, lastCut table.columns, []⟩)
        ((blockLines table.name false table.alterLines).map (·.dropLastIf '\r'))
      = replay (.outside, ⟨table.name, lastCut table.columns, []⟩)
        ((blockLines table.name true table.alterLines).map (·.dropLastIf '\r')) := by
    rw [hlines, blockLines, if_neg (by simp), List.singleton_append, List.map_cons,
      dropLastIf_alterHeader, replay_of_read (read_alterHeader_body hc he)]
    rfl
  rw [reread_eq h, replay_append, hfirst, hblocks, replay_empty fun _ hl => eq_nil_of_mem_gap hl]
  rfl

/-- A name with the words of a `CREATE TABLE` loses all its blocks. -/
theorem alterLines_reread_of_create (h : table.Readable)
    (hc : table.name.hasWord createWords = true) : (table.reread after).alterLines = [] := by
  have hlines : ∀ line ∈ readLines table ++ gap table after,
      line.hasWord createWords = true ∨ line.hasWord alterWords = false := by
    intro line hl
    rcases h.of_mem_readLines hl with ⟨-, ha⟩ | rfl
    · exact .inr ha
    · exact .inl ((hasWord_create_alterHeader table.name).trans hc)
  exact alterLines_replay_of_create hlines (by simp) rfl

end Table

/-! ## What a table needs -/

theorem map_append_eq_self {α : Type} {f : α → α} {xs extra : List α} :
    xs.map f ++ extra = xs ↔ (∀ x ∈ xs, f x = x) ∧ extra = [] := by
  constructor
  · intro h
    have hlen := congrArg List.length h
    rw [List.length_append, List.length_map] at hlen
    obtain rfl : extra = [] := List.length_eq_zero_iff.mp (by omega)
    rw [List.append_nil] at h
    exact ⟨List.map_inj_left.mp (h.trans (List.map_id xs).symm), rfl⟩
  · rintro ⟨hf, rfl⟩
    rw [List.append_nil, List.map_congr_left hf, List.map_id']

/-- With the first statement, one line is gone that ends a statement. -/
theorem countP_behindFirst {lines : List Text} (h : behindFirst lines ≠ []) :
    lines.countP endsStatement = (behindFirst lines).countP endsStatement + 1 := by
  cases hd : lines.dropWhile fun line => !endsStatement line with
  | nil =>
    rw [behindFirst, hd] at h
    exact absurd rfl h
  | cons first rest =>
    have hfirst : endsStatement first = true := by
      have hhead := List.head?_dropWhile_not (fun line => !endsStatement line) lines
      rw [hd] at hhead
      simpa using hhead
    have hbefore : (lines.takeWhile fun line => !endsStatement line).countP endsStatement = 0 := by
      rw [List.countP_eq_zero]
      intro line hl
      simpa using List.mem_takeWhile_imp hl
    have hsplit : lines.takeWhile (fun line => !endsStatement line) ++ first :: rest = lines := by
      rw [← hd]
      exact List.takeWhile_append_dropWhile
    rw [behindFirst, hd, List.tail_cons, ← hsplit, List.countP_append, hbefore, List.countP_cons,
      if_pos hfirst, Nat.zero_add]

/-- Lines of which the first statement is missing are others. -/
theorem behindFirst_ne {lines extra : List Text} (hne : lines ≠ [])
    (hextra : ∀ line ∈ extra, line = []) :
    (behindFirst lines).map (·.dropLastIf '\r')
      ++ (if leftOpen false (behindFirst lines) then extra else []) ≠ lines := by
  intro h
  by_cases hnone : behindFirst lines = []
  · rw [hnone] at h
    exact hne h.symm
  · -- Neither a carriage return nor an empty line counts as the end of a statement.
    have hstrip : endsStatement ∘ (fun line : Text => line.dropLastIf '\r') = endsStatement :=
      funext endsStatement_dropLastIf
    have hempty : (if leftOpen false (behindFirst lines) then extra else []).countP endsStatement
        = 0 := by
      rw [List.countP_eq_zero]
      intro line hl
      split at hl
      · rw [hextra line hl]
        decide
      · cases hl
    have hcount := congrArg (List.countP endsStatement) h
    rw [List.countP_append, List.countP_map, hstrip, hempty, countP_behindFirst hnone] at hcount
    omega

namespace Table

variable {table : Table} {after : List Table}

theorem lastCut_columns (h : table.Readable) :
    lastCut table.columns = table.columns
      ↔ ∀ column ∈ table.columns.getLast?, ∀ c ∈ column.definition.getLast?,
          c ≠ ',' ∧ isBlank c = false := by
  rw [lastCut_eq_self]
  constructor
  · intro hc column hm
    exact (Column.cut_eq_self (h.columns column (List.mem_of_getLast? hm))).mp (hc column hm)
  · intro hc column hm
    exact (Column.cut_eq_self (h.columns column (List.mem_of_getLast? hm))).mpr (hc column hm)

theorem gap_eq_nil (hsome : table.alterLines ≠ []) : gap table after = [] ↔ after = [] := by
  simp [gap, hsome]

/-- With a name that holds other words, a table loses lines. -/
theorem reread_ne (h : table.Readable) (hsome : table.alterLines ≠ [])
    (hname : ¬ (table.name.hasWord createWords = false
      ∧ table.name.hasWord bodyEndWords = false)) : table.reread after ≠ table := by
  intro heq
  have hlines := congrArg Table.alterLines heq
  by_cases hc : table.name.hasWord createWords = false
  · have he : table.name.hasWord bodyEndWords = true := by
      simpa [hc] using hname
    rw [alterLines_reread_of_bodyEnd h hsome hc he] at hlines
    exact behindFirst_ne hsome (fun _ hl => eq_nil_of_mem_gap hl) hlines
  · rw [alterLines_reread_of_create h (eq_true_of_ne_false hc)] at hlines
    exact hsome hlines.symm

/-- A table is read back as it is exactly if it has what it needs. -/
theorem reread_eq_self (h : table.Readable) :
    table.reread after = table ↔ table.ReadsBack after := by
  -- Without blocks only the columns count, and no name can do any harm.
  by_cases hsome : table.alterLines = []
  · rw [reread_of_nil h hsome]
    constructor
    · intro he
      exact ⟨(lastCut_columns h).mp (congrArg Table.columns he), by simp [hsome],
        fun hne => absurd hsome hne, fun hne => absurd hsome hne⟩
    · intro hb
      rw [(lastCut_columns h).mpr hb.lastColumn, ← hsome]
  by_cases hname : table.name.hasWord createWords = false
      ∧ table.name.hasWord bodyEndWords = false
  · rw [reread_of_plain h hsome hname.1 hname.2]
    have hreturn : (∀ line ∈ table.alterLines, line.dropLastIf '\r' = line)
        ↔ ∀ line ∈ table.alterLines, line.getLast? ≠ some '\r' := by
      simp only [dropLastIf_eq_self]
    have hopen : (if leftOpen false table.alterLines then gap table after else []) = []
        ↔ (after ≠ [] → ∀ line ∈ table.alterLines.getLast?, endsStatement line = true) := by
      rw [← leftOpen_eq_false hsome false]
      cases leftOpen false table.alterLines <;> simp [gap_eq_nil hsome]
    constructor
    · intro he
      obtain ⟨hlines, hgap⟩ := map_append_eq_self.mp (congrArg Table.alterLines he)
      exact ⟨(lastCut_columns h).mp (congrArg Table.columns he), hreturn.mp hlines,
        fun _ => hname, fun _ => hopen.mp hgap⟩
    · intro hb
      rw [(lastCut_columns h).mpr hb.lastColumn,
        map_append_eq_self.mpr ⟨hreturn.mpr hb.noReturn, hopen.mpr (hb.closed hsome)⟩]
  · constructor
    · intro he
      exact absurd he (reread_ne h hsome hname)
    · intro hb
      exact absurd (hb.name hsome) hname

end Table

/-! ## Many tables -/

/-- Tables as they are read back from the statements that create them. -/
def rereads : List Table → List Table
  | [] => []
  | table :: after => table.reread after :: rereads after

theorem rereads_eq_self {tables : List Table} : rereads tables = tables
    ↔ ∀ before table after, tables = before ++ table :: after → table.reread after = table := by
  induction tables with
  | nil => simp [rereads]
  | cons first rest ih =>
    rw [rereads, List.cons.injEq, ih]
    constructor
    · rintro ⟨hfirst, hrest⟩ before table after hs
      cases before with
      | nil =>
        obtain ⟨rfl, rfl⟩ := List.cons.inj hs
        exact hfirst
      | cons _ before => exact hrest before table after (List.cons.inj hs).2
    · intro h
      exact ⟨h [] first rest rfl, fun before table after hs =>
        h (first :: before) table after (by rw [hs, List.cons_append])⟩

namespace Schema

/-- The lines of many tables are read from one header to the next. -/
theorem foldl_apply_tableLines {tables new : List Table} (hr : ∀ table ∈ new, table.Readable)
    (hn : ((tables ++ new).map Table.name).Nodup) (place : Place) :
    (place.events (tableLines new)).foldl apply ⟨tables⟩ = ⟨tables ++ rereads new⟩ := by
  induction new generalizing tables place with
  | nil => simp [tableLines, rereads]
  | cons table after ih =>
    have ht := hr table (by simp)
    have hname : (table.reread after).name = table.name := name_replay _ _
    have hnew : table.name ∉ tables.map Table.name := by
      rw [List.map_append, List.nodup_append] at hn
      intro hm
      exact hn.2.2 _ hm table.name (by simp) rfl
    have hcreated : (Schema.mk tables).apply (.created table.name)
        = ⟨tables ++ [.empty table.name]⟩ :=
      congrArg Schema.mk (Keyed.put_of_not_mem hnew)
    -- The header puts an empty table last, and the lines up to the next header are its own.
    have hown : ((Place.body table.name).events (readLines table ++ gap table after)).foldl apply
        ⟨tables ++ [.empty table.name]⟩ = ⟨tables ++ [table.reread after]⟩ :=
      foldl_apply_events hnew rfl fun _ hl => ht.names hl
    have hdistinct : ((tables ++ [table.reread after] ++ after).map Table.name).Nodup := by
      simpa [hname] using hn
    have hrest := ih (fun t hm => hr t (List.mem_cons_of_mem _ hm)) hdistinct
    rw [tableLines, Place.events_append, List.foldl_append, Place.events_cons,
      read_createHeader ht.name, List.foldl_cons, hcreated, hown]
    refine (hrest _).trans ?_
    rw [rereads, List.append_assoc, List.singleton_append]

/-- What is read back from the statements that create some tables. -/
theorem ofDump_stack_createTable {tables : List Table} (hr : ∀ table ∈ tables, table.Readable)
    (hn : (tables.map Table.name).Nodup) :
    ofDump (Script.stack (tables.map fun table => (createTable table).text))
      = ⟨rereads tables⟩ := by
  cases tables with
  | nil => rfl
  | cons table after =>
    have hempty : Place.outside.read [] = (.ignored, .outside) := IsBlockLine.nil.read_outside
    have hlines : (Place.outside.events (tableLines (table :: after))).foldl apply ⟨[]⟩
        = ⟨[] ++ rereads (table :: after)⟩ := foldl_apply_tableLines hr hn .outside
    rw [ofDump, ofEvents, events, lines_stack_createTable hr, Place.events_cons, hempty]
    exact hlines

/-- **The statements that create tables can be read back.** For tables of a dump in their order,
each a table of its own, the script that creates them is a dump of just these tables if and only if
every one of them has what it needs. -/
theorem ofDump_createTables {dump : Text} {tables : List Table}
    (h : tables.Sublist (ofDump dump).tables) :
    ofDump (Script.stack (tables.map fun table => (createTable table).text)) = ⟨tables⟩
      ↔ ∀ before table after, tables = before ++ table :: after → table.ReadsBack after := by
  have hr : ∀ table ∈ tables, table.Readable := fun _ hm => readable_of_mem_ofDump (h.subset hm)
  have hn : (tables.map Table.name).Nodup :=
    (nodup_tableNames_ofEvents (events dump)).sublist (h.map Table.name)
  rw [ofDump_stack_createTable hr hn, Schema.mk.injEq, rereads_eq_self]
  have hone : ∀ before table after, tables = before ++ table :: after →
      (table.reread after = table ↔ table.ReadsBack after) := by
    intro before table after hs
    exact Table.reread_eq_self (hr table (by simp [hs]))
  constructor
  · intro hall before table after hs
    exact (hone before table after hs).mp (hall before table after hs)
  · intro hall before table after hs
    exact (hone before table after hs).mpr (hall before table after hs)

/-- A dump of three tables. The first and the last have a block, and that of the last is left
open. -/
def threeTables : Text :=
  unlines
    [ "CREATE TABLE `bins`".toList, "`id` int".toList, ") ENGINE".toList,
      "ALTER TABLE `bins`".toList, "ADD KEY;".toList, "CREATE TABLE `spare`".toList,
      "CREATE TABLE `parts`".toList, "`id` int".toList, ") ENGINE".toList,
      "ALTER TABLE `parts`".toList, "ADD KEY".toList ]

/-- The tables with blocks. -/
def blockTables : List Table :=
  [ ⟨"bins".toList, [⟨"id".toList, "int".toList⟩], ["ADD KEY;".toList]⟩,
    ⟨"parts".toList, [⟨"id".toList, "int".toList⟩], ["ADD KEY".toList]⟩ ]

theorem ofDump_createTables_blockTables :
    blockTables.Sublist (ofDump threeTables).tables
      ∧ (∀ before table after, blockTables = before ++ table :: after → table.ReadsBack after)
      ∧ ofDump (Script.stack (blockTables.map fun table => (createTable table).text))
          = ⟨blockTables⟩ := by
  have h : blockTables.Sublist (ofDump threeTables).tables := by decide +kernel
  have hreads : ∀ before table after, blockTables = before ++ table :: after →
      table.ReadsBack after := by
    intro before table after hs
    rcases before with _ | ⟨first, _ | ⟨second, rest⟩⟩
    · cases hs
      exact ⟨by rintro _ ⟨⟩ _ ⟨⟩; decide, by decide, by decide, by decide⟩
    · cases hs
      exact ⟨by rintro _ ⟨⟩ _ ⟨⟩; decide, by decide, by decide, by decide⟩
    · simp [blockTables] at hs
  exact ⟨h, hreads, (ofDump_createTables h).mpr hreads⟩

/-- A table whose name holds the words that end a body loses its first statement. -/
example :
    let old := ofDump "CREATE TABLE `) ENGINE`\n) ENGINE\nALTER TABLE `) ENGINE`\nADD KEY;".toList
    let new := ofDump (Script.stack (old.tables.map fun table => (createTable table).text))
    old.tables.map Table.alterLines = [["ADD KEY;".toList]]
      ∧ new.tables.map Table.alterLines = [[]] := by
  decide +kernel

end Schema

end SchemaGrowth
