import SchemaGrowth.Migration.Script
import SchemaGrowth.Proofs.Dump.Readable

/-!
# The lines of the statements that create tables

The statements that create tables stand one below the other. `lines_stack_createTable` gives the
lines of such a text: for each table a header, a line for each column, the line that closes the
statement, the `ALTER TABLE` blocks, and empty lines before the next header.
-/

namespace SchemaGrowth

open Dump Text

namespace Statement

/-! ## Lines of one table -/

/-- The line that starts a `CREATE TABLE` statement. -/
def createHeader (table : Text) : Text :=
  createWords ++ table.identifier ++ [' ', '(']

/-- The line that closes a `CREATE TABLE` statement. -/
def closing : Text :=
  [')', ';']

/-- The lines that declare columns: one line for each, or an empty one if there are none. -/
def declarationLines : List Column → List Text
  | [] => [[]]
  | [column] => [' ' :: ' ' :: column.declaration]
  | column :: rest => (' ' :: ' ' :: column.declaration ++ [',']) :: declarationLines rest

/-- The lines of `ALTER TABLE` blocks. -/
def blockLines (table : Text) : Bool → List Text → List Text
  | _, [] => []
  | inBlock, line :: rest =>
    (if inBlock then [] else [alterHeader table])
      ++ line :: blockLines table (!endsStatement line) rest

/-- The lines of a table behind its first header. -/
def bodyLines (table : Table) : List Text :=
  declarationLines table.columns ++ closing :: blockLines table.name false table.alterLines

theorem mem_declarationLines {columns : List Column} {line : Text}
    (h : line ∈ declarationLines columns) :
    line = [] ∨ ∃ column ∈ columns, line = ' ' :: ' ' :: column.declaration
      ∨ line = ' ' :: ' ' :: column.declaration ++ [','] := by
  fun_induction declarationLines columns with
  | case1 => exact .inl (List.mem_singleton.mp h)
  | case2 column => exact .inr ⟨column, by simp, .inl (List.mem_singleton.mp h)⟩
  | case3 column rest _ ih =>
    rcases List.mem_cons.mp h with rfl | h
    · exact .inr ⟨column, by simp, .inr rfl⟩
    · rcases ih h with hl | ⟨other, hm, hl⟩
      · exact .inl hl
      · exact .inr ⟨other, List.mem_cons_of_mem _ hm, hl⟩

theorem mem_blockLines {name : Text} {inBlock : Bool} {lines : List Text} {line : Text}
    (h : line ∈ blockLines name inBlock lines) : line = alterHeader name ∨ line ∈ lines := by
  induction lines generalizing inBlock with
  | nil => cases h
  | cons first rest ih =>
    rw [blockLines, List.mem_append, List.mem_cons] at h
    rcases h with h | rfl | h
    · cases inBlock with
      | true => cases h
      | false => exact .inl (List.mem_singleton.mp h)
    · exact .inr (by simp)
    · exact (ih h).imp_right (List.mem_cons_of_mem _)

theorem intercalate_declarations (columns : List Column) (t : Text) :
    [',', '\n'].intercalate (columns.map fun c => ' ' :: ' ' :: c.declaration) ++ '\n' :: t
      = unlines (declarationLines columns) ++ t := by
  induction columns with
  | nil => rfl
  | cons column rest ih =>
    cases rest with
    | nil => simp [declarationLines, unlines]
    | cons second rest =>
      have hlines : declarationLines (column :: second :: rest)
          = (' ' :: ' ' :: column.declaration ++ [',']) :: declarationLines (second :: rest) := rfl
      rw [List.map_cons] at ih
      rw [List.map_cons, List.map_cons, List.intercalate_cons_cons, List.append_assoc, ih, hlines,
        unlines_cons]
      simp

theorem alterBlocks_eq_unlines (table : Text) (inBlock : Bool) (lines : List Text) :
    alterBlocks table inBlock lines = unlines (blockLines table inBlock lines) := by
  induction lines generalizing inBlock with
  | nil => rfl
  | cons line rest ih =>
    rw [alterBlocks, blockLines, unlines_append, unlines_cons, ih]
    cases inBlock <;> simp [unlines]

/-- The text of a table up to its closing line, and what follows that line. -/
theorem text_createTable (table : Table) :
    (createTable table).text
      = unlines ([] :: createHeader table.name :: declarationLines table.columns) ++ (closing
        ++ if table.alterLines = [] then []
          else '\n' :: unlines (blockLines table.name false table.alterLines)) := by
  have hcreate : "\nCREATE TABLE ".toList = '\n' :: createWords := by decide
  have hopen : " (\n".toList = [' ', '(', '\n'] := by decide
  have hcomma : ",\n".toList = [',', '\n'] := by decide
  have hindent : "  ".toList = [' ', ' '] := by decide
  have hclose : "\n);".toList = '\n' :: closing := by decide
  have hcolumns := intercalate_declarations table.columns (closing
    ++ if table.alterLines = [] then []
      else '\n' :: unlines (blockLines table.name false table.alterLines))
  rw [unlines_cons, unlines_cons, List.append_assoc, List.cons_append, List.append_assoc,
    List.cons_append, ← hcolumns]
  change "\nCREATE TABLE ".toList ++ table.name.identifier ++ " (\n".toList
      ++ ",\n".toList.intercalate (table.columns.map fun c => "  ".toList ++ c.declaration)
      ++ "\n);".toList
      ++ (if table.alterLines.isEmpty then []
          else '\n' :: alterBlocks table.name false table.alterLines) = _
  rw [hcreate, hopen, hcomma, hindent, hclose, alterBlocks_eq_unlines]
  simp [createHeader]

/-! ## Lines without line feeds -/

theorem feed_identifier {name : Text} (h : '\n' ∉ name) : '\n' ∉ name.identifier := by
  have hmark : '\n' ≠ identifierMark := by decide
  simp [identifier, quoted, h, hmark]

theorem feed_declaration {column : Column} (hn : '\n' ∉ column.name)
    (hd : '\n' ∉ column.definition) : '\n' ∉ column.declaration := by
  simp [Column.declaration, feed_identifier hn, hd]

theorem feed_createHeader {name : Text} (h : '\n' ∉ name) : '\n' ∉ createHeader name := by
  have hwords : '\n' ∉ createWords := by decide
  simp [createHeader, hwords, feed_identifier h]

theorem alterHeader_eq (name : Text) : alterHeader name = alterWords ++ ' ' :: name.identifier := by
  have hwords : "ALTER TABLE ".toList = alterWords ++ [' '] := by decide
  change "ALTER TABLE ".toList ++ name.identifier = _
  rw [hwords, List.append_assoc, List.singleton_append]

theorem feed_alterHeader {name : Text} (h : '\n' ∉ name) : '\n' ∉ alterHeader name := by
  have hwords : '\n' ∉ alterWords := by decide
  simp [alterHeader_eq, hwords, feed_identifier h]

theorem feed_declarationLines {columns : List Column} (h : ∀ column ∈ columns, column.Readable)
    {line : Text} (hl : line ∈ declarationLines columns) : '\n' ∉ line := by
  have hdeclaration : ∀ column ∈ columns, '\n' ∉ column.declaration :=
    fun column hc => feed_declaration (h column hc).name.feed (h column hc).feed
  rcases mem_declarationLines hl with rfl | ⟨column, hc, rfl | rfl⟩
  · simp
  · simp [hdeclaration column hc]
  · simp [hdeclaration column hc]

theorem feed_blockLines {name : Text} (hn : '\n' ∉ name) {inBlock : Bool} {lines : List Text}
    (h : ∀ line ∈ lines, '\n' ∉ line) {line : Text} (hl : line ∈ blockLines name inBlock lines) :
    '\n' ∉ line := by
  rcases mem_blockLines hl with rfl | hl
  · exact feed_alterHeader hn
  · exact h line hl

/-! ## Lines of many tables -/

/-- The lines of a table behind its first header as they are read: a carriage return at the end of
a line is gone. -/
def readLines (table : Table) : List Text :=
  (bodyLines table).map (·.dropLastIf '\r')

/-- The empty lines behind a table, before the header of the next one. -/
def gap (table : Table) (after : List Table) : List Text :=
  if after = [] then [] else if table.alterLines = [] then [[]] else [[], []]

/-- The lines of many tables, from the first header on. -/
def tableLines : List Table → List Text
  | [] => []
  | table :: after =>
    createHeader table.name :: (readLines table ++ gap table after) ++ tableLines after

theorem lines_createTable_append {table : Table} (h : table.Readable) (t : Text) :
    ((createTable table).text ++ t).lines
      = [] :: createHeader table.name :: (declarationLines table.columns).map (·.dropLastIf '\r')
        ++ ((closing ++ if table.alterLines = [] then []
          else '\n' :: unlines (blockLines table.name false table.alterLines)) ++ t).lines := by
  have hfeed : ∀ line ∈ [] :: createHeader table.name :: declarationLines table.columns,
      '\n' ∉ line := by
    intro line hl
    rcases List.mem_cons.mp hl with rfl | hl
    · simp
    · rcases List.mem_cons.mp hl with rfl | hl
      · exact feed_createHeader h.name.feed
      · exact feed_declarationLines h.columns hl
  have hheader : (createHeader table.name).dropLastIf '\r' = createHeader table.name := by
    rw [dropLastIf_eq_self]
    simp [createHeader]
  rw [text_createTable, List.append_assoc, lines_unlines_append hfeed, List.map_cons, List.map_cons,
    hheader]
  rfl

theorem lines_closing {table : Table} (h : table.Readable) (t : Text) :
    (closing ++ '\n' :: (unlines (blockLines table.name false table.alterLines) ++ t)).lines
      = (closing :: blockLines table.name false table.alterLines).map (·.dropLastIf '\r')
        ++ t.lines := by
  have hclosing : '\n' ∉ closing := by decide
  rw [lines_append hclosing, lines_unlines_append]
  · rfl
  · exact fun line hl => feed_blockLines h.name.feed (fun l hm => (h.alterLines l hm).feed) hl

theorem readLines_eq (table : Table) :
    readLines table = (declarationLines table.columns).map (·.dropLastIf '\r')
      ++ (closing :: blockLines table.name false table.alterLines).map (·.dropLastIf '\r') := by
  rw [readLines, bodyLines, List.map_append]

/-- A table with which a text ends. -/
theorem lines_createTable {table : Table} (h : table.Readable) :
    (createTable table).text.lines = [] :: createHeader table.name :: readLines table := by
  have hlines := lines_createTable_append h []
  rw [List.append_nil, List.append_nil] at hlines
  rw [hlines, readLines_eq]
  split
  · rename_i hnone
    have hclosing : '\n' ∉ closing := by decide
    rw [List.append_nil, lines_of_not_mem hclosing, hnone]
    rfl
  · have htail := lines_closing h []
    rw [List.append_nil, lines_nil, List.append_nil] at htail
    rw [htail]
    rfl

/-- A table that another text follows. -/
theorem lines_createTable_cons {table : Table} (h : table.Readable) (t : Text) :
    ((createTable table).text ++ '\n' :: t).lines
      = [] :: createHeader table.name :: readLines table
        ++ ((if table.alterLines = [] then [] else [[]]) ++ t.lines) := by
  rw [lines_createTable_append h, readLines_eq]
  split
  · rename_i hnone
    have hclosing : '\n' ∉ closing := by decide
    rw [List.append_nil, lines_append hclosing, hnone]
    simp [blockLines]
  · have htail := lines_closing h ('\n' :: t)
    have hempty : lines ('\n' :: t) = [] :: t.lines := lines_append List.not_mem_nil t
    rw [hempty] at htail
    have hassoc : (closing ++ '\n' :: unlines (blockLines table.name false table.alterLines))
          ++ '\n' :: t
        = closing ++ '\n' :: (unlines (blockLines table.name false table.alterLines) ++ '\n' :: t) := by
      simp
    rw [hassoc, htail]
    simp

/-- **The lines of statements that create tables.** -/
theorem lines_stack_createTable {table : Table} {after : List Table}
    (h : ∀ t ∈ table :: after, t.Readable) :
    (Script.stack ((table :: after).map fun t => (createTable t).text)).lines
      = [] :: tableLines (table :: after) := by
  induction after generalizing table with
  | nil =>
    rw [Script.stack, List.map_singleton, List.intercalate_singleton,
      lines_createTable (h table (by simp))]
    simp [tableLines, gap]
  | cons next after ih =>
    have hrest := ih fun t ht => h t (List.mem_cons_of_mem _ ht)
    rw [Script.stack, List.map_cons] at hrest
    -- The text of the next table starts with the empty line that ends the gap.
    rw [Script.stack, List.map_cons, List.map_cons, List.intercalate_cons_cons, List.append_assoc,
      List.singleton_append, lines_createTable_cons (h table (by simp)), hrest]
    by_cases hnone : table.alterLines = [] <;> simp [tableLines, gap, hnone]

end Statement

end SchemaGrowth
