import SchemaGrowth.Proofs.Migration.ScriptLines
import SchemaGrowth.Proofs.Text.Lowercase
import SchemaGrowth.Proofs.Text.Words

/-!
# Accounts of revisions

A script has an account of every statement that modifies a column. Its first lines name the column
and give its definitions; a last line repeats the enumeration that the statement sets, and is cut
out of the finished statement. `Explains` says what an account must tell of its statement, and
`accounts_of_migration` that every account between two dumps does, in the order of the statements.
-/

namespace SchemaGrowth

open Definition Enumeration Text

/-! ## Lowercase texts on a line -/

theorem Text.feed_lowercaseFrom {t : Text} (h : '\n' ∉ t) (preceding : Text) :
    '\n' ∉ lowercaseFrom preceding t := by
  induction t generalizing preceding with
  | nil => exact h
  | cons c t ih =>
    rw [List.mem_cons, not_or] at h
    rw [lowercaseFrom, List.mem_append, not_or]
    refine ⟨fun hm => h.1 ?_, ih h.2 _⟩
    exact eq_of_mem_lowercaseAt caseless_blankRanges hm (by decide)

theorem Text.feed_lowercase {t : Text} (h : '\n' ∉ t) : '\n' ∉ t.lowercase :=
  feed_lowercaseFrom h []

/-! ## The enumeration of a statement -/

/-- The word before the list of an enumeration. -/
def enumWord : Text := "ENUM".toList

/-- A text in which the word does not occur. -/
def Text.NoEnum (t : Text) : Prop :=
  t.hasWord enumWord = false

namespace Enumeration

/-- A list of values has no word that no value has. -/
theorem noEnum_valueList {enumeration : Enumeration}
    (h : ∀ value ∈ enumeration.values, value.NoEnum) : enumeration.valueList.NoEnum := by
  have hmark : literalMark ∉ enumWord := by decide
  have hliteral : ∀ value rest : Text, value.NoEnum → rest.NoEnum →
      Text.NoEnum (value.literal ++ rest) := by
    intro value rest hv hr
    have hsplit : value.literal ++ rest = [] ++ literalMark :: (value ++ literalMark :: rest) := by
      simp [literal, quoted]
    rw [NoEnum, hsplit, hasWord_append_cons hmark (by decide),
      hasWord_append_cons hmark (by decide), hv, hr]
    rfl
  obtain ⟨values, modifiers⟩ := enumeration
  induction values with
  | nil => rfl
  | cons first rest ih =>
    have hfirst : first.NoEnum := h first (by simp)
    cases rest with
    | nil =>
      have hone := hliteral first [] hfirst rfl
      simpa [valueList] using hone
    | cons second rest =>
      have hrest := ih fun value hv => h value (List.mem_cons_of_mem _ hv)
      rw [valueList_cons_cons]
      refine hliteral first _ hfirst ?_
      have hcomma : ',' ∉ enumWord := by decide
      have hsplit := hasWord_append_cons hcomma (by decide) [] (valueList ⟨second :: rest, modifiers⟩)
      exact hsplit.trans hrest

/-- What the definition of an enumeration has behind its word. -/
def behindWord (enumeration : Enumeration) : Text :=
  '(' :: (enumeration.valueList ++ ')' :: enumeration.modifiers)

theorem noEnum_behindWord {enumeration : Enumeration}
    (hv : ∀ value ∈ enumeration.values, value.NoEnum) (hm : enumeration.modifiers.NoEnum) :
    Text.NoEnum (enumeration.behindWord ++ [';']) := by
  have hsplit : enumeration.behindWord ++ [';']
      = [] ++ '(' :: (enumeration.valueList ++ ')' :: (enumeration.modifiers ++ ';' :: [])) := by
    simp [behindWord]
  rw [NoEnum, hsplit, hasWord_append_cons (by decide) (by decide),
    hasWord_append_cons (by decide) (by decide), hasWord_append_cons (by decide) (by decide),
    noEnum_valueList hv, hm]
  rfl

end Enumeration

namespace Revision

theorem enumPart?_eq_none {statement : Text} (h : statement.NoEnum) :
    enumPart? statement = none := by
  rw [enumPart?, ← enumWord, afterWord?_eq_none h]
  rfl

/-- Where the names of a statement and its enumeration do not hold the word, all behind the word is
cut out. -/
theorem enumPart?_modifyColumn {table name : Text} {enumeration : Enumeration}
    (ht : table.NoEnum) (hn : name.NoEnum) (hv : ∀ value ∈ enumeration.values, value.NoEnum)
    (hm : enumeration.modifiers.NoEnum) :
    enumPart? (Statement.modifyColumn table ⟨name, enumeration.definition⟩).text
      = some (enumeration.behindWord ++ [';']) := by
  have hmark : identifierMark ∉ enumWord := by decide
  have htext : (Statement.modifyColumn table ⟨name, enumeration.definition⟩).text
      = ("ALTER TABLE ".toList ++ table.identifier ++ " MODIFY ".toList ++ name.identifier ++ [])
        ++ ' ' :: (enumWord ++ (enumeration.behindWord ++ [';'])) := by
    change "ALTER TABLE ".toList ++ table.identifier ++ " MODIFY ".toList
      ++ (name.identifier ++ [' '] ++ enumeration.definition) ++ [';'] = _
    have hword : enumWord = ['E', 'N', 'U', 'M'] := by decide
    rw [definition_eq, hword, behindWord]
    simp
  have hhead : Text.NoEnum ("ALTER TABLE ".toList ++ table.identifier ++ " MODIFY ".toList
      ++ name.identifier ++ []) := by
    have hverb : hasWord " MODIFY ".toList enumWord = false := by decide
    have hstart : hasWord "ALTER TABLE ".toList enumWord = false := by decide
    rw [NoEnum, hasWord_identifier hmark (by decide), hasWord_identifier hmark (by decide),
      hstart, ht, hverb, hn]
    rfl
  rw [enumPart?, htext, ← enumWord, afterWord?_append_cons (by decide) (by decide) hhead,
    afterWord?_append (by decide), Option.map_some,
    beforeWord_eq_self (noEnum_behindWord hv hm)]

/-! ## The lines of an account -/

/-- The lines with which an account starts: the column, and its definitions before and after. -/
def heading (table column before after : Text) : List Text :=
  [ "=== ".toList ++ table ++ " -> ".toList ++ column ++ " ===".toList,
    "BEFORE: ".toList ++ before.lowercase,
    "AFTER:  ".toList ++ after.lowercase ]

/-- The line that repeats a merged enumeration. -/
def echo (merged : Enumeration) : Text :=
  "MODIFY: ENUM(".toList ++ merged.valueList ++ [')'] ++ merged.modifiers ++ [';']

theorem unlines_heading (table column before after : Text) :
    unlines (heading table column before after)
      = "=== ".toList ++ table ++ " -> ".toList ++ column ++ " ===\nBEFORE: ".toList
        ++ before.lowercase ++ "\nAFTER:  ".toList ++ after.lowercase ++ ['\n'] := by
  have hbefore : " ===\nBEFORE: ".toList = " ===".toList ++ '\n' :: "BEFORE: ".toList := by decide
  have hafter : "\nAFTER:  ".toList = '\n' :: "AFTER:  ".toList := by decide
  rw [hbefore, hafter]
  simp only [heading, unlines, List.flatMap_cons, List.flatMap_nil, List.append_nil,
    List.append_assoc, List.cons_append, List.nil_append]

theorem heading_prefix (table column before after statement : Text) :
    unlines (heading table column before after)
      <+: accountOf table column before after statement := by
  rw [unlines_heading]
  exact List.prefix_append _ _

/-- Without the word, the account ends behind its first lines. -/
theorem accountOf_of_noEnum {statement : Text} (h : statement.NoEnum)
    (table column before after : Text) :
    accountOf table column before after statement
      = unlines (heading table column before after) := by
  unfold accountOf
  rw [unlines_heading, enumPart?_eq_none h]
  exact List.append_nil _

/-- An account of a merge repeats the enumeration, unless the word stands elsewhere. -/
theorem accountOf_merged {table name : Text} {merged : Enumeration} (ht : table.NoEnum)
    (hn : name.NoEnum) (hv : ∀ value ∈ merged.values, value.NoEnum)
    (hm : merged.modifiers.NoEnum) (before after : Text) :
    accountOf table name before after
        (Statement.modifyColumn table ⟨name, merged.definition⟩).text
      = unlines (heading table name before after ++ [echo merged]) := by
  have hword : "MODIFY: ENUM(".toList = "MODIFY: ENUM".toList ++ ['('] := by decide
  unfold accountOf echo
  rw [unlines_append, unlines_heading, enumPart?_modifyColumn ht hn hv hm]
  simp only [unlines, hword, behindWord, List.flatMap_cons, List.flatMap_nil,
    List.append_nil, List.append_assoc, List.cons_append, List.nil_append]

/-- Both definitions in lowercase, and the enumeration as it is set. -/
example :
    accountOf "paints".toList "tone".toList "enum('Red')".toList "enum('Blue')".toList
        (Statement.modifyColumn "paints".toList
          ⟨"tone".toList, "ENUM('Red','Blue')".toList⟩).text
      = ("=== paints -> tone ===\nBEFORE: enum('red')\nAFTER:  enum('blue')\n"
          ++ "MODIFY: ENUM('Red','Blue');\n").toList := by
  decide +kernel

theorem feed_heading {table column before after : Text} (ht : '\n' ∉ table) (hc : '\n' ∉ column)
    (hb : '\n' ∉ before) (ha : '\n' ∉ after) :
    ∀ line ∈ heading table column before after, '\n' ∉ line := by
  simp [heading, ht, hc, feed_lowercase hb, feed_lowercase ha]

theorem feed_echo {merged : Enumeration} (h : '\n' ∉ merged.definition) : '\n' ∉ echo merged := by
  rw [definition_eq] at h
  simp only [List.mem_append, List.mem_cons, not_or] at h
  unfold echo
  simp [h]

end Revision

/-! ## Accounts and their statements -/

/-- Definitions that are both read as enumerations and merged. -/
structure Column.Merges (had wanted : Column) (merged : Enumeration) : Prop where
  differ : equivalent had.definition wanted.definition = false
  hadIsEnum : isEnum (canonical had.definition) = true
  wantedIsEnum : isEnum (canonical wanted.definition) = true
  merge : ∃ oldEnum newEnum, ofDefinition? (canonical had.definition) = some oldEnum
    ∧ ofDefinition? (canonical wanted.definition) = some newEnum
    ∧ oldEnum.merge? newEnum = some merged

/-- The heading for a column of a table that is had in one definition and wanted in another. -/
def Column.heading (table : Text) (had wanted : Column) : List Text :=
  Revision.heading table wanted.name (canonical had.definition) (canonical wanted.definition)

/-- What an account tells of the statement that modifies a column of a table. -/
structure Explains (table : Text) (had wanted : Column) (statement account : Text) : Prop where
  /-- The statement has the names between its marks. -/
  names : ∃ rest, statement.splitOn identifierMark
    = "ALTER TABLE ".toList :: table :: " MODIFY ".toList :: wanted.name :: rest
  /-- The account starts with the names and with both definitions, each on a line. -/
  starts : unlines (had.heading table wanted) <+: account
  feeds : ∀ line ∈ had.heading table wanted, '\n' ∉ line
  /-- It ends there if the word is not in the statement. -/
  plain : statement.NoEnum → account = unlines (had.heading table wanted)
  /-- If the statement comes from a merge and the word is nowhere else in it, there is one more
  line, the enumeration. -/
  merged : ∀ merged, had.Merges wanted merged →
    statement = (Statement.modifyColumn table ⟨wanted.name, merged.definition⟩).text
    ∧ '\n' ∉ Revision.echo merged
    ∧ (table.NoEnum → wanted.name.NoEnum → (∀ value ∈ merged.values, value.NoEnum) →
      merged.modifiers.NoEnum →
      account = unlines (had.heading table wanted ++ [Revision.echo merged]))

/-- An account explains its statement if a merge is nothing but what the statement sets. -/
theorem explains_of_merges {table definition : Text} {had wanted : Column} (ht : table.IsName)
    (hw : wanted.name.IsName) (hold : '\n' ∉ canonical had.definition)
    (hnew : '\n' ∉ canonical wanted.definition)
    (hmerges : ∀ merged, had.Merges wanted merged →
      definition = merged.definition ∧ '\n' ∉ merged.definition) :
    Explains table had wanted (Statement.modifyColumn table ⟨wanted.name, definition⟩).text
      (Revision.accountOf table wanted.name (canonical had.definition)
        (canonical wanted.definition)
        (Statement.modifyColumn table ⟨wanted.name, definition⟩).text) where
  names := Statement.splitOn_modifyColumn ht.mark hw.mark
  starts := Revision.heading_prefix _ _ _ _ _
  feeds := Revision.feed_heading ht.feed hw.feed hold hnew
  plain := fun hword => Revision.accountOf_of_noEnum hword _ _ _ _
  merged := by
    intro merged hmerged
    obtain ⟨rfl, hfeed⟩ := hmerges merged hmerged
    exact ⟨rfl, Revision.feed_echo hfeed, fun htable hname hvalues hmodifiers =>
      Revision.accountOf_merged htable hname hvalues hmodifiers _ _⟩

namespace Schema

/-- A revision in a migration is one of a column that is in both schemas. -/
theorem exists_of_mem_revisions {old new : Schema} (h : (Plan.between old new).failure = none)
    {revision : Revision} (hr : revision ∈ (Plan.between old new).steps.filterMap Step.revision?) :
    ∃ table ∈ new.tables, ∃ current, old.table? table.name = some current
      ∧ ∃ wanted ∈ table.columns, current.classify wanted = .ok (.revised revision) := by
  obtain ⟨step, hstep, hrevision⟩ := List.mem_filterMap.mp hr
  obtain rfl : step = .modify revision := by
    cases step with
    | modify other => exact congrArg Step.modify (Option.some.inj hrevision)
    | create _ => cases hrevision
    | add _ _ _ => cases hrevision
  rw [steps_between h] at hstep
  obtain ⟨table, ht, hm⟩ := List.mem_flatMap.mp hstep
  cases hc : old.table? table.name with
  | none =>
    rw [stepsOf_new hc] at hm
    cases List.mem_singleton.mp hm
  | some current =>
    rw [stepsOf, findingsOf, hc] at hm
    obtain ⟨finding, hf, hfound⟩ := List.mem_filterMap.mp hm
    obtain ⟨wanted, hw, rfl⟩ := List.mem_map.mp hf
    refine ⟨table, ht, current, hc, wanted, hw, ?_⟩
    cases hclass : current.classify wanted with
    | error failure => simp [hclass, Except.map, stepOf?] at hfound
    | ok change =>
      cases change with
      | unchanged => simp [hclass, Except.map, stepOf?, Step.ofChange?] at hfound
      | added column behind => simp [hclass, Except.map, stepOf?, Step.ofChange?] at hfound
      | revised other =>
        obtain rfl : other = revision := by
          simpa [hclass, Except.map, stepOf?, Step.ofChange?] using hfound
        rfl

end Schema

/-- The account of a revision explains its statement. -/
theorem Revision.explains {current : Table} {wanted : Column} {revision : Revision}
    (hcurrent : current.Readable) (hwanted : wanted.Readable)
    (h : current.classify wanted = .ok (.revised revision)) :
    ∃ had, current.column? wanted.name = some had
      ∧ Explains current.name had wanted revision.statement.text revision.account := by
  cases hhad : current.column? wanted.name with
  | none =>
    rw [Table.classify_of_column?_eq_none hhad] at h
    cases h
  | some had =>
    have hold : '\n' ∉ canonical had.definition := fun hm =>
      (hcurrent.columns had (List.mem_of_find?_eq_some hhad)).feed (mem_of_mem_canonical hm)
    have hnew : '\n' ∉ canonical wanted.definition := fun hm =>
      hwanted.feed (mem_of_mem_canonical hm)
    refine ⟨had, rfl, ?_⟩
    rw [Table.classify_of_column?_eq_some hhad] at h
    have hcompare := Change.comparison_between current.name had wanted
    rw [h] at hcompare
    cases hcompare with
    | plain differ noEnums =>
      refine explains_of_merges hcurrent.name hwanted.name hold hnew fun merged hmerged => ?_
      simp [hmerged.hadIsEnum, hmerged.wantedIsEnum] at noEnums
    | merged differ oldIsEnum newIsEnum oldRead newRead merge =>
      refine explains_of_merges hcurrent.name hwanted.name hold hnew fun other hother => ?_
      obtain ⟨oldEnum, newEnum, oldRead', newRead', merge'⟩ := hother.merge
      obtain rfl := Option.some.inj (oldRead.symm.trans oldRead')
      obtain rfl := Option.some.inj (newRead.symm.trans newRead')
      obtain rfl := Option.some.inj (merge.symm.trans merge')
      have hfeed := feed_merged oldRead newRead hold hnew
      rw [← eq_of_merge? merge] at hfeed
      exact ⟨rfl, hfeed⟩

/-- A statement and its account are about a column that both schemas have. -/
def Schema.Accounted (old new : Schema) (statement account : Text) : Prop :=
  ∃ current table had wanted,
    old.table? table.name = some current ∧ new.table? table.name = some table
      ∧ current.column? wanted.name = some had ∧ table.column? wanted.name = some wanted
      ∧ Explains table.name had wanted statement account

/-- **Every account tells the truth about its statement.** There is one account for each statement
that modifies a column, in the same order; it is about the column of that statement, and gives the
definitions that the column has in both dumps. -/
theorem Dump.accounts_of_migration {old new : Text} {script : Script}
    (h : Dump.migration old new = .ok script) :
    List.Forall₂ ((Schema.ofDump old).Accounted (Schema.ofDump new))
      script.modifies script.comparisons := by
  obtain ⟨hclear, rfl⟩ := Plan.script_eq_ok.mp h
  refine List.forall₂_map_left_iff.mpr (List.forall₂_map_right_iff.mpr (List.forall₂_same.mpr ?_))
  intro revision hr
  obtain ⟨table, ht, current, hc, wanted, hw, hclass⟩ := Schema.exists_of_mem_revisions hclear hr
  have htable := Schema.readable_of_mem_ofDump ht
  have hcurrent := Schema.readable_of_mem_ofDump (List.mem_of_find?_eq_some hc)
  obtain ⟨had, hhad, hexplains⟩ := Revision.explains hcurrent (htable.columns wanted hw) hclass
  rw [Schema.name_of_table? hc] at hexplains
  refine ⟨current, table, had, wanted, hc, ?_, hhad, ?_, hexplains⟩
  · exact Keyed.get?_of_mem (Schema.nodup_tableNames_ofEvents _) ht
  · exact Keyed.get?_of_mem htable.distinct hw

/-- A dump of a table with a value whose case matters, and with a column of numbers. -/
def Dump.paints : Text :=
  "CREATE TABLE `paints` (\n`tone` enum('Red'),\n`cans` int\n) ENGINE".toList

/-- A dump with another tone and wider numbers. -/
def Dump.morePaints : Text :=
  "CREATE TABLE `paints` (\n`tone` enum('Blue') NOT NULL,\n`cans` BIGINT\n) ENGINE".toList

theorem Dump.accounts_of_migration_paints :
    ∃ script, Dump.migration paints morePaints = .ok script
      ∧ script.comparisons.length = 2
      ∧ List.Forall₂ ((Schema.ofDump paints).Accounted (Schema.ofDump morePaints))
          script.modifies script.comparisons := by
  have hplan : (Plan.between (Schema.ofDump paints) (Schema.ofDump morePaints)).failure = none
      ∧ (Script.ofSteps (Plan.between (Schema.ofDump paints)
          (Schema.ofDump morePaints)).steps).comparisons.length = 2 := by
    decide +kernel
  have hscript := Plan.script_eq_ok.mpr ⟨hplan.1, rfl⟩
  exact ⟨_, hscript, hplan.2, accounts_of_migration hscript⟩

end SchemaGrowth
