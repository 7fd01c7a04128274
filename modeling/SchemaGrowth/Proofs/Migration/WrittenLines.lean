import SchemaGrowth.Proofs.Dump.Replay
import SchemaGrowth.Proofs.Migration.CreateLines

/-!
# How written lines are read

The lines of a statement that creates a table are read one group after another: the headers, the
columns (`replay_declarationLines`) and the `ALTER TABLE` blocks (`replay_blockLines`). The last
column loses a comma and the blanks at its end. The closing line of the statement does not end the
body, so the first header of a block is read in the body, where a name can hold the words that end
it (`replay_blockLines_outside`).
-/

namespace SchemaGrowth

open Dump Text Statement

/-! ## Headers -/

namespace Statement

theorem read_createHeader {name : Text} (h : name.IsName) (place : Place) :
    place.read (createHeader name) = (.created name, .body name) := by
  refine Rule.read_eq (.created ?_ ?_)
  · rw [createHeader, List.append_assoc]
    exact hasWord_iff.mpr (List.prefix_append _ _).isInfix
  · exact identifier?_append (by decide) h.mark _

theorem identifier?_alterHeader {name : Text} (h : name.IsName) :
    (alterHeader name).identifier? = some name := by
  have hs : identifierMark ∉ alterWords ++ [' '] := by decide
  have hi := identifier?_append hs h.mark []
  rwa [List.append_nil, List.append_assoc, List.singleton_append, ← alterHeader_eq] at hi

theorem hasWord_alterHeader {word : Text} (hw : identifierMark ∉ word) (hne : word ≠ [])
    (name : Text) :
    (alterHeader name).hasWord word = (hasWord (alterWords ++ [' ']) word || name.hasWord word) := by
  have hs := hasWord_identifier hw hne (alterWords ++ [' ']) name []
  have hnil : hasWord [] word = false := by simp [hasWord, hne]
  rwa [List.append_nil, List.append_assoc, List.singleton_append, ← alterHeader_eq, hnil,
    Bool.or_false] at hs

theorem hasWord_create_alterHeader (name : Text) :
    (alterHeader name).hasWord createWords = name.hasWord createWords := by
  have hs : hasWord (alterWords ++ [' ']) createWords = false := by decide
  rw [hasWord_alterHeader (by decide) (by decide), hs, Bool.false_or]

theorem hasWord_bodyEnd_alterHeader (name : Text) :
    (alterHeader name).hasWord bodyEndWords = name.hasWord bodyEndWords := by
  have hs : hasWord (alterWords ++ [' ']) bodyEndWords = false := by decide
  rw [hasWord_alterHeader (by decide) (by decide), hs, Bool.false_or]

theorem hasWord_alter_alterHeader (name : Text) : (alterHeader name).hasWord alterWords = true := by
  rw [alterHeader_eq]
  exact hasWord_iff.mpr (List.prefix_append _ _).isInfix

theorem dropLastIf_alterHeader (name : Text) :
    (alterHeader name).dropLastIf '\r' = alterHeader name := by
  have hcut := dropLastIf_identifier (q := '\r') (by decide) (alterWords ++ [' ']) name []
  have hnil : dropLastIf [] '\r' = [] := rfl
  rwa [hnil, List.append_nil, List.append_assoc, List.singleton_append, ← alterHeader_eq] at hcut

/-- A header opens its block, unless its name holds other words. -/
theorem read_alterHeader {name : Text} (h : name.IsName) (hc : name.hasWord createWords = false)
    {place : Place} (he : (place.isBody && name.hasWord bodyEndWords) = false) :
    place.read (alterHeader name) = (.alterOpened name, .alteration name) := by
  refine Rule.read_eq (.alterOpened ?_ ?_ (hasWord_alter_alterHeader name)
    (identifier?_alterHeader h))
  · rw [hasWord_create_alterHeader, hc]
  · rw [hasWord_bodyEnd_alterHeader, he]

/-- A name with the words that end a body makes its first header end the body. -/
theorem read_alterHeader_body {name : Text} (hc : name.hasWord createWords = false)
    (he : name.hasWord bodyEndWords = true) :
    (Place.body name).read (alterHeader name) = (.closed, .outside) := by
  refine Rule.read_eq (.closed ?_ ?_)
  · rw [hasWord_create_alterHeader, hc]
  · rw [hasWord_bodyEnd_alterHeader, he]

end Statement

/-! ## Lines that say nothing -/

/-- A line of a body without words and without a mark says nothing. -/
theorem read_body_of_plain {line : Text} (h : Plain line) (hm : identifierMark ∉ line)
    {table : Text} : (Place.body table).read line = (.ignored, .body table) := by
  have hnone : Column.ofLine? line = none := by
    rw [Column.ofLine?, identifier?_eq_none.mpr hm]
    rfl
  exact Rule.read_eq (.noColumn h.create h.bodyEnd h.alter hnone)

theorem replay_empty_body {name : Text} {lines : List Text} (h : ∀ line ∈ lines, line = [])
    (table : Table) : replay (.body name, table) lines = (.body name, table) := by
  induction lines with
  | nil => rfl
  | cons line rest ih =>
    obtain rfl := h line (by simp)
    rw [replay_of_read (read_body_of_plain Plain.nil (by simp))]
    exact ih fun l hm => h l (List.mem_cons_of_mem _ hm)

/-! ## Columns -/

/-- A column as it is read when it was declared last: without blanks at its end and without one last
comma. -/
def Column.cut (column : Column) : Column :=
  ⟨column.name, column.definition.trim.dropLastIf ','⟩

namespace Column

/-- A declared column is read back from a line, with what stands there behind its name. -/
theorem read_declared {column : Column} (h : column.Readable) {rest : Text} (hr : Plain rest)
    (table : Text) :
    (Place.body table).read (' ' :: ' ' :: (column.name.identifier ++ rest))
      = (.column table ⟨column.name, rest.trim.dropLastIf ','⟩, .body table) := by
  have hplain := Plain.identifier Plain.nil.space.space h.plainName hr
  have hdeclared : ofLine? ([' ', ' '] ++ column.name.identifier ++ rest)
      = some ⟨column.name, rest.trim.dropLastIf ','⟩ := by
    rw [ofLine?, identifier?_append (by decide) h.name.mark,
      afterIdentifier_append (by decide) h.name.mark]
    rfl
  exact Rule.read_eq (.column hplain.create hplain.bodyEnd hplain.alter hdeclared)

/-- A column in front of a comma is read back as it is. -/
theorem read_declaration_comma {column : Column} (h : column.Readable) (table : Text) :
    (Place.body table).read (dropLastIf (' ' :: ' ' :: column.declaration ++ [',']) '\r')
      = (.column table column, .body table) := by
  have hline : dropLastIf (' ' :: ' ' :: column.declaration ++ [',']) '\r'
      = ' ' :: ' ' :: (column.name.identifier ++ ' ' :: (column.definition ++ [','])) := by
    have hlast : (' ' :: ' ' :: column.declaration ++ [',']).getLast? ≠ some '\r' := by
      rw [List.getLast?_concat]
      decide
    rw [dropLastIf_eq_self.mpr hlast]
    simp [declaration]
  -- The comma keeps the blanks in front of it.
  have htrim : trim (' ' :: (column.definition ++ [','])) = column.definition ++ [','] := by
    have hcomma : isBlank ',' = false := by decide
    rw [trim_cons_of_isBlank (by decide)]
    refine trim_eq_self ?_ (by simp [NoTrailingBlank, hcomma])
    cases hd : column.definition with
    | nil => simp [NoLeadingBlank, hcomma]
    | cons c rest =>
      have hstart := h.start
      rw [hd] at hstart
      simpa [NoLeadingBlank] using hstart
  rw [hline, read_declared h h.plainDefinition.comma.space, htrim, dropLastIf_concat]

/-- The last column is read back cut. -/
theorem read_declaration_last {column : Column} (h : column.Readable) (table : Text) :
    (Place.body table).read (dropLastIf (' ' :: ' ' :: column.declaration) '\r')
      = (.column table column.cut, .body table) := by
  have hline : dropLastIf (' ' :: ' ' :: column.declaration) '\r'
      = ' ' :: ' ' :: (column.name.identifier ++ dropLastIf (' ' :: column.definition) '\r') := by
    have hcut := dropLastIf_identifier (q := '\r') (by decide) [' ', ' '] column.name
      (' ' :: column.definition)
    simpa [declaration] using hcut
  have hplain : Plain (dropLastIf (' ' :: column.definition) '\r') :=
    h.plainDefinition.space.of_isInfix (prefix_dropLastIf _ _).isInfix
  rw [hline, read_declared h hplain, trim_dropLastIf (by decide), trim_cons_of_isBlank (by decide)]
  rfl

theorem cut_eq_self {column : Column} (h : column.Readable) :
    column.cut = column
      ↔ ∀ c ∈ column.definition.getLast?, c ≠ ',' ∧ isBlank c = false := by
  obtain ⟨name, definition⟩ := column
  have hstart : definition.NoLeadingBlank := h.start
  rw [cut, Column.mk.injEq, eq_self, true_and]
  constructor
  · intro hcut c hc
    have hpre := prefix_dropLastIf definition.trim ','
    rw [hcut] at hpre
    -- Nothing can be trimmed off, as nothing could be put back.
    have htrim : definition.trim = definition :=
      (infix_trim definition).eq_of_length_le hpre.length_le
    rw [htrim] at hcut
    refine ⟨?_, noTrailingBlank_trim definition c (htrim.symm ▸ hc)⟩
    rintro rfl
    exact dropLastIf_eq_self.mp hcut hc
  · intro hlast
    rw [trim_eq_self hstart fun c hc => (hlast c hc).2, dropLastIf_eq_self]
    intro hc
    exact (hlast ',' hc).1 rfl

end Column

/-- The columns of a table as they are read back. -/
def lastCut : List Column → List Column
  | [] => []
  | [column] => [column.cut]
  | column :: rest => column :: lastCut rest

theorem map_name_lastCut (columns : List Column) :
    (lastCut columns).map Column.name = columns.map Column.name := by
  fun_induction lastCut columns with
  | case1 => rfl
  | case2 column => rfl
  | case3 column rest _ ih => rw [List.map_cons, List.map_cons, ih]

theorem lastCut_eq_self {columns : List Column} :
    lastCut columns = columns ↔ ∀ column ∈ columns.getLast?, column.cut = column := by
  fun_induction lastCut columns with
  | case1 => simp
  | case2 column => simp
  | case3 column rest hne ih =>
    have hlast : (column :: rest).getLast? = rest.getLast? := by
      cases rest with
      | nil => exact absurd rfl hne
      | cons second rest => rw [List.getLast?_cons_cons]
    rw [List.cons_inj_right, ih, hlast]

/-- Written columns are read back. -/
theorem replay_declarationLines {columns : List Column} (h : ∀ column ∈ columns, column.Readable)
    (table : Table) :
    replay (.body table.name, table) ((declarationLines columns).map (·.dropLastIf '\r'))
      = (.body table.name, (lastCut columns).foldl Table.setColumn table) := by
  induction columns generalizing table with
  | nil =>
    exact replay_of_read (read_body_of_plain Plain.nil (by simp)) table []
  | cons column rest ih =>
    have hc := h column (by simp)
    cases rest with
    | nil => exact replay_of_read (column.read_declaration_last hc table.name) table []
    | cons second rest =>
      have hrest := ih (fun c hm => h c (List.mem_cons_of_mem _ hm)) (table.setColumn column)
      exact (replay_of_read (column.read_declaration_comma hc table.name) table _).trans hrest

/-! ## `ALTER TABLE` blocks -/

/-- The place of a line in the blocks of a table. -/
def blockPlace (table : Text) (inBlock : Bool) : Place :=
  if inBlock then .alteration table else .outside

/-- Whether a block is left open behind some lines. -/
def leftOpen (inBlock : Bool) (lines : List Text) : Bool :=
  lines.foldl (fun _ line => !endsStatement line) inBlock

theorem leftOpen_eq_false {lines : List Text} (hne : lines ≠ []) (inBlock : Bool) :
    leftOpen inBlock lines = false ↔ ∀ line ∈ lines.getLast?, endsStatement line = true := by
  obtain ⟨init, last, rfl⟩ := List.eq_nil_or_concat lines |>.resolve_left hne
  simp [leftOpen]

theorem endsStatement_dropLastIf (line : Text) :
    endsStatement (line.dropLastIf '\r') = endsStatement line := by
  rw [endsStatement, trim_dropLastIf (by decide), endsStatement]

namespace Dump.IsBlockLine

variable {line : Text}

/-- A carriage return that is gone changes nothing else. -/
theorem read_alteration (h : IsBlockLine line) (table : Text) :
    (Place.alteration table).read (line.dropLastIf '\r')
      = (.alterLine table (line.dropLastIf '\r'), blockPlace table (!endsStatement line)) := by
  have hin := (prefix_dropLastIf line '\r').isInfix
  have hrule : Rule (.alteration table) (line.dropLastIf '\r') _ _ :=
    .alterLine (hasWord_of_isInfix hin h.create) (hasWord_of_isInfix hin h.alter)
  rw [hrule.read_eq, endsStatement_dropLastIf, blockPlace]
  cases endsStatement line <;> rfl

theorem read_outside (h : IsBlockLine line) :
    Place.outside.read (line.dropLastIf '\r') = (.ignored, .outside) := by
  have hin := (prefix_dropLastIf line '\r').isInfix
  exact (Rule.outside (hasWord_of_isInfix hin h.create) (hasWord_of_isInfix hin h.alter)).read_eq

theorem nil : IsBlockLine [] :=
  ⟨by simp, Plain.nil.create, Plain.nil.alter⟩

end Dump.IsBlockLine

section Blocks

variable {name : Text} {lines : List Text}

/-- Written blocks are read back, from a place where they can stand. -/
theorem replay_blockLines (hn : name.IsName) (hc : name.hasWord createWords = false)
    (hl : ∀ line ∈ lines, IsBlockLine line) (inBlock : Bool) (columns : List Column)
    (before : List Text) :
    replay (blockPlace name inBlock, ⟨name, columns, before⟩)
        ((blockLines name inBlock lines).map (·.dropLastIf '\r'))
      = (blockPlace name (leftOpen inBlock lines),
          ⟨name, columns, before ++ lines.map (·.dropLastIf '\r')⟩) := by
  induction lines generalizing before inBlock with
  | nil => simp [blockLines, leftOpen]
  | cons line rest ih =>
    have hrest := ih (fun l hm => hl l (List.mem_cons_of_mem _ hm)) (!endsStatement line)
      (before ++ [line.dropLastIf '\r'])
    -- The line itself is read in the block, whether or not a header opens the block before it.
    have hline : replay (.alteration name, ⟨name, columns, before⟩)
        ((line :: blockLines name (!endsStatement line) rest).map (·.dropLastIf '\r'))
        = (blockPlace name (leftOpen inBlock (line :: rest)),
          ⟨name, columns, before ++ (line :: rest).map (·.dropLastIf '\r')⟩) := by
      rw [List.map_cons, replay_of_read ((hl line (by simp)).read_alteration name)]
      refine hrest.trans ?_
      simp [leftOpen]
    cases inBlock with
    | true => exact hline
    | false =>
      have hheader : Place.outside.read (alterHeader name)
          = (.alterOpened name, .alteration name) := read_alterHeader hn hc rfl
      rw [blockLines, if_neg (by simp), List.singleton_append, List.map_cons,
        dropLastIf_alterHeader, blockPlace, if_neg (by simp), replay_of_read hheader]
      exact hline

/-- The empty lines behind an open block are taken for lines of the block. -/
theorem replay_empty (h : ∀ line ∈ lines, line = []) (inBlock : Bool) (columns : List Column)
    (before : List Text) :
    (replay (blockPlace name inBlock, ⟨name, columns, before⟩) lines).2
      = ⟨name, columns, before ++ if inBlock then lines else []⟩ := by
  induction lines generalizing before with
  | nil => simp
  | cons line rest ih =>
    obtain rfl := h line (by simp)
    have hrest := ih fun l hm => h l (List.mem_cons_of_mem _ hm)
    cases inBlock with
    | true =>
      have hread : (Place.alteration name).read [] = (.alterLine name [], .alteration name) :=
        IsBlockLine.nil.read_alteration name
      rw [blockPlace, if_pos rfl, replay_of_read hread]
      refine (hrest (before ++ [[]])).trans ?_
      simp
    | false =>
      have hread : Place.outside.read [] = (.ignored, .outside) := IsBlockLine.nil.read_outside
      rw [blockPlace, if_neg (by simp), replay_of_read hread]
      exact hrest before

/-- The lines behind the first statement that they end. -/
def behindFirst (lines : List Text) : List Text :=
  (lines.dropWhile fun line => !endsStatement line).tail

/-- From outside, an open block is only read from its next header on. -/
theorem replay_blockLines_outside (hn : name.IsName) (hc : name.hasWord createWords = false)
    (hl : ∀ line ∈ lines, IsBlockLine line) (columns : List Column) (before : List Text) :
    replay (.outside, ⟨name, columns, before⟩)
        ((blockLines name true lines).map (·.dropLastIf '\r'))
      = (blockPlace name (leftOpen false (behindFirst lines)),
          ⟨name, columns, before ++ (behindFirst lines).map (·.dropLastIf '\r')⟩) := by
  induction lines with
  | nil => simp [blockLines, behindFirst, leftOpen, blockPlace]
  | cons line rest ih =>
    have hrest : ∀ l ∈ rest, IsBlockLine l := fun l hm => hl l (List.mem_cons_of_mem _ hm)
    rw [blockLines, if_pos rfl, List.nil_append, List.map_cons,
      replay_of_read (hl line (by simp)).read_outside]
    -- The statement that ends here was missed, and the next header opens a block again.
    cases he : endsStatement line with
    | true =>
      have hbehind : behindFirst (line :: rest) = rest := by
        simp [behindFirst, he]
      rw [hbehind]
      exact replay_blockLines hn hc hrest false columns before
    | false =>
      have hbehind : behindFirst (line :: rest) = behindFirst rest := by
        simp [behindFirst, he]
      rw [hbehind]
      exact ih hrest

end Blocks

/-- Outside a block, lines that open none add no line to it. -/
theorem alterLines_replay_of_create {lines : List Text}
    (h : ∀ line ∈ lines, line.hasWord createWords = true ∨ line.hasWord alterWords = false)
    {place : Place} {table : Table} (hp : ∀ name, place ≠ .alteration name)
    (ht : table.alterLines = []) : (replay (place, table) lines).2.alterLines = [] := by
  induction lines generalizing place table with
  | nil => exact ht
  | cons line rest ih =>
    have hrest : ∀ l ∈ rest, l.hasWord createWords = true ∨ l.hasWord alterWords = false :=
      fun l hm => h l (List.mem_cons_of_mem _ hm)
    have hline := h line (by simp)
    have hrule := place.rule_read line
    rw [replay_cons]
    generalize (place.read line).1 = event, (place.read line).2 = next at hrule
    cases hrule with
    | created create named => exact ih hrest (by simp) rfl
    | unnamedCreate create unnamed => exact ih hrest (by simp) ht
    | closed noCreate bodyEnd => exact ih hrest (by simp) ht
    | alterOpened noCreate noEnd alter named => simp [noCreate, alter] at hline
    | unnamedAlter noCreate noEnd alter unnamed => simp [noCreate, alter] at hline
    | outside noCreate noAlter => exact ih hrest (by simp) ht
    | column noCreate noEnd noAlter declared => exact ih hrest (by simp) ht
    | noColumn noCreate noEnd noAlter none => exact ih hrest (by simp) ht
    | alterLine noCreate noAlter => exact absurd rfl (hp _)

end SchemaGrowth
