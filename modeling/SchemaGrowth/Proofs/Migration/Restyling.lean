import Mathlib.Data.List.Forall2
import SchemaGrowth.Proofs.Dump.Attribution
import SchemaGrowth.Proofs.Dump.Readable
import SchemaGrowth.Proofs.Migration.Effect
import SchemaGrowth.Proofs.Text.LineEnds

/-!
# Dumps that differ in style

Two dumps can hold the same schema and yet differ in the spaces and in the case of its definitions.
`Restyled` says how the lines of such dumps belong together. They are read in lockstep: both runs
stand at the same place between two lines, and what the lines say is alike, one by one
(`Restyled.events`). So the schemas are alike (`alike_ofEvents`), and there is nothing to migrate
between them (`migration_restyled`).
-/

namespace SchemaGrowth

open Dump Text

/-! ## Keyed lists in lockstep -/

namespace Keyed

variable {α κ : Type} [DecidableEq κ] {key : α → κ} {R : α → α → Prop}

theorem forall₂_put (hkey : ∀ x y, R x y → key x = key y) {x y : α} (h : R x y)
    {xs ys : List α} (hs : List.Forall₂ R xs ys) :
    List.Forall₂ R (put key x xs) (put key y ys) := by
  induction hs with
  | nil => exact .cons h .nil
  | cons hab hrest ih =>
    rw [put, put, ← hkey _ _ hab, ← hkey _ _ h]
    split
    · exact .cons h hrest
    · exact .cons hab ih

theorem forall₂_modifyFirst (hkey : ∀ x y, R x y → key x = key y) {f g : α → α}
    (h : ∀ x y, R x y → R (f x) (g y)) (k : κ) {xs ys : List α} (hs : List.Forall₂ R xs ys) :
    List.Forall₂ R (modifyFirst key k f xs) (modifyFirst key k g ys) := by
  induction hs with
  | nil => exact .nil
  | cons hab hrest ih =>
    rw [modifyFirst, modifyFirst, ← hkey _ _ hab]
    split
    · exact .cons (h _ _ hab) hrest
    · exact .cons hab ih

/-- What stands in one of two lists in lockstep has its counterpart in the other. -/
theorem exists_of_forall₂ {xs ys : List α} (hs : List.Forall₂ R xs ys) {y : α} (hy : y ∈ ys) :
    ∃ x ∈ xs, R x y := by
  induction hs with
  | nil => cases hy
  | @cons a _ _ _ hab _ ih =>
    rcases List.mem_cons.mp hy with rfl | hy
    · exact ⟨a, by simp, hab⟩
    · obtain ⟨x, hx, hxy⟩ := ih hy
      exact ⟨x, List.mem_cons_of_mem _ hx, hxy⟩

/-- With distinct keys, every entry is found by its key in a list in lockstep. -/
theorem exists_get?_of_forall₂ (hkey : ∀ x y, R x y → key x = key y) {xs ys : List α}
    (hs : List.Forall₂ R xs ys) (hd : (xs.map key).Nodup) {y : α} (hy : y ∈ ys) :
    ∃ x, get? key (key y) xs = some x ∧ R x y := by
  obtain ⟨x, hx, hxy⟩ := exists_of_forall₂ hs hy
  rw [← hkey _ _ hxy]
  exact ⟨x, get?_of_mem hd hx, hxy⟩

end Keyed

/-! ## Schemas that are alike -/

/-- Columns of one name with equivalent definitions. -/
structure Column.Alike (one other : Column) : Prop where
  name : one.name = other.name
  definition : Definition.equivalent one.definition other.definition = true

theorem Column.Alike.refl (column : Column) : column.Alike column :=
  ⟨rfl, Definition.equivalent_refl _⟩

theorem Column.Alike.symm {one other : Column} (h : one.Alike other) : other.Alike one :=
  ⟨h.name.symm, Definition.equivalent_iff.mpr (Definition.equivalent_iff.mp h.definition).symm⟩

/-- Tables that are the same but for the style of their definitions. -/
structure Table.Alike (one other : Table) : Prop where
  name : one.name = other.name
  columns : List.Forall₂ Column.Alike one.columns other.columns
  alterLines : one.alterLines = other.alterLines

namespace Table.Alike

variable {one other : Table}

theorem symm (h : one.Alike other) : other.Alike one :=
  ⟨h.name.symm, h.columns.flip.imp fun _ _ hc => hc.symm, h.alterLines.symm⟩

theorem empty (name : Text) : (Table.empty name).Alike (Table.empty name) :=
  ⟨rfl, .nil, rfl⟩

theorem setColumn (h : one.Alike other) {column declared : Column} (hc : column.Alike declared) :
    (one.setColumn column).Alike (other.setColumn declared) :=
  ⟨h.name, Keyed.forall₂_put (fun _ _ ha => ha.name) hc h.columns, h.alterLines⟩

theorem addAlterLine (h : one.Alike other) (line : Text) :
    (one.addAlterLine line).Alike (other.addAlterLine line) :=
  ⟨h.name, h.columns, congrArg (· ++ [line]) h.alterLines⟩

end Table.Alike

/-- Schemas that are the same but for the style of their definitions. -/
def Schema.Alike (one other : Schema) : Prop :=
  List.Forall₂ Table.Alike one.tables other.tables

theorem Schema.Alike.symm {one other : Schema} (h : one.Alike other) : other.Alike one :=
  h.flip.imp fun _ _ ht => ht.symm

/-- What two lines say that are the same but for the style of a definition. -/
inductive Dump.Event.Alike : Event → Event → Prop
  | same (event : Event) : Alike event event
  | column (table : Text) {one other : Column} (alike : one.Alike other) :
      Alike (.column table one) (.column table other)

namespace Schema

variable {one other : Schema}

/-- What is said alike leaves schemas alike. -/
theorem Alike.apply (h : one.Alike other) {event said : Event} (he : event.Alike said) :
    (one.apply event).Alike (other.apply said) := by
  have hset : ∀ table {column declared : Column}, column.Alike declared →
      (one.apply (.column table column)).Alike (other.apply (.column table declared)) :=
    fun table _ _ hc =>
      Keyed.forall₂_modifyFirst (fun _ _ ha => ha.name) (fun _ _ ht => ht.setColumn hc) table h
  cases he with
  | column table alike => exact hset table alike
  | same =>
    cases event with
    | created table => exact Keyed.forall₂_put (fun _ _ ha => ha.name) (.empty table) h
    | column table column => exact hset table (.refl column)
    | alterLine table line =>
      exact Keyed.forall₂_modifyFirst (fun _ _ ha => ha.name)
        (fun _ _ ht => ht.addAlterLine line) table h
    | closed => exact h
    | alterOpened => exact h
    | ignored => exact h

theorem Alike.foldl_apply {events said : List Event} (he : List.Forall₂ Event.Alike events said)
    (h : one.Alike other) :
    (events.foldl Schema.apply one).Alike (said.foldl Schema.apply other) := by
  induction he generalizing one other with
  | nil => exact h
  | cons hevent _ ih => exact ih (h.apply hevent)

theorem alike_ofEvents {events said : List Event} (h : List.Forall₂ Event.Alike events said) :
    (ofEvents events).Alike (ofEvents said) :=
  Alike.foldl_apply h .nil

/-! ## Migrations between schemas that are alike -/

/-- Every column is found again, and nothing is to be done about it. -/
theorem findings_of_alike {old new : Schema} (h : old.Alike new) (hn : old.tableNames.Nodup)
    (hc : ∀ table ∈ old.tables, table.columnNames.Nodup)
    {finding : Except MigrationError (Option Step)} (hf : finding ∈ old.findings new) :
    finding = .ok none := by
  obtain ⟨table, htable, hfinding⟩ := List.mem_flatMap.mp hf
  obtain ⟨current, hcurrent, halike⟩ :=
    Keyed.exists_get?_of_forall₂ (fun _ _ ha => ha.name) h hn htable
  rw [table?, hcurrent] at hfinding
  obtain ⟨wanted, hwanted, rfl⟩ := List.mem_map.mp hfinding
  obtain ⟨had, hhad, hcolumn⟩ := Keyed.exists_get?_of_forall₂ (fun _ _ ha => ha.name)
    halike.columns (hc current (List.mem_of_find?_eq_some hcurrent)) hwanted
  have hclass : current.classify wanted = .ok .unchanged := by
    rw [Table.classify, Table.column?, hhad]
    exact Change.between_of_equivalent hcolumn.definition _
  rw [hclass]
  rfl

/-- There is nothing to migrate between schemas that are alike. -/
theorem migration_of_alike {old new : Schema} (h : old.Alike new) (hn : old.tableNames.Nodup)
    (hc : ∀ table ∈ old.tables, table.columnNames.Nodup) :
    old.migration new = .ok ⟨[], [], [], []⟩ := by
  have hfindings : old.findings new
      = (List.replicate (old.findings new).length none).map .ok := by
    rw [List.map_replicate, List.eq_replicate_iff]
    exact ⟨rfl, fun finding hf => findings_of_alike h hn hc hf⟩
  have hplan : Plan.between old new = ⟨[], none⟩ := by
    rw [Plan.between, hfindings, Plan.ofFindings_map_ok]
    simp
  rw [migration, hplan]
  rfl

end Schema

/-! ## Lines in lockstep -/

/-- A column is read from what stands behind an identifier. -/
theorem Column.ofLine?_append {head name : Text} (hh : identifierMark ∉ head)
    (hn : identifierMark ∉ name) (t : Text) :
    ofLine? (head ++ name.identifier ++ t) = some ⟨name, t.trim.dropLastIf ','⟩ := by
  rw [ofLine?, identifier?_append hh hn, afterIdentifier_append hh hn]
  rfl

namespace Dump

/-- A line that declares a column, and the line with an equivalent definition behind the same
identifier. -/
inductive Redeclares (place : Place) : Text → Text → Prop
  | intro {head name behind : Text} (table : Text) (column : Column) (again : Text)
      (headMark : identifierMark ∉ head) (nameMark : identifierMark ∉ name)
      (declares : (place.read (head ++ name.identifier ++ behind)).1 = .column table column)
      (feed : '\n' ∉ again) (plain : Plain again)
      (equivalent :
        Definition.equivalent column.definition (again.trim.dropLastIf ',') = true) :
      Redeclares place (head ++ name.identifier ++ behind) (head ++ name.identifier ++ again)

/-- The lines of a dump from a place on, and the lines with equivalent definitions for some of the
columns. -/
inductive Restyled : Place → List Text → List Text → Prop
  | nil {place : Place} : Restyled place [] []
  | kept {place : Place} (line : Text) {rest others : List Text}
      (later : Restyled (place.read line).2 rest others) :
      Restyled place (line :: rest) (line :: others)
  | redeclared {place : Place} {line other : Text} {rest others : List Text}
      (redeclares : Redeclares place line other)
      (later : Restyled (place.read line).2 rest others) :
      Restyled place (line :: rest) (other :: others)

namespace Redeclares

variable {place : Place} {line other : Text}

/-- Both lines say that the body declares a column, and the columns are alike. -/
theorem read (h : Redeclares place line other) :
    (place.read line).1.Alike (place.read other).1
      ∧ (place.read other).2 = (place.read line).2 := by
  obtain ⟨table, column, again, headMark, nameMark, declares, feed, plain, equivalent⟩ := h
  rename_i head name behind
  obtain ⟨rfl, noCreate, noEnd, noAlter, declared⟩ := Place.read_eq_column.mp declares
  obtain rfl := Option.some.inj
    ((Column.ofLine?_append headMark nameMark behind).symm.trans declared)
  have hline : Plain (head ++ name.identifier ++ behind) := .of_words noCreate noEnd noAlter
  have hhead : Plain head := hline.of_isInfix ⟨[], name.identifier ++ behind, by simp⟩
  have hname : Plain name :=
    hline.of_isInfix (infix_of_identifier? (identifier?_append headMark nameMark behind))
  have hother := hhead.identifier hname plain
  rw [Rule.read_eq (.column noCreate noEnd noAlter declared),
    Rule.read_eq (.column hother.create hother.bodyEnd hother.alter
      (Column.ofLine?_append headMark nameMark again))]
  exact ⟨.column table ⟨rfl, equivalent⟩, rfl⟩

/-- A carriage return at the end of the definition makes no difference. -/
theorem dropLastIf (h : Redeclares place line other) :
    Redeclares place line (other.dropLastIf '\r') := by
  obtain ⟨table, column, again, headMark, nameMark, declares, feed, plain, equivalent⟩ := h
  rename_i head name behind
  have hkept := prefix_dropLastIf again '\r'
  rw [dropLastIf_identifier (by decide)]
  refine .intro table column _ headMark nameMark declares (fun hm => feed (hkept.subset hm))
    (plain.of_isInfix hkept.isInfix) ?_
  rwa [trim_dropLastIf (by decide)]

theorem ne_nil (h : Redeclares place line other) : other ≠ [] := by
  obtain ⟨table, column, again, headMark, nameMark, declares, feed, plain, equivalent⟩ := h
  simp [identifier, quoted]

/-- No line feed comes to stand in a line. -/
theorem feed (h : Redeclares place line other) (hl : '\n' ∉ line) : '\n' ∉ other := by
  obtain ⟨table, column, again, headMark, nameMark, declares, feed, plain, equivalent⟩ := h
  simp only [List.mem_append, not_or] at hl ⊢
  exact ⟨hl.1, feed⟩

end Redeclares

namespace Restyled

theorem refl (place : Place) (lines : List Text) : Restyled place lines lines := by
  induction lines generalizing place with
  | nil => exact .nil
  | cons line rest ih => exact .kept line (ih _)

/-- What the lines say is alike, one by one. -/
theorem events {place : Place} {lines others : List Text} (h : Restyled place lines others) :
    List.Forall₂ Event.Alike (place.events lines) (place.events others) := by
  induction h with
  | nil => exact .nil
  | kept line later ih => exact .cons (.same _) ih
  | redeclared redeclares later ih =>
    obtain ⟨halike, hnext⟩ := redeclares.read
    rw [Place.events_cons, Place.events_cons, hnext]
    exact .cons halike ih

/-- Lines written between the ends of a dump are read as they were written, but for carriage returns
that make no difference. -/
theorem relined {dump : Text} {place : Place} {others : List Text}
    (h : Restyled place dump.lines others) :
    Restyled place dump.lines (dump.relined others).lines := by
  induction dump using lines_induction generalizing place others with
  | last dump hdump =>
    rw [lines_of_not_mem hdump] at h ⊢
    split
    · rename_i hnil
      rw [if_pos hnil] at h
      cases h
      exact .nil
    · rename_i hne
      rw [if_neg hne] at h
      cases h with
      | kept _ later =>
        cases later
        rw [relined_singleton hdump hne, lines_of_not_mem hdump, if_neg hne]
        exact .kept dump .nil
      | redeclared redeclares later =>
        cases later
        rw [relined_singleton hdump hne, lines_of_not_mem (redeclares.feed hdump),
          if_neg redeclares.ne_nil]
        exact .redeclared redeclares .nil
  | line l dump hl ih =>
    have hcut : '\n' ∉ l.dropLastIf '\r' := fun hm => hl ((prefix_dropLastIf _ _).subset hm)
    rw [lines_append hl] at h ⊢
    cases h with
    | kept _ later =>
      rw [lines_relined_kept hl]
      exact .kept _ (ih later)
    | redeclared redeclares later =>
      obtain ⟨kept, hkept, hlines⟩ := lines_relined_append hl (redeclares.feed hcut) dump _
      rw [hlines]
      rcases hkept with rfl | rfl
      · exact .redeclared redeclares (ih later)
      · exact .redeclared redeclares.dropLastIf (ih later)

end Restyled

/-- **A dump that is styled differently needs no migration.** If some columns of a dump are declared
with equivalent definitions, and all else is left as it was, then there is nothing to migrate from
one dump to the other, neither way, whether the lines keep their ends or not. In particular there is
nothing to migrate from a dump to itself. Nothing else is asked of the dumps: enumerations may have
no brackets, columns may be declared again, and tables may be created again. -/
theorem migration_restyled {dump : Text} {others : List Text}
    (h : Restyled .outside dump.lines others) :
    (∀ other : Text, other = dump.relined others ∨ other.lines = others →
      migration dump other = .ok ⟨[], [], [], []⟩ ∧ migration other dump = .ok ⟨[], [], [], []⟩)
    ∧ migration dump dump = .ok ⟨[], [], [], []⟩ := by
  have hempty : ∀ {other : Text}, Restyled .outside dump.lines other.lines →
      migration dump other = .ok ⟨[], [], [], []⟩
      ∧ migration other dump = .ok ⟨[], [], [], []⟩ := by
    intro other hother
    have halike : (Schema.ofDump dump).Alike (Schema.ofDump other) :=
      Schema.alike_ofEvents hother.events
    exact ⟨Schema.migration_of_alike halike (Schema.nodup_tableNames_ofEvents _)
        fun _ ht => Schema.nodup_columnNames_ofEvents ht,
      Schema.migration_of_alike halike.symm (Schema.nodup_tableNames_ofEvents _)
        fun _ ht => Schema.nodup_columnNames_ofEvents ht⟩
  refine ⟨?_, (hempty (.refl .outside dump.lines)).1⟩
  rintro other (rfl | rfl)
  · exact hempty h.relined
  · exact hempty h

/-- A dump with a column that is declared again, a table that is created again, and an enumeration
without a closing bracket. -/
def untidy : Text :=
  ("CREATE TABLE `t` (\r\n`e` enum('a',\r\n`e`INT\n) ENGINE\n"
    ++ "CREATE TABLE `t` (\n`e`enum('a'").toList

/-- The same dump in another style. -/
def tidy : Text :=
  ("CREATE TABLE `t` (\r\n`e` enum('a',\r\n`e` int,\n) ENGINE\n"
    ++ "CREATE TABLE `t` (\n`e` ENUM('A'").toList

theorem migration_restyled_tidy :
    Restyled .outside untidy.lines tidy.lines ∧ tidy = untidy.relined tidy.lines
      ∧ migration untidy tidy = .ok ⟨[], [], [], []⟩
      ∧ migration tidy untidy = .ok ⟨[], [], [], []⟩ := by
  have huntidy : untidy.lines
      = ["CREATE TABLE `t` (".toList, "`e` enum('a',".toList,
        [] ++ identifier ['e'] ++ "INT".toList, ") ENGINE".toList, "CREATE TABLE `t` (".toList,
        [] ++ identifier ['e'] ++ "enum('a'".toList] := by
    decide +kernel
  have htidy : tidy.lines
      = ["CREATE TABLE `t` (".toList, "`e` enum('a',".toList,
        [] ++ identifier ['e'] ++ " int,".toList, ") ENGINE".toList, "CREATE TABLE `t` (".toList,
        [] ++ identifier ['e'] ++ " ENUM('A'".toList] := by
    decide +kernel
  have hrelined : tidy = untidy.relined tidy.lines := by
    decide +kernel
  have hrestyled : Restyled .outside untidy.lines tidy.lines := by
    rw [huntidy, htidy]
    refine .kept _ (.kept _ (.redeclared
      (.intro ['t'] ⟨['e'], "INT".toList⟩ _ ?_ ?_ ?_ ?_ ?_ ?_)
      (.kept _ (.kept _ (.redeclared
        (.intro ['t'] ⟨['e'], "enum('a'".toList⟩ _ ?_ ?_ ?_ ?_ ?_ ?_) .nil)))))
    all_goals decide +kernel
  exact ⟨hrestyled, hrelined, (migration_restyled hrestyled).1 tidy (.inl hrelined)⟩

end Dump

end SchemaGrowth
