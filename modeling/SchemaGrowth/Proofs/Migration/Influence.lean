import SchemaGrowth.Proofs.Definition.Squeezing
import SchemaGrowth.Proofs.Migration.Effect

/-!
# What has an influence on a migration

A migration sees its old schema through the new one: it asks for tables by the names of the new
ones, and in a table that it finds for columns by the names of the new ones. `Indistinct` lists what
it can learn in this way. Where two old and two new schemas agree on that, so do the migrations,
also in their failures (`migration_of_indistinct`). All else may be cut off: `prunedFor` leaves
of an old schema what a new one asks for, and `unlinedFor` leaves out of a new schema the lines of
the tables that an old one has.
-/

namespace SchemaGrowth

open Definition

/-! ## Keyed lists in parts and in another order -/

namespace Keyed

variable {α κ : Type} [DecidableEq κ] {key : α → κ} {k : κ}

/-- Entries of other keys can be left out. -/
theorem get?_filter {p : α → Bool} (h : ∀ x, key x = k → p x = true) (xs : List α) :
    get? key k (xs.filter p) = get? key k xs := by
  induction xs with
  | nil => rfl
  | cons x rest ih =>
    by_cases hk : key x = k
    · rw [List.filter_cons_of_pos (h x hk), get?_cons, get?_cons, if_pos hk, if_pos hk]
    · cases hp : p x with
      | true => rw [List.filter_cons_of_pos hp, get?_cons, get?_cons, if_neg hk, if_neg hk, ih]
      | false =>
        rw [List.filter_cons_of_neg (by simp [hp]), get?_cons, if_neg hk, ih]

theorem get?_map {f : α → α} (hf : ∀ x, key (f x) = key x) (xs : List α) :
    get? key k (xs.map f) = (get? key k xs).map f := by
  induction xs with
  | nil => rfl
  | cons x rest ih =>
    rw [List.map_cons, get?_cons, get?_cons, hf, ih]
    split <;> rfl

/-- With distinct keys, the order makes no difference. -/
theorem get?_perm {xs ys : List α} (h : xs.Perm ys) (hn : (ys.map key).Nodup) :
    get? key k xs = get? key k ys := by
  have hxs : (xs.map key).Nodup := (h.map key).nodup_iff.mpr hn
  by_cases hk : k ∈ ys.map key
  · obtain ⟨y, hy, rfl⟩ := List.mem_map.mp hk
    rw [get?_of_mem hn hy, get?_of_mem hxs (h.mem_iff.mpr hy)]
  · have hkx : k ∉ xs.map key := fun hm => hk ((h.map key).mem_iff.mp hm)
    rw [get?_eq_none_iff.mpr hk, get?_eq_none_iff.mpr hkx]

end Keyed

/-! ## What is seen of a table -/

/-- The old definition of a column is only compared and read in its canonical form. -/
theorem Change.between_congr {had has : Column}
    (h : canonical had.definition = canonical has.definition) (table : Text) (wanted : Column) :
    between table had wanted = between table has wanted := by
  rw [between, between, equivalent, equivalent, h]

namespace Table

/-- The canonical definition of the column of a name. -/
def form? (table : Table) (name : Text) : Option Text :=
  (table.column? name).map fun column => canonical column.definition

/-- Tables that look the same to one who asks for some columns: the last column has one name, and of
the columns in question each is in both tables or in neither, with one canonical definition. -/
structure LooksLike (wanted : List Column) (current other : Table) : Prop where
  last : current.lastColumn? = other.lastColumn?
  forms : ∀ column ∈ wanted, current.form? column.name = other.form? column.name

instance (wanted : List Column) (current other : Table) :
    Decidable (LooksLike wanted current other) :=
  decidable_of_iff (current.lastColumn? = other.lastColumn?
      ∧ ∀ column ∈ wanted, current.form? column.name = other.form? column.name)
    ⟨fun h => ⟨h.1, h.2⟩, fun h => ⟨h.last, h.forms⟩⟩

variable {current other : Table} {wanted : Column}

theorem classify_congr (name : current.name = other.name)
    (last : current.lastColumn? = other.lastColumn?)
    (form : current.form? wanted.name = other.form? wanted.name) :
    current.classify wanted = other.classify wanted := by
  unfold form? at form
  cases hhad : current.column? wanted.name with
  | none =>
    have hhas : other.column? wanted.name = none := by
      simpa [hhad] using form.symm
    rw [classify_of_column?_eq_none hhad, classify_of_column?_eq_none hhas, last]
  | some had =>
    obtain ⟨has, hhas, hform⟩ := Option.map_eq_some_iff.mp (form.symm.trans (by rw [hhad]; rfl))
    rw [classify_of_column?_eq_some hhad, classify_of_column?_eq_some hhas, name]
    exact Change.between_congr hform.symm _ _

/-- A table with no columns but those of some names and the last one, each with its canonical
definition, and without lines. -/
def pruned (names : List Text) (table : Table) : Table :=
  ⟨table.name,
    (table.columns.filter fun column =>
        column.name ∈ names ∨ table.lastColumn? = some column.name).map
      fun column => ⟨column.name, canonical column.definition⟩,
    []⟩

theorem lastColumn?_pruned (names : List Text) (table : Table) :
    (table.pruned names).lastColumn? = table.lastColumn? := by
  obtain ⟨name, columns, alterLines⟩ := table
  induction columns using List.reverseRecOn with
  | nil => rfl
  | append_singleton front last => simp [pruned, lastColumn?, columnNames]

theorem form?_pruned {names : List Text} {name : Text} (h : name ∈ names) (table : Table) :
    (table.pruned names).form? name = table.form? name := by
  have hkept : ∀ column : Column, column.name = name →
      decide (column.name ∈ names ∨ table.lastColumn? = some column.name) = true := by
    rintro column rfl
    simp [h]
  have hname : ∀ column : Column,
      Column.name ⟨column.name, canonical column.definition⟩ = column.name := fun _ => rfl
  rw [form?, form?, column?, pruned, Keyed.get?_map hname, Keyed.get?_filter hkept,
    Option.map_map, ← column?]
  refine Option.map_congr fun column _ => ?_
  exact canonical_canonical column.definition

/-- What is pruned off a table is not seen. -/
theorem looksLike_pruned {names : List Text} {wanted : List Column}
    (h : ∀ column ∈ wanted, column.name ∈ names) (table : Table) :
    LooksLike wanted table (table.pruned names) :=
  ⟨(lastColumn?_pruned names table).symm, fun column hm => (form?_pruned (h column hm) table).symm⟩

end Table

/-- A new table without its lines, if an old schema has a table of its name. -/
def Table.unlinedFor (old : Schema) (table : Table) : Table :=
  if (old.table? table.name).isSome then { table with alterLines := [] } else table

@[simp] theorem Table.name_unlinedFor (old : Schema) (table : Table) :
    (table.unlinedFor old).name = table.name := by
  unfold unlinedFor
  split <;> rfl

@[simp] theorem Table.columns_unlinedFor (old : Schema) (table : Table) :
    (table.unlinedFor old).columns = table.columns := by
  unfold unlinedFor
  split <;> rfl

/-! ## What is seen of a schema -/

namespace Schema

/-- An old and a new schema that no migration can tell from two others. -/
structure Indistinct (old new old' new' : Schema) : Prop where
  /-- The new tables have the same names, in order. -/
  names : new.tableNames = new'.tableNames
  /-- They have the same columns. -/
  columns : new.tables.map Table.columns = new'.tables.map Table.columns
  /-- Of their names, both old schemas have the same. -/
  found : ∀ name ∈ new.tableNames, (old.table? name).isSome = (old'.table? name).isSome
  /-- The new tables whose names they do not have are the same. -/
  created : (new.tables.filter fun table => (old.table? table.name).isNone)
    = new'.tables.filter fun table => (old'.table? table.name).isNone
  /-- The tables that both have of a name look the same to the new one. -/
  alike : ∀ table ∈ new.tables, ∀ current ∈ old.table? table.name,
    ∀ current' ∈ old'.table? table.name, Table.LooksLike table.columns current current'

variable {old old' : Schema}

/-- What is found for a table that is there depends on its name and on its columns. -/
theorem findingsOf_congr {table table' current current' : Table} (name : table.name = table'.name)
    (columns : table.columns = table'.columns) (hc : old.table? table.name = some current)
    (hc' : old'.table? table.name = some current')
    (alike : Table.LooksLike table.columns current current') :
    old.findingsOf table = old'.findingsOf table' := by
  have hname : current.name = current'.name := (name_of_table? hc).trans (name_of_table? hc').symm
  simp only [findingsOf, hc, ← name, hc', ← columns]
  refine List.map_congr_left fun column hm => ?_
  rw [Table.classify_congr hname alike.last (alike.forms column hm)]

/-- The first new tables lead to the same findings, and nothing can be told by the others. -/
theorem Indistinct.cons {table table' : Table} {rest rest' : List Table}
    (h : Indistinct old ⟨table :: rest⟩ old' ⟨table' :: rest'⟩) :
    old.findingsOf table = old'.findingsOf table' ∧ Indistinct old ⟨rest⟩ old' ⟨rest'⟩ := by
  obtain ⟨name, names⟩ := List.cons.inj h.names
  obtain ⟨column, columns⟩ := List.cons.inj h.columns
  have found : ∀ name ∈ rest.map Table.name, (old.table? name).isSome = (old'.table? name).isSome :=
    fun other ho => h.found other (List.mem_cons_of_mem _ ho)
  have alike : ∀ table ∈ rest, ∀ current ∈ old.table? table.name,
      ∀ current' ∈ old'.table? table.name, Table.LooksLike table.columns current current' :=
    fun other ho => h.alike other (List.mem_cons_of_mem _ ho)
  have hfound := h.found table.name (by simp [tableNames])
  have hcreated := h.created
  cases hc : old.table? table.name with
  | none =>
    have hc' : old'.table? table'.name = none := by
      rw [← name]
      simpa [hc] using hfound.symm
    rw [List.filter_cons_of_pos (by simp [hc]), List.filter_cons_of_pos (by simp [hc'])] at hcreated
    obtain ⟨rfl, created⟩ := List.cons.inj hcreated
    exact ⟨by simp only [findingsOf, hc, hc'], names, columns, found, created, alike⟩
  | some current =>
    obtain ⟨current', hc'⟩ := Option.isSome_iff_exists.mp (hfound.symm.trans (by simp [hc]))
    rw [List.filter_cons_of_neg (by simp [hc]),
      List.filter_cons_of_neg (by simp [← name, hc'])] at hcreated
    exact ⟨findingsOf_congr name column hc hc' (h.alike table (by simp) current hc current' hc'),
      names, columns, found, hcreated, alike⟩

theorem findings_of_indistinct {tables tables' : List Table}
    (h : Indistinct old ⟨tables⟩ old' ⟨tables'⟩) :
    old.findings ⟨tables⟩ = old'.findings ⟨tables'⟩ := by
  induction tables generalizing tables' with
  | nil =>
    obtain rfl : tables' = [] := List.map_eq_nil_iff.mp h.names.symm
    rfl
  | cons table rest ih =>
    obtain ⟨table', rest', rfl⟩ : ∃ table' rest', tables' = table' :: rest' :=
      List.exists_cons_of_ne_nil fun hnil => by simpa [hnil, tableNames] using h.names
    obtain ⟨hfirst, hrest⟩ := h.cons
    rw [findings_eq_flatMap, findings_eq_flatMap, List.flatMap_cons, List.flatMap_cons, hfirst,
      ← findings_eq_flatMap old ⟨rest⟩, ih hrest, findings_eq_flatMap]

theorem migration_of_indistinct {new new' : Schema} (h : Indistinct old new old' new') :
    old.migration new = old'.migration new' := by
  rw [migration, migration, Plan.between, Plan.between, findings_of_indistinct h]

/-! ### What is not seen -/

/-- The names of the columns that a schema has in its tables of a name. -/
def columnNamesOf (schema : Schema) (table : Text) : List Text :=
  (schema.tables.filter (·.name = table)).flatMap Table.columnNames

/-- What a new schema asks of an old one: the tables of its names, and of each the columns of its
names and the last one, with canonical definitions. -/
def prunedFor (old new : Schema) : Schema :=
  ⟨(old.tables.filter (·.name ∈ new.tableNames)).map
    fun table => table.pruned (new.columnNamesOf table.name)⟩

/-- A new schema without the lines of the tables that an old one has. -/
def unlinedFor (new old : Schema) : Schema :=
  ⟨new.tables.map (·.unlinedFor old)⟩

theorem table?_prunedFor {new : Schema} {name : Text} (h : name ∈ new.tableNames) (old : Schema) :
    (old.prunedFor new).table? name
      = (old.table? name).map (·.pruned (new.columnNamesOf name)) := by
  have hkept : ∀ table : Table, table.name = name →
      decide (table.name ∈ new.tableNames) = true := by
    rintro table rfl
    simp [h]
  have hname : ∀ table : Table,
      (table.pruned (new.columnNamesOf table.name)).name = table.name := fun _ => rfl
  rw [table?, prunedFor, Keyed.get?_map hname, Keyed.get?_filter hkept, ← table?]
  refine Option.map_congr fun table ht => ?_
  rw [name_of_table? ht]

theorem mem_columnNamesOf {schema : Schema} {table : Table} (ht : table ∈ schema.tables)
    {column : Column} (hc : column ∈ table.columns) :
    column.name ∈ schema.columnNamesOf table.name :=
  List.mem_flatMap.mpr ⟨table, List.mem_filter.mpr ⟨ht, by simp⟩, List.mem_map_of_mem hc⟩

theorem indistinct_pruned (old new : Schema) :
    Indistinct old new (old.prunedFor new) (new.unlinedFor old) := by
  have hmem : ∀ table ∈ new.tables, table.name ∈ new.tableNames := fun _ ht =>
    List.mem_map_of_mem ht
  refine ⟨?_, ?_, ?_, ?_, ?_⟩
  · simp [tableNames, unlinedFor]
  · simp [unlinedFor]
  · intro name hname
    rw [table?_prunedFor hname, Option.isSome_map]
  · have hfilter : new.tables.filter
          ((fun table => ((old.prunedFor new).table? table.name).isNone) ∘ (·.unlinedFor old))
        = new.tables.filter fun table => (old.table? table.name).isNone := by
      refine List.filter_congr fun table ht => ?_
      rw [Function.comp_apply, Table.name_unlinedFor, table?_prunedFor (hmem table ht),
        Option.isNone_map]
    -- A table that is created keeps its lines.
    have hkept : ∀ table ∈ new.tables.filter (fun table => (old.table? table.name).isNone),
        table.unlinedFor old = table := by
      intro table ht
      exact if_neg (by simpa using List.of_mem_filter ht)
    rw [unlinedFor, List.filter_map, hfilter, List.map_congr_left hkept, List.map_id']
  · intro table ht current hc current' hc'
    rw [table?_prunedFor (hmem table ht), hc] at hc'
    obtain rfl := Option.some.inj hc'
    exact Table.looksLike_pruned (fun column hm => mem_columnNamesOf ht hm) current

/-- Nothing but the tables of the new names is looked for. -/
theorem Indistinct.of_table? {new : Schema}
    (h : ∀ name ∈ new.tableNames, old.table? name = old'.table? name) :
    Indistinct old new old' new := by
  have hmem : ∀ table ∈ new.tables, old.table? table.name = old'.table? table.name := fun _ ht =>
    h _ (List.mem_map_of_mem ht)
  refine ⟨rfl, rfl, fun name hname => by rw [h name hname], ?_, ?_⟩
  · exact List.filter_congr fun table ht => by rw [hmem table ht]
  · intro table ht current hc current' hc'
    obtain rfl : current = current' :=
      Option.some.inj (hc.symm.trans ((hmem table ht).trans hc'))
    exact ⟨rfl, fun _ _ => rfl⟩

/-- **A migration is determined by what it asks for.** Two pairs of schemas that are indistinct have
the same script, or the same failure. So of an old schema nothing counts but the tables of the new
names, and of each its last column and the columns of the new names, in canonical form; of a new
schema the lines of a table count only if it is created; and the order of the old tables does not
count, as long as each has a name of its own. -/
theorem migration_determined (old new : Schema) :
    (∀ old' new', Indistinct old new old' new' → old.migration new = old'.migration new')
    ∧ (old.prunedFor new).migration (new.unlinedFor old) = old.migration new
    ∧ (old.tableNames.Nodup → ∀ tables, tables.Perm old.tables →
        migration ⟨tables⟩ new = old.migration new) := by
  refine ⟨fun _ _ => migration_of_indistinct, ?_, ?_⟩
  · exact (migration_of_indistinct (indistinct_pruned old new)).symm
  · intro hn tables hperm
    exact migration_of_indistinct (.of_table? fun name _ => Keyed.get?_perm hperm hn)

/-- A table with an enumeration in the middle, and lines. -/
def crowdedTable : Table :=
  ⟨"t".toList, [⟨"a".toList, "int  NULL".toList⟩, ⟨"z".toList, "text".toList⟩,
    ⟨"s".toList, "enum('p  q')".toList⟩, ⟨"w".toList, "date".toList⟩], ["x;".toList]⟩

/-- The same table to one who asks for the columns `a`, `s` and `c`. -/
def sparseTable : Table :=
  ⟨"t".toList, [⟨"s".toList, " enum('p  q') ".toList⟩, ⟨"a".toList, "int NULL".toList⟩,
    ⟨"w".toList, "time".toList⟩], []⟩

/-- A schema with the columns `a`, `s` and `c` in its second table. -/
def askingSchema (lines : List Text) : Schema :=
  ⟨[⟨"n".toList, [⟨"id".toList, "int".toList⟩], ["y;".toList]⟩,
    ⟨"t".toList, [⟨"a".toList, "bigint".toList⟩, ⟨"s".toList, "enum('r')".toList⟩,
      ⟨"c".toList, "int".toList⟩], lines⟩]⟩

theorem migration_determined_sparseTable :
    Indistinct ⟨[.empty "old".toList, crowdedTable]⟩ (askingSchema ["k;".toList])
        ⟨[sparseTable, .empty "other".toList]⟩ (askingSchema [])
      ∧ migration ⟨[.empty "old".toList, crowdedTable]⟩ (askingSchema ["k;".toList])
        = migration ⟨[sparseTable, .empty "other".toList]⟩ (askingSchema []) := by
  have hsame : Indistinct ⟨[.empty "old".toList, crowdedTable]⟩ (askingSchema ["k;".toList])
      ⟨[sparseTable, .empty "other".toList]⟩ (askingSchema []) := by
    refine ⟨?_, ?_, ?_, ?_, ?_⟩
    all_goals decide +kernel
  exact ⟨hsame, (migration_determined _ _).1 _ _ hsame⟩

end Schema

end SchemaGrowth
