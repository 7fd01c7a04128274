import SchemaGrowth.Proofs.Migration.Comparison
import SchemaGrowth.Proofs.Text.Literals

/-!
# The values that the database reads

The database reads the list of an enumeration with every mark of a value written twice. A merge
reads it from mark to mark instead, so a value with a mark comes apart.
`Table.literals_of_classify` says which values the database finds in a merged list, and that they
are all that it found on both sides exactly if none of those holds a mark.
-/

namespace SchemaGrowth

open Definition Enumeration

/-! ## Lists as the database reads them -/

/-- What stands between the brackets of a definition. -/
def Definition.listText (definition : Text) : Text :=
  (definition.after '(').before ')'

/-- An enumeration in whose list the database finds the values. -/
structure Definition.HasLiterals (definition : Text) (values : List Text) : Prop where
  isEnum : isEnum definition = true
  read : (listText definition).literals? = some values

namespace Enumeration

theorem values_of_ofDefinition? {definition : Text} {enumeration : Enumeration}
    (h : ofDefinition? definition = some enumeration) :
    enumeration.values = (listText definition).enclosed literalMark := by
  unfold ofDefinition? at h
  split at h
  · obtain rfl := Option.some.inj h
    rfl
  · cases h

/-- A merge works on the pieces around the marks of what the database reads. -/
theorem values_of_hasLiterals {definition : Text} {enumeration : Enumeration} {values : List Text}
    (h : ofDefinition? definition = some enumeration) (hv : HasLiterals definition values) :
    enumeration.values = values.flatMap (·.splitOn literalMark) := by
  rw [values_of_ofDefinition? h, Text.enclosed_of_literals? hv.read]

/-- The database reads a written list as the values that were written. -/
theorem literals?_valueList {enumeration : Enumeration}
    (h : ∀ value ∈ enumeration.values, literalMark ∉ value) (hne : enumeration.values ≠ []) :
    enumeration.valueList.literals? = some enumeration.values := by
  have hdoubled : enumeration.values.map Text.literal
      = enumeration.values.map fun value => value.doubled.literal := by
    refine List.map_congr_left ?_
    intro value hv
    rw [Text.doubled_of_not_mem (h value hv)]
  rw [valueList, hdoubled, Text.literals?_join hne]

theorem hasLiterals_definition {enumeration : Enumeration} (h : enumeration.Writable)
    (hne : enumeration.values ≠ []) :
    HasLiterals enumeration.definition enumeration.values := by
  refine ⟨isEnum_definition enumeration, ?_⟩
  rw [listText, definition_eq, Text.after_append (by decide),
    Text.before_append h.not_mem_valueList.2]
  exact literals?_valueList h.mark hne

end Enumeration

/-! ## Pieces of values -/

theorem pieces_ne_nil {values : List Text} (h : values ≠ []) :
    values.flatMap (·.splitOn literalMark) ≠ [] := by
  obtain ⟨value, rest, rfl⟩ := List.exists_cons_of_ne_nil h
  rw [List.flatMap_cons]
  exact List.append_ne_nil_of_left_ne_nil (List.splitOn_ne_nil _ _) _

/-- Values are found among their pieces if none of them holds a mark, and only then. -/
theorem mem_pieces_iff {values : List Text} :
    (∀ value ∈ values, value ∈ values.flatMap (·.splitOn literalMark))
      ↔ ∀ value ∈ values, literalMark ∉ value := by
  constructor
  · intro h value hv
    obtain ⟨whole, -, hpiece⟩ := List.mem_flatMap.mp (h value hv)
    exact (Text.mem_splitOn hpiece).1
  · intro h value hv
    refine List.mem_flatMap.mpr ⟨value, hv, ?_⟩
    rw [List.splitOn_eq_singleton (h value hv)]
    exact List.mem_singleton_self value

/-! ## Merged lists -/

/-- **In a merged list the database finds the pieces of all values, each once**: those around the
marks of the old and the new values. They are the values themselves exactly if no value holds a
mark. -/
theorem Table.literals_of_classify {table : Table} {old new : Column}
    {oldValues newValues : List Text} {revision : Revision}
    (found : table.column? new.name = some old)
    (oldRead : HasLiterals (canonical old.definition) oldValues)
    (newRead : HasLiterals (canonical new.definition) newValues)
    (h : table.classify new = .ok (.revised revision)) :
    ∃ definition values, revision.statement = .modifyColumn table.name ⟨new.name, definition⟩
      ∧ HasLiterals definition values
      ∧ values = ((oldValues ++ newValues).flatMap (·.splitOn literalMark)).eraseDups
      ∧ ((∀ value ∈ oldValues ++ newValues, value ∈ values)
          ↔ ∀ value ∈ oldValues ++ newValues, literalMark ∉ value) := by
  have hcompare := Change.comparison_between table.name old new
  rw [← classify_of_column?_eq_some found, h] at hcompare
  cases hcompare with
  | plain differ noEnums => simp [oldRead.isEnum, newRead.isEnum] at noEnums
  | @merged oldEnum newEnum merged _ _ _ oldParsed newParsed merge =>
    have hwritable := (writable_of_ofDefinition? oldParsed).merge?
      (writable_of_ofDefinition? newParsed) merge
    have hvalues : merged.values
        = ((oldValues ++ newValues).flatMap (·.splitOn literalMark)).eraseDups := by
      rw [eq_of_merge? merge, values_of_hasLiterals oldParsed oldRead,
        values_of_hasLiterals newParsed newRead, List.flatMap_append]
    have hne : merged.values ≠ [] := by
      have hold := Text.literals?_ne_nil oldRead.read
      obtain ⟨piece, hpiece⟩ := List.exists_mem_of_ne_nil _
        (pieces_ne_nil (List.append_ne_nil_of_left_ne_nil hold newValues))
      rw [hvalues]
      exact List.ne_nil_of_mem (List.mem_eraseDups.mpr hpiece)
    refine ⟨merged.definition, merged.values, rfl, hasLiterals_definition hwritable hne,
      hvalues, ?_⟩
    simp only [hvalues, List.mem_eraseDups]
    exact mem_pieces_iff

/-- A table with an enumeration whose only value holds a mark. -/
def apostropheTable : Table :=
  ⟨"t".toList, [⟨"s".toList, "enum('it''s')".toList⟩], []⟩

/-- The column with one more value. -/
def apostropheColumn : Column :=
  ⟨"s".toList, "enum('it''s','b')".toList⟩

/-- What the column changes in the table. -/
def apostropheRevision : Revision :=
  ⟨"t".toList, ⟨"s".toList, "ENUM('it','s','b')".toList⟩, "enum('it''s')".toList,
    "enum('it''s','b')".toList⟩

/-- The values of the column as the database reads them. -/
def apostropheValues : List Text :=
  ["it\x27s".toList, "b".toList]

/-- A value with a mark comes apart. -/
theorem Table.literals_of_classify_apostrophe :
    ∃ definition values, apostropheRevision.statement
        = .modifyColumn apostropheTable.name ⟨apostropheColumn.name, definition⟩
      ∧ HasLiterals definition values
      ∧ values = ((apostropheValues.take 1 ++ apostropheValues).flatMap
          (·.splitOn literalMark)).eraseDups
      ∧ ((∀ value ∈ apostropheValues.take 1 ++ apostropheValues, value ∈ values)
          ↔ ∀ value ∈ apostropheValues.take 1 ++ apostropheValues, literalMark ∉ value) :=
  @Table.literals_of_classify apostropheTable ⟨"s".toList, "enum('it''s')".toList⟩ apostropheColumn
    _ _ apostropheRevision (by decide +kernel) ⟨by decide +kernel, by decide +kernel⟩
    ⟨by decide +kernel, by decide +kernel⟩ (by decide +kernel)

/-- Whether a changed enumeration keeps every value that the database reads on either side. -/
def KeepsLiterals (table : Table) (new : Column) : Prop :=
  ∀ (old : Column) (oldValues newValues : List Text) (revision : Revision),
    table.column? new.name = some old →
    HasLiterals (canonical old.definition) oldValues →
    HasLiterals (canonical new.definition) newValues →
    table.classify new = .ok (.revised revision) →
    ∃ values, (listText revision.column.definition).literals? = some values
      ∧ ∀ value ∈ oldValues ++ newValues, value ∈ values

theorem not_keepsLiterals_apostrophe : ¬ KeepsLiterals apostropheTable apostropheColumn := by
  intro h
  obtain ⟨values, hread, hall⟩ := h ⟨"s".toList, "enum('it''s')".toList⟩
    (apostropheValues.take 1) apostropheValues apostropheRevision (by decide +kernel)
    ⟨by decide +kernel, by decide +kernel⟩ ⟨by decide +kernel, by decide +kernel⟩
    (by decide +kernel)
  have hpieces : (listText apostropheRevision.column.definition).literals?
      = some ["it".toList, "s".toList, "b".toList] := by
    decide +kernel
  obtain rfl := Option.some.inj (hread.symm.trans hpieces)
  exact absurd (hall "it\x27s".toList (by decide)) (by decide)

end SchemaGrowth
