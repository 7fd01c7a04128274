import SchemaGrowth.Proofs.Enumeration.Canonical
import SchemaGrowth.Proofs.Migration.Contribution

/-!
# The values that a dump lists

A migration reads and merges enumerations in canonical form, though what they say stands in the
dumps as it was written. `listed_values` compares the two: a definition and its canonical form are
enumerations and can be read alike, and where the list is plain they have the same values. So what
is merged are the values that the dumps list.
-/

namespace SchemaGrowth

open Definition Enumeration

/-- An enumeration as it is written, with a plain list. -/
structure Definition.Lists (definition : Text) (enumeration : Enumeration) : Prop where
  isEnum : isEnum definition = true
  read : ofDefinition? definition = some enumeration
  plain : PlainList definition

/-- What is made of a column whose definitions list the values of two enumerations: it stays if
nothing is new, and else it takes the values of both, the old ones first and each once. The
modifiers are those of the canonical forms. -/
def Table.MergesLists (table : Table) (had wanted : Column) (oldEnum newEnum : Enumeration) : Prop :=
  ∃ oldModifiers newModifiers,
    ofDefinition? (canonical had.definition) = some ⟨oldEnum.values, oldModifiers⟩
    ∧ ofDefinition? (canonical wanted.definition) = some ⟨newEnum.values, newModifiers⟩
    ∧ table.classify wanted
        = .ok (if equivalent had.definition wanted.definition = true
              ∨ (∀ value ∈ newEnum.values, value ∈ oldEnum.values)
                ∧ sameModifiers ⟨oldEnum.values, oldModifiers⟩ ⟨newEnum.values, newModifiers⟩ = true
            then .unchanged
            else .revised ⟨table.name,
              ⟨wanted.name, definition ⟨(oldEnum.values ++ newEnum.values).eraseDups, newModifiers⟩⟩,
              canonical had.definition, canonical wanted.definition⟩)

theorem Table.mergesLists {table : Table} {had wanted : Column} {oldEnum newEnum : Enumeration}
    (found : table.column? wanted.name = some had) (old : Lists had.definition oldEnum)
    (new : Lists wanted.definition newEnum) : table.MergesLists had wanted oldEnum newEnum := by
  obtain ⟨oldModifiers, oldRead⟩ := ofDefinition?_canonical old.read old.plain
  obtain ⟨newModifiers, newRead⟩ := ofDefinition?_canonical new.read new.plain
  refine ⟨oldModifiers, newModifiers, oldRead, newRead, ?_⟩
  rw [classify_of_column?_eq_some found]
  cases same : equivalent had.definition wanted.definition with
  | true => rw [if_pos (.inl rfl), Change.between_of_equivalent same]
  | false =>
    have hbetween := Change.between_of_read same ((isEnum_canonical _).trans old.isEnum)
      ((isEnum_canonical _).trans new.isEnum) oldRead newRead table.name
    by_cases contained : (∀ value ∈ newEnum.values, value ∈ oldEnum.values)
        ∧ sameModifiers ⟨oldEnum.values, oldModifiers⟩ ⟨newEnum.values, newModifiers⟩ = true
    · rw [hbetween, merge?_eq_none.mpr contained, if_pos (.inr contained)]
    · rw [hbetween, merge?_of_something contained, if_neg (by simpa using contained)]

/-- **A definition and its canonical form have the same literals.** One is an enumeration, and can be
read, exactly if the other is and can. Where no mark stands before the list, and identifier marks
stand in literals only, both have the same values; and so a merge of two such enumerations has the
values that they list as they are written. -/
theorem Enumeration.listed_values :
    (∀ definition,
      (ofDefinition? (canonical definition)).isSome = (ofDefinition? definition).isSome
      ∧ isEnum (canonical definition) = isEnum definition)
    ∧ (∀ definition enumeration, ofDefinition? definition = some enumeration →
        PlainList definition →
        ∃ modifiers, ofDefinition? (canonical definition) = some ⟨enumeration.values, modifiers⟩)
    ∧ ∀ (table : Table) (had wanted : Column) (oldEnum newEnum : Enumeration),
        table.column? wanted.name = some had → Lists had.definition oldEnum →
        Lists wanted.definition newEnum → table.MergesLists had wanted oldEnum newEnum := by
  refine ⟨fun definition => ⟨isSome_ofDefinition?_canonical definition, isEnum_canonical definition⟩,
    fun _ _ => ofDefinition?_canonical, ?_⟩
  intro table had wanted oldEnum newEnum found old new
  exact Table.mergesLists found old new

/-- A column with spaces and an identifier mark in its values. -/
def spacedColumn : Column :=
  ⟨"s".toList, "  Enum ('a  b' ,'x\x60'  )  NOT NULL".toList⟩

/-- The same column with a value whose literal is still open at the bracket. -/
def openColumn : Column :=
  ⟨"s".toList, "enum('a  b',  'd  \x60)  NULL".toList⟩

theorem Enumeration.listed_values_openColumn :
    Table.column? ⟨"t".toList, [spacedColumn], []⟩ openColumn.name = some spacedColumn
    ∧ Lists spacedColumn.definition
        ⟨["a  b".toList, "x\x60".toList], "  NOT NULL".toList⟩
    ∧ Lists openColumn.definition ⟨["a  b".toList, "d  \x60".toList], "  NULL".toList⟩
    ∧ Table.MergesLists ⟨"t".toList, [spacedColumn], []⟩ spacedColumn openColumn
        ⟨["a  b".toList, "x\x60".toList], "  NOT NULL".toList⟩
        ⟨["a  b".toList, "d  \x60".toList], "  NULL".toList⟩ :=
  have found : Table.column? ⟨"t".toList, [spacedColumn], []⟩ openColumn.name
      = some spacedColumn := by decide +kernel
  have old : Lists spacedColumn.definition
      ⟨["a  b".toList, "x\x60".toList], "  NOT NULL".toList⟩ :=
    ⟨by decide +kernel, by decide +kernel, by decide +kernel⟩
  have new : Lists openColumn.definition
      ⟨["a  b".toList, "d  \x60".toList], "  NULL".toList⟩ :=
    ⟨by decide +kernel, by decide +kernel, by decide +kernel⟩
  ⟨found, old, new, listed_values.2.2 _ _ _ _ _ found old new⟩

end SchemaGrowth
