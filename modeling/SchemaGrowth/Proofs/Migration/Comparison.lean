import SchemaGrowth.Migration.Change
import SchemaGrowth.Proofs.Definition.Canonical
import SchemaGrowth.Proofs.Enumeration.ReadBack

/-!
# Comparing two definitions of a column

`Comparison` lists the ways in which two definitions of a column compare, each with what must hold
of them, and `comparison_between` says that there are no others. `between_merged` is about a column
that has taken a merged definition: to compare it with the same new definition again changes
nothing, unless the closing bracket of the new definition is quoted.
-/

namespace SchemaGrowth

open Definition Enumeration

namespace Change

/-- How an old and a new definition of a column compare. -/
inductive Comparison (table : Text) (old new : Column) : Except MigrationError Change → Prop
  | equivalent (same : Definition.equivalent old.definition new.definition = true) :
      Comparison table old new (.ok .unchanged)
  | plain (differ : Definition.equivalent old.definition new.definition = false)
      (noEnums : (isEnum (canonical old.definition) && isEnum (canonical new.definition)) = false) :
      Comparison table old new
        (.ok (.revised ⟨table, new, canonical old.definition, canonical new.definition⟩))
  | oldMalformed (differ : Definition.equivalent old.definition new.definition = false)
      (oldIsEnum : isEnum (canonical old.definition) = true)
      (newIsEnum : isEnum (canonical new.definition) = true)
      (unread : ofDefinition? (canonical old.definition) = none) :
      Comparison table old new
        (.error (.malformedEnum table new.name (canonical old.definition)))
  | newMalformed {oldEnum : Enumeration}
      (differ : Definition.equivalent old.definition new.definition = false)
      (oldIsEnum : isEnum (canonical old.definition) = true)
      (newIsEnum : isEnum (canonical new.definition) = true)
      (oldRead : ofDefinition? (canonical old.definition) = some oldEnum)
      (unread : ofDefinition? (canonical new.definition) = none) :
      Comparison table old new
        (.error (.malformedEnum table new.name (canonical new.definition)))
  | contained {oldEnum newEnum : Enumeration}
      (differ : Definition.equivalent old.definition new.definition = false)
      (oldIsEnum : isEnum (canonical old.definition) = true)
      (newIsEnum : isEnum (canonical new.definition) = true)
      (oldRead : ofDefinition? (canonical old.definition) = some oldEnum)
      (newRead : ofDefinition? (canonical new.definition) = some newEnum)
      (nothingNew : oldEnum.merge? newEnum = none) :
      Comparison table old new (.ok .unchanged)
  | merged {oldEnum newEnum merged : Enumeration}
      (differ : Definition.equivalent old.definition new.definition = false)
      (oldIsEnum : isEnum (canonical old.definition) = true)
      (newIsEnum : isEnum (canonical new.definition) = true)
      (oldRead : ofDefinition? (canonical old.definition) = some oldEnum)
      (newRead : ofDefinition? (canonical new.definition) = some newEnum)
      (merge : oldEnum.merge? newEnum = some merged) :
      Comparison table old new
        (.ok (.revised ⟨table, ⟨new.name, merged.definition⟩, canonical old.definition,
          canonical new.definition⟩))

/-- Every comparison is one of those listed. -/
theorem comparison_between (table : Text) (old new : Column) :
    Comparison table old new (between table old new) := by
  simp only [between]
  split
  · rename_i same
    exact .equivalent same
  · rename_i differ
    have differ := eq_false_of_ne_true differ
    split
    · rename_i enums
      obtain ⟨oldIsEnum, newIsEnum⟩ := (Bool.and_eq_true _ _).mp enums
      cases ho : ofDefinition? (canonical old.definition) with
      | none =>
        have hm : mergeEnums table new.name (canonical old.definition) (canonical new.definition)
            = .error (.malformedEnum table new.name (canonical old.definition)) := by
          simp [mergeEnums, readEnum, ho, bind, Except.bind]
        simp only [hm, bind, Except.bind]
        exact .oldMalformed differ oldIsEnum newIsEnum ho
      | some oldEnum =>
        cases hn : ofDefinition? (canonical new.definition) with
        | none =>
          have hm : mergeEnums table new.name (canonical old.definition) (canonical new.definition)
              = .error (.malformedEnum table new.name (canonical new.definition)) := by
            simp [mergeEnums, readEnum, ho, hn, bind, Except.bind]
          simp only [hm, bind, Except.bind]
          exact .newMalformed differ oldIsEnum newIsEnum ho hn
        | some newEnum =>
          simp only [mergeEnums_ok ho hn, bind, Except.bind]
          cases hg : oldEnum.merge? newEnum with
          | none => exact .contained differ oldIsEnum newIsEnum ho hn hg
          | some merged => exact .merged differ oldIsEnum newIsEnum ho hn hg
    · rename_i noEnums
      exact .plain differ (eq_false_of_ne_true noEnums)

/-- A revision is one of the column that was compared. -/
theorem revision_of_between {table : Text} {old new : Column} {revision : Revision}
    (h : between table old new = .ok (.revised revision)) :
    revision.table = table ∧ revision.column.name = new.name := by
  have hc := comparison_between table old new
  rw [h] at hc
  cases hc with
  | plain => exact ⟨rfl, rfl⟩
  | merged => exact ⟨rfl, rfl⟩

end Change

/-- A column that is there is compared with its old definition. -/
theorem Table.classify_of_column?_eq_some {table : Table} {old new : Column}
    (h : table.column? new.name = some old) :
    table.classify new = Change.between table.name old new := by
  rw [classify, h]

/-- A revision is one of the column that was classified. -/
theorem Table.revision_of_classify {table : Table} {column : Column} {revision : Revision}
    (h : table.classify column = .ok (.revised revision)) :
    revision.table = table.name ∧ revision.column.name = column.name := by
  cases hold : table.column? column.name with
  | none =>
    rw [classify_of_column?_eq_none hold] at h
    cases h
  | some old =>
    rw [classify_of_column?_eq_some hold] at h
    exact Change.revision_of_between h

/-- An added column is the one that was classified. -/
theorem Table.added_of_classify {table : Table} {column added : Column} {behind : Option Text}
    (h : table.classify column = .ok (.added added behind)) : added = column := by
  cases hold : table.column? column.name with
  | none =>
    rw [classify_of_column?_eq_none hold] at h
    cases h
    rfl
  | some old =>
    have hcompare := Change.comparison_between table.name old column
    rw [← classify_of_column?_eq_some hold, h] at hcompare
    cases hcompare

/-! ## Merged definitions -/

namespace Enumeration

theorem isEnum_definition (enumeration : Enumeration) : isEnum enumeration.definition = true := by
  have hE : isBlank 'E' = false := by decide
  rw [definition_eq, isEnum, List.cons_append, Text.trimStart_cons, hE]
  rfl

/-- A list of values is left alone by squeezing. -/
theorem squeeze_valueList {enumeration : Enumeration}
    (h : ∀ value ∈ enumeration.values, literalMark ∉ value) (t : Text) :
    squeeze none (enumeration.valueList ++ t) = enumeration.valueList ++ squeeze none t := by
  obtain ⟨values, modifiers⟩ := enumeration
  induction values with
  | nil => simp [valueList]
  | cons first rest ih =>
    have hf : literalMark ∉ first := h first (by simp)
    cases rest with
    | nil =>
      have hq := squeeze_literal hf t
      simpa [valueList] using hq
    | cons second rest =>
      have hr := ih fun value hv => h value (List.mem_cons_of_mem _ hv)
      rw [valueList_cons_cons, List.append_assoc, squeeze_literal hf, List.cons_append,
        squeeze_single (by decide) (by decide), hr, List.append_assoc, List.cons_append]

/-- The canonical form of a written enumeration is a written enumeration. -/
theorem canonical_definition {enumeration : Enumeration}
    (hv : ∀ value ∈ enumeration.values, literalMark ∉ value)
    (hm : enumeration.modifiers.NoTrailingBlank) :
    canonical enumeration.definition
      = (⟨enumeration.values, squeeze none enumeration.modifiers⟩ : Enumeration).definition := by
  have htrim : enumeration.definition.trim = enumeration.definition := by
    rw [definition_eq]
    refine Text.trim_eq_self ?_ ?_
    · intro c hc
      obtain rfl : 'E' = c := by simpa using hc
      decide
    · cases hl : enumeration.modifiers.getLast? with
      | none =>
        rw [List.getLast?_eq_none_iff] at hl
        simp [Text.NoTrailingBlank, hl, List.getLast?_append, List.getLast?_cons, isBlank]
      | some last =>
        intro c hc
        have hlast : c ∈ enumeration.modifiers.getLast? := by
          simpa [List.getLast?_append, List.getLast?_cons, hl] using hc
        exact hm c hlast
  have hlist : (⟨enumeration.values, squeeze none enumeration.modifiers⟩ : Enumeration).valueList
      = enumeration.valueList := rfl
  have hsqueeze : ∀ t : Text,
      squeeze none (['E', 'N', 'U', 'M'] ++ '(' :: t) = ['E', 'N', 'U', 'M'] ++ '(' :: squeeze none t := by
    intro t
    simp only [List.cons_append, List.nil_append]
    repeat rw [squeeze_single (by decide) (by decide)]
  rw [canonical, htrim, definition_eq, definition_eq, hlist, hsqueeze, squeeze_valueList hv,
    squeeze_single (by decide) (by decide)]

/-- The modifiers of a canonical definition do not end with a blank. -/
theorem noTrailingBlank_modifiers {definition : Text} {enumeration : Enumeration}
    (h : ofDefinition? (canonical definition) = some enumeration) :
    enumeration.modifiers.NoTrailingBlank := by
  obtain ⟨head, list, hd, -⟩ := ofDefinition?_eq_some.mp h
  intro c hc
  refine noTrailingBlank_canonical definition c ?_
  rw [hd]
  simp only [Option.mem_def] at hc
  simp [List.getLast?_append, List.getLast?_cons, hc]

/-- The modifiers of a canonical definition are squeezed, unless its closing bracket is quoted. -/
theorem squeeze_modifiers {definition : Text} {enumeration : Enumeration}
    (h : ofDefinition? (canonical definition) = some enumeration)
    (hq : ¬ InQuotes ')' (canonical definition)) :
    squeeze none enumeration.modifiers = enumeration.modifiers := by
  obtain ⟨head, list, hd, -, hc, -⟩ := ofDefinition?_eq_some.mp h
  have hsplit : canonical definition = (head ++ '(' :: list) ++ ')' :: enumeration.modifiers := by
    rw [hd]
    simp
  have hnot : ')' ∉ head ++ '(' :: list := by
    simp only [List.mem_append, not_or] at hc
    simp [hc.1.1, hc.1.2]
  have hkept := squeeze_canonical definition
  rw [hsplit] at hq hkept
  rw [squeeze_append_cons (by decide) (by decide) hq] at hkept
  have hafter := congrArg (Text.after ')') hkept
  rwa [Text.after_append fun hm => hnot (mem_of_mem_squeeze hm), Text.after_append hnot] at hafter

end Enumeration

namespace Change

/-- A column with a merged definition has all that was wanted of it, unless the closing bracket of
the new definition is quoted; and even then it can be compared. -/
theorem between_merged {old new : Column} {oldEnum newEnum merged : Enumeration}
    (he : isEnum (canonical new.definition) = true)
    (ho : ofDefinition? (canonical old.definition) = some oldEnum)
    (hn : ofDefinition? (canonical new.definition) = some newEnum)
    (hm : oldEnum.merge? newEnum = some merged) (table : Text) :
    between table ⟨new.name, merged.definition⟩ new = .ok .unchanged
    ∨ InQuotes ')' (canonical new.definition)
      ∧ ∃ revision, between table ⟨new.name, merged.definition⟩ new = .ok (.revised revision) := by
  have hnew := writable_of_ofDefinition? hn
  have hmerged := (writable_of_ofDefinition? ho).merge? hnew hm
  have hmods := modifiers_of_merge? hm
  have hcanon : canonical merged.definition
      = (⟨merged.values, squeeze none newEnum.modifiers⟩ : Enumeration).definition := by
    rw [canonical_definition hmerged.mark (hmods ▸ noTrailingBlank_modifiers hn), hmods]
  have hread : ofDefinition? (canonical merged.definition)
      = some ⟨merged.values, squeeze none newEnum.modifiers⟩ := by
    rw [hcanon]
    exact ofDefinition?_definition ⟨hmerged.mark, hmerged.values,
      fun h => hnew.modifiers.1 (mem_of_mem_squeeze h),
      fun h => hnew.modifiers.2 (mem_of_mem_squeeze h)⟩
  have hmergedIsEnum : isEnum (canonical merged.definition) = true := by
    rw [hcanon]
    exact isEnum_definition _
  have hc := comparison_between table ⟨new.name, merged.definition⟩ new
  generalize between table ⟨new.name, merged.definition⟩ new = result at hc ⊢
  cases hc with
  | equivalent => exact .inl rfl
  | contained => exact .inl rfl
  | plain differ noEnums => simp [hmergedIsEnum, he] at noEnums
  | oldMalformed differ oldIsEnum newIsEnum unread => simp [hread] at unread
  | newMalformed differ oldIsEnum newIsEnum oldRead unread => simp [hn] at unread
  | merged differ oldIsEnum newIsEnum oldRead newRead merge =>
    refine .inr ⟨?_, _, rfl⟩
    by_contra hq
    obtain rfl := Option.some.inj (hread.symm.trans oldRead)
    obtain rfl := Option.some.inj (hn.symm.trans newRead)
    have hnone : (⟨merged.values, squeeze none newEnum.modifiers⟩ : Enumeration).merge? newEnum
        = none := by
      rw [squeeze_modifiers hn hq, ← hmods]
      exact merge?_merged hm
    simp [hnone] at merge

end Change

end SchemaGrowth
