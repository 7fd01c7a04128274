import SchemaGrowth.Text.Blank
import SchemaGrowth.Text.Lowercase
import SchemaGrowth.Text.Quoted

/-!
# Enumerations

An `ENUM` definition is a list of values and the modifiers behind it. To take a value away from a
column can lose the rows that hold it, so two enumerations are merged into one that has the values
of both: those of the old one in their order, then the new ones.
-/

namespace SchemaGrowth

/-- An enumeration: its values without their quotes, and all that follows the list. -/
structure Enumeration where
  values : List Text
  modifiers : Text
  deriving DecidableEq

namespace Enumeration

/-- Whether a definition is one of an enumeration: it starts with the word `enum` in any case. -/
def isEnum (definition : Text) : Bool :=
  (definition.trimStart.take 4).map Char.toLower == "enum".toList

/-- Reads a definition with one opening bracket and, behind it, one closing bracket. The values are
the literals between the brackets. -/
def ofDefinition? (definition : Text) : Option Enumeration :=
  if definition.count '(' = 1 ∧ definition.count ')' = 1 ∧ ')' ∈ definition.after '(' then
    let behind := definition.after '('
    some ⟨(behind.before ')').enclosed literalMark, behind.after ')'⟩
  else none

/-- The values as literals, a comma between any two. -/
def valueList (enumeration : Enumeration) : Text :=
  [','].intercalate (enumeration.values.map Text.literal)

/-- The definition of an enumeration. -/
def definition (enumeration : Enumeration) : Text :=
  "ENUM(".toList ++ enumeration.valueList ++ [')'] ++ enumeration.modifiers

/-- Whether the modifiers of two enumerations are the same, blanks around them and case aside. -/
def sameModifiers (old new : Enumeration) : Bool :=
  old.modifiers.trim.lowercase == new.modifiers.trim.lowercase

/-- What becomes of an enumeration for which a new one is wanted: nothing if the new one adds no
value and has the same modifiers, and else the values of both, each once, with the new modifiers. -/
def merge? (old new : Enumeration) : Option Enumeration :=
  if new.values.all (· ∈ old.values) && old.sameModifiers new then none
  else some ⟨(old.values ++ new.values).eraseDups, new.modifiers⟩

/-- Merging loses no value. -/
theorem mem_values_of_merge? {old new merged : Enumeration} (h : old.merge? new = some merged)
    {value : Text} : value ∈ merged.values ↔ value ∈ old.values ∨ value ∈ new.values := by
  unfold merge? at h
  split at h
  · cases h
  · obtain rfl := Option.some.inj h
    simp [List.mem_eraseDups]

theorem modifiers_of_merge? {old new merged : Enumeration} (h : old.merge? new = some merged) :
    merged.modifiers = new.modifiers := by
  unfold merge? at h
  split at h
  · cases h
  · obtain rfl := Option.some.inj h
    rfl

end Enumeration

end SchemaGrowth
