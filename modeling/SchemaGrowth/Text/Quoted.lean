import SchemaGrowth.Text.Basic

/-!
# Quoted text

Two characters quote in a dump: one stands around literals, the other around identifiers. Neither
has an escape, so a quoted text ends at the next mark of its kind, or with the text.
-/

namespace SchemaGrowth

/-- The mark around a literal. -/
def literalMark : Char := '\x27'

/-- The mark around an identifier. -/
def identifierMark : Char := '\x60'

namespace Text

/-- A text between two marks. -/
def quoted (mark : Char) (t : Text) : Text :=
  mark :: (t ++ [mark])

/-- A text as a literal. -/
def literal (t : Text) : Text :=
  quoted literalMark t

/-- A text as an identifier. -/
def identifier (t : Text) : Text :=
  quoted identifierMark t

/-- The first identifier of a text. One whose second mark is missing runs to the end. -/
def identifier? (t : Text) : Option Text :=
  if identifierMark ∈ t then some ((t.after identifierMark).before identifierMark) else none

/-- What a text holds after its first identifier. -/
def afterIdentifier (t : Text) : Text :=
  (t.after identifierMark).after identifierMark

/-- A text with an identifier in it is cut at two marks. -/
theorem append_identifier_append (s name t : Text) :
    s ++ name.identifier ++ t = s ++ identifierMark :: (name ++ identifierMark :: t) := by
  simp [identifier, quoted]

/-- An identifier is read back if it holds no mark. -/
theorem identifier?_append {s name : Text} (hs : identifierMark ∉ s) (hn : identifierMark ∉ name)
    (t : Text) : identifier? (s ++ name.identifier ++ t) = some name := by
  rw [append_identifier_append, identifier?, if_pos (by simp), after_append hs, before_append hn]

theorem identifier?_eq_none {t : Text} : identifier? t = none ↔ identifierMark ∉ t := by
  simp [identifier?]

/-- The first identifier of a text holds no mark. -/
theorem not_mem_of_identifier? {t name : Text} (h : identifier? t = some name) :
    identifierMark ∉ name := by
  unfold identifier? at h
  split at h
  · obtain rfl := Option.some.inj h
    exact not_mem_before _ _
  · cases h

end Text

end SchemaGrowth
