import SchemaGrowth.Text.Blank
import SchemaGrowth.Text.Lowercase
import SchemaGrowth.Text.Quoted

/-!
# The canonical form of a definition

Dumps disagree on the spaces between the words of a definition, so definitions are compared in a
form without blanks around them and without two spaces in a row. What is quoted is a literal or an
identifier and stays exactly as written. Two definitions are equivalent if these forms differ in
case at most.
-/

namespace SchemaGrowth.Definition

/-- Whether a character opens a quoted part of a definition. -/
def isMark (c : Char) : Bool :=
  c == literalMark || c == identifierMark

/-- A text with every run of spaces outside quotes squeezed to its last space. The mark of the
quoted part in which the text starts is given, if it starts in one. -/
def squeeze : Option Char → Text → Text
  | _, [] => []
  | some mark, c :: rest => c :: squeeze (if c = mark then none else some mark) rest
  | none, c :: rest =>
    if isMark c then c :: squeeze (some c) rest
    else if c = ' ' ∧ rest.head? = some ' ' then squeeze none rest
    else c :: squeeze none rest

/-- The canonical form of a definition. -/
def canonical (definition : Text) : Text :=
  squeeze none definition.trim

/-- Whether two definitions say the same, spaces outside quotes and case aside. -/
def equivalent (old new : Text) : Bool :=
  (canonical old).lowercase == (canonical new).lowercase

@[simp] theorem squeeze_nil (mark : Option Char) : squeeze mark [] = [] := by
  cases mark <;> rfl

@[simp] theorem canonical_nil : canonical [] = [] := rfl

theorem equivalent_iff {old new : Text} :
    equivalent old new = true ↔ (canonical old).lowercase = (canonical new).lowercase := by
  simp [equivalent]

theorem equivalent_refl (definition : Text) : equivalent definition definition = true := by
  simp [equivalent]

/-- A quoted part is kept as it is, up to the mark that closes it. -/
theorem squeeze_quoted {mark : Char} {s : Text} (h : mark ∉ s) (rest : Text) :
    squeeze (some mark) (s ++ mark :: rest) = s ++ mark :: squeeze none rest := by
  induction s with
  | nil => simp [squeeze]
  | cons c s ih =>
    have hc : c ≠ mark := fun e => h (by simp [e])
    have hs : mark ∉ s := fun m => h (by simp [m])
    simp [squeeze, hc, ih hs]

/-- A quoted part that nothing closes is kept as it is. -/
theorem squeeze_open {mark : Char} {s : Text} (h : mark ∉ s) : squeeze (some mark) s = s := by
  induction s with
  | nil => rfl
  | cons c s ih =>
    have hc : c ≠ mark := fun e => h (by simp [e])
    have hs : mark ∉ s := fun m => h (by simp [m])
    simp [squeeze, hc, ih hs]

end SchemaGrowth.Definition
