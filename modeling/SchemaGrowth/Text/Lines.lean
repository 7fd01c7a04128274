import SchemaGrowth.Text.Basic

/-!
# Lines

A line ends with a line feed, or with a carriage return directly before a line feed. The end of the
text closes a last line only if there is something on it. A carriage return anywhere else, and every
other separator, is an ordinary character of its line.
-/

namespace SchemaGrowth.Text

/-- The lines among the pieces between line feeds: a piece that a line feed ends loses one carriage
return, and the last piece is no line if it is empty. -/
def linesOfPieces : List Text → List Text
  | [] => []
  | [last] => if last = [] then [] else [last]
  | piece :: rest => piece.dropLastIf '\r' :: linesOfPieces rest

/-- The lines of a text, without their ends. -/
def lines (t : Text) : List Text :=
  linesOfPieces (t.splitOn '\n')

@[simp] theorem lines_nil : lines [] = [] := rfl

/-- A text up to its first line feed is its first line. -/
theorem lines_append {l : Text} (h : '\n' ∉ l) (t : Text) :
    lines (l ++ '\n' :: t) = l.dropLastIf '\r' :: lines t := by
  rw [lines, List.splitOn_append_cons_self_of_not_mem h]
  cases hs : t.splitOn '\n' with
  | nil => exact absurd hs (List.splitOn_ne_nil _ _)
  | cons piece rest => simp [linesOfPieces, lines, hs]

/-- A text without a line feed is one line, unless it is empty. -/
theorem lines_of_not_mem {t : Text} (h : '\n' ∉ t) : lines t = if t = [] then [] else [t] := by
  rw [lines, List.splitOn_eq_singleton h]
  rfl

end SchemaGrowth.Text
