import SchemaGrowth.Proofs.Text.Lines

/-!
# Lines and their ends

A text is its lines, each with its end (`relined_lines`). A line can be left out with its end, and
the others are read as before (`lines_withoutLine`). Other lines can be written between the same
ends. They are read back as they were written, but for a carriage return that comes to stand before
a line feed (`lines_relined_append`).
-/

namespace SchemaGrowth.Text

/-- The end of a line that a line feed closes, given all that stands before the line feed. -/
def feedEnd (piece : Text) : Text :=
  if piece.getLast? = some '\r' then ['\r', '\n'] else ['\n']

/-- The ends of the lines among the pieces between line feeds. -/
def endsOfPieces : List Text → List Text
  | [] => []
  | [last] => if last = [] then [] else [[]]
  | piece :: rest => piece.feedEnd :: endsOfPieces rest

/-- The ends of the lines of a text: a line feed, a carriage return with a line feed, or nothing for
a last line that the end of the text closes. -/
def lineEnds (t : Text) : List Text :=
  endsOfPieces (t.splitOn '\n')

/-- A text with other lines between its line ends. -/
def relined (t : Text) (lines : List Text) : Text :=
  (List.zipWith (· ++ ·) lines t.lineEnds).flatten

/-- A text is a last line, or a line with its line feed and another text. -/
theorem lines_induction {motive : Text → Prop} (last : ∀ t, '\n' ∉ t → motive t)
    (line : ∀ l t, '\n' ∉ l → motive t → motive (l ++ '\n' :: t)) (t : Text) : motive t :=
  marked_induction '\n' last line t

/-! ## Ends -/

theorem lineEnds_append {l : Text} (h : '\n' ∉ l) (t : Text) :
    lineEnds (l ++ '\n' :: t) = l.feedEnd :: lineEnds t := by
  rw [lineEnds, List.splitOn_append_cons_self_of_not_mem h]
  cases hs : t.splitOn '\n' with
  | nil => exact absurd hs (List.splitOn_ne_nil _ _)
  | cons piece rest => simp [endsOfPieces, lineEnds, hs]

theorem lineEnds_of_not_mem {t : Text} (h : '\n' ∉ t) :
    lineEnds t = if t = [] then [] else [[]] := by
  rw [lineEnds, List.splitOn_eq_singleton h]
  rfl

theorem relined_append {l : Text} (h : '\n' ∉ l) (t line : Text) (rest : List Text) :
    relined (l ++ '\n' :: t) (line :: rest) = line ++ (l.feedEnd ++ t.relined rest) := by
  simp [relined, lineEnds_append h]

/-- A text that is one line is replaced whole. -/
theorem relined_singleton {t : Text} (h : '\n' ∉ t) (hne : t ≠ []) (line : Text) :
    relined t [line] = line := by
  simp [relined, lineEnds_of_not_mem h, hne]

theorem relined_nil (t : Text) : relined t [] = [] := rfl

/-- What is cut off a line is in its end. -/
theorem dropLastIf_append_feedEnd (l : Text) : l.dropLastIf '\r' ++ l.feedEnd = l ++ ['\n'] := by
  unfold dropLastIf feedEnd
  split
  · rename_i hl
    obtain ⟨s, rfl⟩ := List.getLast?_eq_some_iff.mp hl
    simp
  · rfl

/-- A text is its lines with their ends. -/
theorem relined_lines (t : Text) : t.relined t.lines = t := by
  induction t using lines_induction with
  | last t h =>
    rw [lines_of_not_mem h]
    split
    · rename_i hnil
      rw [relined_nil, hnil]
    · rename_i hne
      exact relined_singleton h hne t
  | line l t h ih =>
    rw [lines_append h, relined_append h, ih, ← List.append_assoc, dropLastIf_append_feedEnd]
    simp

/-! ## Closed lines -/

/-- Whether every line of a text is closed by a line feed. -/
def Closed (t : Text) : Prop :=
  t = [] ∨ t.getLast? = some '\n'

theorem Closed.of_append {l t : Text} (h : Closed (l ++ '\n' :: t)) : Closed t := by
  by_cases ht : t = []
  · exact .inl ht
  · refine .inr ?_
    have hlast : (l ++ '\n' :: t).getLast? = some '\n' := h.resolve_left (by simp)
    rw [List.getLast?_append, List.getLast?_cons, Option.some_or,
      List.getLast?_eq_some_getLast ht, Option.getD_some] at hlast
    rw [List.getLast?_eq_some_getLast ht, hlast]

/-- A text behind closed lines has its own lines. -/
theorem lines_append_of_closed {t : Text} (h : t.Closed) (s : Text) :
    (t ++ s).lines = t.lines ++ s.lines := by
  induction t using lines_induction with
  | last t ht =>
    have hnil : t = [] := by
      refine h.resolve_right ?_
      intro hlast
      exact ht (List.mem_of_getLast? hlast)
    rw [hnil, List.nil_append, lines_nil, List.nil_append]
  | line l t hl ih =>
    rw [List.append_assoc, List.cons_append, lines_append hl, lines_append hl, ih h.of_append,
      List.cons_append]

/-! ## Lines left out -/

/-- A text without the line at a place, and without the end of that line. -/
def withoutLine (t : Text) (i : Nat) : Text :=
  ((List.zipWith (· ++ ·) t.lines t.lineEnds).eraseIdx i).flatten

theorem withoutLine_zero_append {l : Text} (h : '\n' ∉ l) (t : Text) :
    withoutLine (l ++ '\n' :: t) 0 = t := by
  rw [withoutLine, lines_append h, lineEnds_append h, List.zipWith_cons_cons, List.eraseIdx_cons_zero]
  exact relined_lines t

theorem withoutLine_succ_append {l : Text} (h : '\n' ∉ l) (t : Text) (i : Nat) :
    withoutLine (l ++ '\n' :: t) (i + 1) = l ++ '\n' :: t.withoutLine i := by
  rw [withoutLine, lines_append h, lineEnds_append h, List.zipWith_cons_cons,
    List.eraseIdx_cons_succ, List.flatten_cons, dropLastIf_append_feedEnd, ← withoutLine]
  simp

/-- The other lines are read as before. -/
theorem lines_withoutLine (t : Text) (i : Nat) : (t.withoutLine i).lines = t.lines.eraseIdx i := by
  induction t using lines_induction generalizing i with
  | last t h =>
    by_cases hnil : t = []
    · simp [withoutLine, hnil]
    · have hends : t.lineEnds = [[]] := by rw [lineEnds_of_not_mem h, if_neg hnil]
      have hlines : t.lines = [t] := by rw [lines_of_not_mem h, if_neg hnil]
      cases i with
      | zero => simp [withoutLine, hlines, hends]
      | succ i => simp [withoutLine, hlines, hends]
  | line l t h ih =>
    cases i with
    | zero => rw [withoutLine_zero_append h, lines_append h, List.eraseIdx_cons_zero]
    | succ i =>
      rw [withoutLine_succ_append h, lines_append h, lines_append h, ih, List.eraseIdx_cons_succ]

/-! ## Other lines -/

/-- A line that takes the place of another is read back, but for a carriage return at its end. -/
theorem lines_relined_append {l line : Text} (hl : '\n' ∉ l) (h : '\n' ∉ line) (t : Text)
    (rest : List Text) : ∃ kept, (kept = line ∨ kept = line.dropLastIf '\r')
      ∧ (relined (l ++ '\n' :: t) (line :: rest)).lines = kept :: (t.relined rest).lines := by
  rw [relined_append hl]
  unfold feedEnd
  split
  · refine ⟨line, .inl rfl, ?_⟩
    have hsplit : line ++ (['\r', '\n'] ++ t.relined rest)
        = (line ++ ['\r']) ++ '\n' :: t.relined rest := by simp
    rw [hsplit, lines_append (by simp [h]), dropLastIf_concat]
  · exact ⟨_, .inr rfl, lines_append h _⟩

/-- A line that keeps its place is read back as it is. -/
theorem lines_relined_kept {l : Text} (h : '\n' ∉ l) (t : Text) (rest : List Text) :
    (relined (l ++ '\n' :: t) (l.dropLastIf '\r' :: rest)).lines
      = l.dropLastIf '\r' :: (t.relined rest).lines := by
  rw [relined_append h, ← List.append_assoc, dropLastIf_append_feedEnd, List.append_assoc]
  exact lines_append h _

end SchemaGrowth.Text
