import SchemaGrowth.Proofs.Text.Enclosed

/-!
# Lists of literals

A literal can hold a literal mark: the database writes it twice. `literals?` reads a list of
literals in this way, one character after the other, and `literals?_join` says that it gives back
what was written. A list that is read by `enclosed` instead comes apart at every mark of a value
(`enclosed_of_literals?`).
-/

namespace SchemaGrowth.Text

/-! ## Marks written twice -/

/-- A text with each literal mark twice. -/
def doubled (t : Text) : Text :=
  t.flatMap fun c => if c = literalMark then [literalMark, literalMark] else [c]

theorem doubled_append (s t : Text) : (s ++ t).doubled = s.doubled ++ t.doubled := by
  simp [doubled]

theorem doubled_mark_cons (t : Text) :
    doubled (literalMark :: t) = literalMark :: literalMark :: t.doubled := by
  simp [doubled]

theorem doubled_cons_of_ne {c : Char} (h : c ≠ literalMark) (t : Text) :
    doubled (c :: t) = c :: t.doubled := by
  simp [doubled, h]

theorem doubled_of_not_mem {t : Text} (h : literalMark ∉ t) : t.doubled = t := by
  induction t with
  | nil => rfl
  | cons c t ih =>
    have hc : c ≠ literalMark := fun e => h (by simp [e])
    rw [doubled_cons_of_ne hc, ih fun hm => h (by simp [hm])]

/-- Between marks, a literal with its marks doubled is the pieces around its marks. -/
theorem enclosed_doubled (value t : Text) :
    enclosed literalMark (value.doubled.literal ++ t)
      = value.splitOn literalMark ++ enclosed literalMark t := by
  induction value using marked_induction literalMark with
  | free value h =>
    rw [doubled_of_not_mem h, literal, enclosed_quoted h, List.splitOn_eq_singleton h]
    rfl
  | cut s value h ih =>
    have hsplit : (s ++ literalMark :: value).doubled.literal ++ t
        = s.literal ++ (value.doubled.literal ++ t) := by
      rw [doubled_append, doubled_mark_cons, doubled_of_not_mem h]
      simp [literal, quoted]
    rw [hsplit, literal, enclosed_quoted h, ih, List.splitOn_append_cons_self_of_not_mem h,
      List.cons_append]

/-! ## Reading -/

/-- Where the reader of a list of literals stands. -/
inductive Spot where
  /-- In front of a literal. -/
  | front
  /-- In a literal, with what it holds so far. -/
  | inside (value : Text)
  /-- Behind a literal. If the mark that closed it is the last character, a second mark opens it
  again. -/
  | behind (value : Text) (atMark : Bool)

/-- Reads a list of literals from a spot on. Blanks may stand around a literal. -/
def literalsFrom : Spot → Text → Option (List Text)
  | .front, [] => none
  | .front, c :: t =>
    if c = literalMark then literalsFrom (.inside []) t
    else if c.isWhitespace then literalsFrom .front t
    else none
  | .inside _, [] => none
  | .inside value, c :: t =>
    if c = literalMark then literalsFrom (.behind value true) t
    else literalsFrom (.inside (value ++ [c])) t
  | .behind value _, [] => some [value]
  | .behind value atMark, c :: t =>
    if c = literalMark then
      if atMark then literalsFrom (.inside (value ++ [literalMark])) t else none
    else if c = ',' then (literalsFrom .front t).map (value :: ·)
    else if c.isWhitespace then literalsFrom (.behind value false) t
    else none

/-- The values of a list of literals, if the text is one. -/
def literals? (t : Text) : Option (List Text) :=
  literalsFrom .front t

/-- A list that can be read has a literal. -/
theorem literalsFrom_ne_nil {spot : Spot} {t : Text} {values : List Text}
    (h : literalsFrom spot t = some values) : values ≠ [] := by
  fun_induction literalsFrom spot t generalizing values with
  | case11 value atMark t hc ih =>
    obtain ⟨rest, -, rfl⟩ := Option.map_eq_some_iff.mp h
    exact List.cons_ne_nil value rest
  | _ => grind

theorem literals?_ne_nil {t : Text} {values : List Text} (h : t.literals? = some values) :
    values ≠ [] :=
  literalsFrom_ne_nil h

/-! ## Reading what was written -/

theorem literalsFrom_inside (value rest t : Text) :
    literalsFrom (.inside value) (rest.doubled ++ literalMark :: t)
      = literalsFrom (.behind (value ++ rest) true) t := by
  induction rest generalizing value with
  | nil => simp [doubled, literalsFrom]
  | cons c rest ih =>
    by_cases hc : c = literalMark
    · rw [hc, doubled_mark_cons, List.cons_append, List.cons_append, literalsFrom, if_pos rfl,
        literalsFrom, if_pos rfl, if_pos rfl, ih, List.append_assoc, List.singleton_append]
    · rw [doubled_cons_of_ne hc, List.cons_append, literalsFrom, if_neg hc, ih, List.append_assoc,
        List.singleton_append]

/-- A literal is read from its first mark to its last. -/
theorem literalsFrom_literal (value t : Text) :
    literalsFrom .front (value.doubled.literal ++ t) = literalsFrom (.behind value true) t := by
  have hsplit : value.doubled.literal ++ t
      = literalMark :: (value.doubled ++ literalMark :: t) := by
    simp [literal, quoted]
  rw [hsplit, literalsFrom, if_pos rfl, literalsFrom_inside, List.nil_append]

/-- Literals with a comma between any two are read back. -/
theorem literals?_join {values : List Text} (h : values ≠ []) :
    literals? ([','].intercalate (values.map fun value => value.doubled.literal)) = some values := by
  induction values with
  | nil => exact absurd rfl h
  | cons first rest ih =>
    cases rest with
    | nil =>
      have hfirst := literalsFrom_literal first []
      rw [List.append_nil] at hfirst
      simpa [literals?, literalsFrom] using hfirst
    | cons second rest =>
      have hrest := ih (by simp)
      have hcomma : (',' : Char) ≠ literalMark := by decide
      rw [literals?, List.map_cons] at hrest ⊢
      rw [List.map_cons, List.intercalate_cons_cons, List.append_assoc, literalsFrom_literal,
        List.singleton_append, literalsFrom, if_neg hcomma, if_pos rfl, hrest, Option.map_some]

/-! ## Reading between marks -/

/-- The part of a literal that is behind a spot, as it is written. -/
def Spot.written : Spot → Text
  | front => []
  | inside value => literalMark :: value.doubled
  | behind value _ => value.doubled.literal

/-- A reader that takes a list from mark to mark splits every value at its marks. The spot carries
the induction: the text behind it is the part of a literal that has been read already. -/
theorem enclosed_of_literalsFrom {spot : Spot} {t : Text} {values : List Text}
    (h : literalsFrom spot t = some values) :
    enclosed literalMark (spot.written ++ t) = values.flatMap (·.splitOn literalMark) := by
  induction t generalizing spot values with
  | nil =>
    cases spot with
    | front => simp [literalsFrom] at h
    | inside value => simp [literalsFrom] at h
    | behind value atMark =>
      obtain rfl : [value] = values := by simpa [literalsFrom] using h
      simpa [Spot.written] using enclosed_doubled value []
  | cons c t ih =>
    cases spot with
    | front =>
      rw [literalsFrom] at h
      split at h
      · rename_i hc
        simpa [Spot.written, doubled, hc] using ih h
      · rename_i hc
        split at h
        · simpa [Spot.written, enclosed_cons_of_ne hc] using ih h
        · cases h
    | inside value =>
      rw [literalsFrom] at h
      split at h
      · rename_i hc
        simpa [Spot.written, literal, quoted, hc] using ih h
      · rename_i hc
        have hstep := ih h
        rw [Spot.written, doubled_append, doubled_cons_of_ne hc] at hstep
        simpa [Spot.written, doubled] using hstep
    | behind value atMark =>
      rw [literalsFrom] at h
      split at h
      · rename_i hc
        split at h
        · have hstep := ih h
          rw [Spot.written, doubled_append, doubled_mark_cons] at hstep
          simpa [Spot.written, doubled, literal, quoted, hc] using hstep
        · cases h
      · rename_i hc
        rw [Spot.written, enclosed_doubled, enclosed_cons_of_ne hc]
        split at h
        · obtain ⟨rest, hrest, rfl⟩ := Option.map_eq_some_iff.mp h
          rw [List.flatMap_cons, ← ih hrest, Spot.written, List.nil_append]
        · split at h
          · have hstep := ih h
            rwa [Spot.written, enclosed_doubled] at hstep
          · cases h

/-- Between marks, a list of literals is the pieces of its values. -/
theorem enclosed_of_literals? {t : Text} {values : List Text} (h : t.literals? = some values) :
    enclosed literalMark t = values.flatMap (·.splitOn literalMark) := by
  have hfront := enclosed_of_literalsFrom h
  rwa [Spot.written, List.nil_append] at hfront

end SchemaGrowth.Text
