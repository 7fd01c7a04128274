/-!
# Text

A text is the list of its characters. This module cuts texts at characters and at words:
`before` and `after` a first character, `enclosed` between pairs of marks, `beforeWord` and
`afterWord?` around a first word. A cut loses nothing: `before_append_after` puts a text together
again, and `hasWord_iff` says that a word is found exactly where it is an infix.
-/

namespace SchemaGrowth

/-- A text, character by character. -/
abbrev Text := List Char

/-- Texts are compared character by character. -/
instance : LawfulBEq Text := inferInstance

namespace Text

/-! ## Cuts at a character -/

/-- What stands before the first `q`: the whole text if there is none. -/
def before (q : Char) (t : Text) : Text :=
  t.takeWhile (· ≠ q)

/-- What stands after the first `q`: nothing if there is none. -/
def after (q : Char) (t : Text) : Text :=
  (t.dropWhile (· ≠ q)).tail

@[simp] theorem before_nil (q : Char) : before q [] = [] := rfl

@[simp] theorem after_nil (q : Char) : after q [] = [] := rfl

theorem before_cons (q c : Char) (t : Text) :
    before q (c :: t) = if c = q then [] else c :: before q t := by
  by_cases h : c = q <;> simp [before, h]

theorem after_cons (q c : Char) (t : Text) :
    after q (c :: t) = if c = q then t else after q t := by
  by_cases h : c = q <;> simp [after, h]

theorem not_mem_before (q : Char) (t : Text) : q ∉ before q t := by
  induction t with
  | nil => simp
  | cons c t ih =>
    rw [before_cons]
    split
    · simp
    · rename_i hc
      simp [ih, Ne.symm hc]

theorem before_of_not_mem {q : Char} {t : Text} (h : q ∉ t) : before q t = t := by
  induction t with
  | nil => rfl
  | cons c t ih =>
    have hc : c ≠ q := fun e => h (by simp [e])
    rw [before_cons, if_neg hc, ih (fun m => h (by simp [m]))]

theorem after_of_not_mem {q : Char} {t : Text} (h : q ∉ t) : after q t = [] := by
  induction t with
  | nil => rfl
  | cons c t ih =>
    have hc : c ≠ q := fun e => h (by simp [e])
    rw [after_cons, if_neg hc, ih (fun m => h (by simp [m]))]

theorem before_append {q : Char} {s : Text} (h : q ∉ s) (t : Text) :
    before q (s ++ q :: t) = s := by
  induction s with
  | nil => simp [before_cons]
  | cons c s ih =>
    have hc : c ≠ q := fun e => h (by simp [e])
    rw [List.cons_append, before_cons, if_neg hc, ih (fun m => h (by simp [m]))]

theorem after_append {q : Char} {s : Text} (h : q ∉ s) (t : Text) :
    after q (s ++ q :: t) = t := by
  induction s with
  | nil => simp [after_cons]
  | cons c s ih =>
    have hc : c ≠ q := fun e => h (by simp [e])
    rw [List.cons_append, after_cons, if_neg hc, ih (fun m => h (by simp [m]))]

/-- A text that holds `q` is its part before the first `q`, the `q`, and the part after it. -/
theorem before_append_after {q : Char} {t : Text} (h : q ∈ t) :
    before q t ++ q :: after q t = t := by
  induction t with
  | nil => cases h
  | cons c t ih =>
    by_cases hc : c = q
    · simp [before_cons, after_cons, hc]
    · have ht : q ∈ t := by
        rcases List.mem_cons.mp h with e | e
        · exact absurd e.symm hc
        · exact e
      simp [before_cons, after_cons, hc, ih ht]

/-- The text without one last `q`, if it ends with `q`. -/
def dropLastIf (t : Text) (q : Char) : Text :=
  if t.getLast? = some q then t.dropLast else t

/-! ## Texts between marks -/

/-- The second, the fourth, … of a list. -/
def everySecond {α : Type} : List α → List α
  | _ :: b :: rest => b :: everySecond rest
  | _ => []

/-- The texts between an opening `mark` and the next one, in order. A mark that is never closed
opens a text that runs to the end. -/
def enclosed (mark : Char) (t : Text) : List Text :=
  everySecond (t.splitOn mark)

/-! ## Words -/

/-- Whether `word` stands somewhere in the text. -/
def hasWord : Text → Text → Bool
  | [], word => word.isEmpty
  | c :: t, word => word.isPrefixOf (c :: t) || hasWord t word

/-- A word is found exactly where it is an infix. -/
theorem hasWord_iff {t word : Text} : hasWord t word = true ↔ word <:+: t := by
  induction t with
  | nil => simp [hasWord]
  | cons c t ih => simp [hasWord, ih, List.infix_cons_iff]

/-- What stands before the first occurrence of `word`: the whole text if there is none. -/
def beforeWord : Text → Text → Text
  | [], _ => []
  | c :: t, word => if word.isPrefixOf (c :: t) then [] else c :: beforeWord t word

/-- What stands after the first occurrence of a nonempty `word`, if there is one. -/
def afterWord? : Text → Text → Option Text
  | [], _ => none
  | c :: t, word =>
    if word.isPrefixOf (c :: t) then some ((c :: t).drop word.length) else afterWord? t word

end Text

end SchemaGrowth
