import SchemaGrowth.Text.Blank

/-!
# Trimmed texts

A trimmed text has a blank at neither end, and a text without blanks at its ends is trimmed already
(`trim_eq_self`). A blank at an end makes no difference.
-/

namespace SchemaGrowth.Text

/-- A text that starts with a character that is not blank, if it has any. -/
def NoLeadingBlank (t : Text) : Prop :=
  ∀ c ∈ t.head?, isBlank c = false

/-- A text that ends with a character that is not blank, if it has any. -/
def NoTrailingBlank (t : Text) : Prop :=
  ∀ c ∈ t.getLast?, isBlank c = false

theorem NoLeadingBlank.of_isPrefix {s t : Text} (h : t.NoLeadingBlank) (hs : s <+: t) :
    s.NoLeadingBlank := by
  obtain ⟨rest, rfl⟩ := hs
  intro c hc
  refine h c ?_
  simp only [Option.mem_def] at hc
  simp [List.head?_append, hc]

theorem noLeadingBlank_trimStart (t : Text) : NoLeadingBlank t.trimStart := by
  induction t with
  | nil => simp [NoLeadingBlank]
  | cons c t ih =>
    rw [trimStart_cons]
    split
    · exact ih
    · rename_i hc
      simpa [NoLeadingBlank] using hc

theorem noTrailingBlank_trimEnd (t : Text) : NoTrailingBlank t.trimEnd := by
  have h := noLeadingBlank_trimStart t.reverse
  simpa [NoTrailingBlank, NoLeadingBlank, trimEnd, trimStart, List.getLast?_reverse] using h

theorem noTrailingBlank_trim (t : Text) : NoTrailingBlank t.trim :=
  noTrailingBlank_trimEnd t.trimStart

theorem prefix_trimEnd (t : Text) : t.trimEnd <+: t := by
  have h : t.reverse.dropWhile isBlank <:+ t.reverse := List.dropWhile_suffix _
  rw [← List.reverse_prefix, List.reverse_reverse] at h
  exact h

theorem noLeadingBlank_trim (t : Text) : NoLeadingBlank t.trim := by
  exact (noLeadingBlank_trimStart t).of_isPrefix (prefix_trimEnd t.trimStart)

theorem trim_eq_self {t : Text} (hs : NoLeadingBlank t) (he : NoTrailingBlank t) : t.trim = t := by
  rw [trim, trimStart_eq_self hs, trimEnd_eq_self he]

/-- A trimmed text stands in its text. -/
theorem infix_trim (t : Text) : t.trim <:+: t :=
  (prefix_trimEnd t.trimStart).isInfix.trans (List.dropWhile_suffix _).isInfix

/-! ## Texts in parts -/

theorem trimStart_append {t : Text} (h : t.NoLeadingBlank) (s : Text) :
    trimStart (s ++ t) = trimStart s ++ t := by
  have ht : t.dropWhile isBlank = t := trimStart_eq_self h
  rw [trimStart, trimStart, List.dropWhile_append]
  split
  · rename_i hs
    rw [List.isEmpty_iff.mp hs, ht, List.nil_append]
  · rfl

theorem trimEnd_append {s : Text} (h : s.NoTrailingBlank) (t : Text) :
    trimEnd (s ++ t) = s ++ trimEnd t := by
  have hs : NoLeadingBlank s.reverse := by
    simpa [NoLeadingBlank, NoTrailingBlank, List.head?_reverse] using h
  have hreverse : trimStart (t.reverse ++ s.reverse) = trimStart t.reverse ++ s.reverse :=
    trimStart_append hs _
  rw [trimStart] at hreverse
  rw [trimEnd, List.reverse_append, hreverse, List.reverse_append, List.reverse_reverse, trimEnd,
    trimStart]

/-- What stands between two characters that are not blank is left alone. -/
theorem trim_append_between {c d : Char} (hc : isBlank c = false) (hd : isBlank d = false)
    (front between back : Text) :
    trim (front ++ c :: (between ++ d :: back))
      = trimStart front ++ c :: (between ++ d :: trimEnd back) := by
  have hfront : NoLeadingBlank (c :: (between ++ d :: back)) := by
    simpa [NoLeadingBlank] using hc
  have hback : NoTrailingBlank ((trimStart front ++ c :: between) ++ [d]) := by
    rw [NoTrailingBlank, List.getLast?_concat]
    simpa using hd
  have htrim := trimEnd_append hback back
  rw [trim, trimStart_append hfront]
  simpa using htrim

/-- A word without blanks begins a text exactly if it begins the text without trailing blanks. -/
theorem prefix_trimEnd_iff {word t : Text} (h : word.NoTrailingBlank) :
    word <+: t.trimEnd ↔ word <+: t := by
  constructor
  · exact fun hp => hp.trans (prefix_trimEnd t)
  · rintro ⟨rest, rfl⟩
    rw [trimEnd_append h]
    exact List.prefix_append _ _

/-- Trimming takes blanks away, and nothing else. -/
theorem filter_trim {p : Char → Bool} (h : ∀ c, isBlank c = true → p c = false) (t : Text) :
    t.trim.filter p = t.filter p := by
  have hstart : ∀ t : Text, t.trimStart.filter p = t.filter p := by
    intro t
    induction t with
    | nil => rfl
    | cons c t ih =>
      rw [trimStart_cons]
      split
      · rename_i hc
        rw [ih, List.filter_cons_of_neg (by simp [h c hc])]
      · rfl
  rw [trim, trimEnd, List.filter_reverse, ← trimStart, hstart, List.filter_reverse,
    List.reverse_reverse, hstart]

/-! ## Blanks at the ends -/

theorem trim_cons_of_isBlank {c : Char} (h : isBlank c = true) (t : Text) :
    trim (c :: t) = t.trim := by
  rw [trim, trimStart_cons, if_pos h, trim]

theorem trimEnd_concat_of_isBlank {c : Char} (h : isBlank c = true) (t : Text) :
    trimEnd (t ++ [c]) = t.trimEnd := by
  simp [trimEnd, h]

theorem trim_concat_of_isBlank {c : Char} (h : isBlank c = true) (t : Text) :
    trim (t ++ [c]) = t.trim := by
  induction t with
  | nil => rw [List.nil_append, trim_cons_of_isBlank h]
  | cons d t ih =>
    by_cases hd : isBlank d = true
    · rw [List.cons_append, trim_cons_of_isBlank hd, trim_cons_of_isBlank hd, ih]
    · rw [List.cons_append, trim, trimStart_cons, if_neg hd, trim, trimStart_cons, if_neg hd,
        ← List.cons_append, trimEnd_concat_of_isBlank h]

/-- A blank that is cut off the end makes no difference. -/
theorem trim_dropLastIf {q : Char} (h : isBlank q = true) (t : Text) :
    (t.dropLastIf q).trim = t.trim := by
  unfold dropLastIf
  split
  · rename_i hl
    obtain ⟨s, rfl⟩ := List.getLast?_eq_some_iff.mp hl
    rw [List.dropLast_concat, trim_concat_of_isBlank h]
  · rfl

end SchemaGrowth.Text
