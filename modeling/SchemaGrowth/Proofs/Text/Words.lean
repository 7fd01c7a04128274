import SchemaGrowth.Proofs.Text.Lines

/-!
# Texts around a word

A text is cut at the first occurrence of a word. Where the word does not occur there is nothing to
cut (`afterWord?_eq_none`, `beforeWord_eq_self`), and where it does, the cut is the first one behind
a character that the word does not hold (`afterWord?_append_cons`).
-/

namespace SchemaGrowth.Text

theorem afterWord?_eq_none {t word : Text} (h : t.hasWord word = false) :
    t.afterWord? word = none := by
  induction t with
  | nil => rfl
  | cons c t ih =>
    obtain ⟨hhere, hlater⟩ := Bool.or_eq_false_iff.mp h
    rw [afterWord?, hhere, if_neg Bool.false_ne_true, ih hlater]

theorem beforeWord_eq_self {t word : Text} (h : t.hasWord word = false) :
    t.beforeWord word = t := by
  induction t with
  | nil => rfl
  | cons c t ih =>
    obtain ⟨hhere, hlater⟩ := Bool.or_eq_false_iff.mp h
    rw [beforeWord, hhere, if_neg Bool.false_ne_true, ih hlater]

/-- Behind the word at the start of a text comes the rest. -/
theorem afterWord?_append {word : Text} (hne : word ≠ []) (t : Text) :
    afterWord? (word ++ t) word = some t := by
  obtain ⟨c, more, rfl⟩ := List.exists_cons_of_ne_nil hne
  have hprefix : (c :: more).isPrefixOf (c :: (more ++ t)) = true :=
    List.isPrefixOf_iff_prefix.mpr ⟨t, rfl⟩
  rw [List.cons_append, afterWord?, hprefix, if_pos rfl, ← List.cons_append,
    List.drop_left' rfl]

/-- A word that is not found before a character that it does not hold is looked for behind it. -/
theorem afterWord?_append_cons {c : Char} {s word : Text} (h : c ∉ word) (hne : word ≠ [])
    (hs : s.hasWord word = false) (t : Text) :
    afterWord? (s ++ c :: t) word = afterWord? t word := by
  have hstart : ∀ front : Text, word.isPrefixOf front = false →
      word.isPrefixOf (front ++ c :: t) = false := by
    intro front hfront
    rw [Bool.eq_false_iff] at hfront ⊢
    intro hprefix
    refine hfront (List.isPrefixOf_iff_prefix.mpr ?_)
    exact (prefix_append_cons h front t).mp (List.isPrefixOf_iff_prefix.mp hprefix)
  induction s with
  | nil =>
    have hnone : word.isPrefixOf [] = false := by
      cases word with
      | nil => exact absurd rfl hne
      | cons d more => rfl
    have hhere : word.isPrefixOf (c :: t) = false := hstart [] hnone
    rw [List.nil_append, afterWord?, hhere, if_neg Bool.false_ne_true]
  | cons d s ih =>
    obtain ⟨hhere, hlater⟩ := Bool.or_eq_false_iff.mp hs
    have hnot : word.isPrefixOf (d :: (s ++ c :: t)) = false := hstart (d :: s) hhere
    rw [List.cons_append, afterWord?, hnot, if_neg Bool.false_ne_true, ih hlater]

end SchemaGrowth.Text
