import SchemaGrowth.Proofs.Definition.Segment

/-!
# What is quoted where

Every character of a definition stands in a quoted part or outside of them. `quoting` gives it the
mark of its part. It follows from the segments, and `quoted_induction` goes through a definition
part by part: what stands in quotes is taken whole, and what does not one character after the other.
What is quoted is settled by what stands before it (`quoting_prefix_append`).
-/

namespace SchemaGrowth.Definition

/-- The mark of a quoted segment. -/
def Segment.mark? : Segment → Option Char
  | .quoted mark _ => some mark
  | .unclosed mark _ => some mark
  | .spaces _ | .single _ => none

/-- The characters of a text, each with the mark of the quoted part in which it stands. The marks of
a part stand in it. -/
def quoting (t : Text) : List (Char × Option Char) :=
  (segments t).flatMap fun segment => segment.text.map (·, segment.mark?)

theorem map_fst_quoting (t : Text) : (quoting t).map Prod.fst = t := by
  rw [quoting, List.map_flatMap]
  simp only [List.map_map, Function.comp_def, List.map_id']
  exact flatMap_text_segments t

@[simp] theorem quoting_nil : quoting [] = [] := by
  simp [quoting, segments]

theorem quoting_closed {mark : Char} {s : Text} (hm : isMark mark = true) (h : mark ∉ s)
    (t : Text) :
    quoting (mark :: (s ++ mark :: t)) = (s.quoted mark).map (·, some mark) ++ quoting t := by
  rw [quoting, segments_closed hm (by simp), Text.before_append h, Text.after_append h]
  rfl

theorem quoting_unclosed {mark : Char} {s : Text} (hm : isMark mark = true) (h : mark ∉ s) :
    quoting (mark :: s) = (mark :: s).map (·, some mark) := by
  rw [quoting, segments_unclosed hm h]
  simp [Segment.text, Segment.mark?]

/-- A character that is no mark, and stands in no quoted part, is one of its own. -/
theorem quoting_cons {c : Char} (hm : isMark c = false) (t : Text) :
    quoting (c :: t) = (c, none) :: quoting t := by
  by_cases hs : c = ' '
  · subst hs
    cases t with
    | nil => simp [quoting, segments_space, segments, Segment.text, Segment.mark?]
    | cons d rest =>
      by_cases hd : d = ' '
      · subst hd
        rw [quoting, quoting, segments_space, segments_space]
        simp [Segment.text, Segment.mark?, List.replicate_succ]
      · rw [quoting, quoting, segments_space]
        simp [Segment.text, Segment.mark?, hd]
  · rw [quoting, segments_single hm hs]
    rfl

/-- A text is gone through part by part. -/
theorem quoted_induction {motive : Text → Prop} (nil : motive [])
    (closed : ∀ mark s t, isMark mark = true → mark ∉ s → motive t →
      motive (mark :: (s ++ mark :: t)))
    (unclosed : ∀ mark s, isMark mark = true → mark ∉ s → motive (mark :: s))
    (unmarked : ∀ c t, isMark c = false → motive t → motive (c :: t)) (t : Text) : motive t := by
  induction hn : t.length using Nat.strongRecOn generalizing t with
  | ind n ih =>
    cases t with
    | nil => exact nil
    | cons c rest =>
      rw [List.length_cons] at hn
      cases hm : isMark c with
      | false => exact unmarked c rest hm (ih _ (by omega) rest rfl)
      | true =>
        by_cases hc : c ∈ rest
        · have hafter := length_after_le c rest
          have hrest := closed c (Text.before c rest) (Text.after c rest) hm
            (Text.not_mem_before c rest)
            (ih _ (by omega) (Text.after c rest) rfl)
          rwa [Text.before_append_after hc] at hrest
        · exact unclosed c rest hm hc

/-- What follows a text leaves its quotes as they are. -/
theorem quoting_prefix_append (s t : Text) : quoting s <+: quoting (s ++ t) := by
  induction s using quoted_induction with
  | nil => simp
  | closed mark s rest hm h ih =>
    rw [quoting_closed hm h, List.cons_append, List.append_assoc, List.cons_append,
      quoting_closed hm h]
    exact List.prefix_append_right_inj _ |>.mpr ih
  | unclosed mark s hm h =>
    rw [quoting_unclosed hm h]
    by_cases ht : mark ∈ t
    · obtain ⟨u, v, rfl, hu⟩ := List.eq_append_cons_of_mem ht
      have hsplit : mark :: s ++ (u ++ mark :: v) = mark :: ((s ++ u) ++ mark :: v) := by simp
      rw [hsplit, quoting_closed hm (by simp [h, hu])]
      simp [Text.quoted, List.prefix_append]
    · have hst : mark ∉ s ++ t := by simp [h, ht]
      rw [List.cons_append, quoting_unclosed hm hst]
      simp [List.prefix_append]
  | unmarked c s hm ih =>
    rw [List.cons_append, quoting_cons hm, quoting_cons hm, List.prefix_cons_inj]
    exact ih

/-- Behind a text without marks nothing is quoted yet. -/
theorem quoting_append {s : Text} (h : ∀ c ∈ s, isMark c = false) (t : Text) :
    quoting (s ++ t) = s.map (·, none) ++ quoting t := by
  induction s with
  | nil => rfl
  | cons c s ih =>
    rw [List.cons_append, quoting_cons (h c (by simp)), ih fun d hd => h d (by simp [hd])]
    rfl

end SchemaGrowth.Definition
