import SchemaGrowth.Text.Quoted

/-!
# Texts between marks

`enclosed` takes the texts between an opening mark and the next one by the parity of their pieces.
Here it is read from left to right: what stands before the first mark does not count
(`enclosed_cons_of_ne`), and a text between two marks comes before those behind it
(`enclosed_quoted`). `marked_induction` goes through a text mark by mark.
-/

namespace SchemaGrowth.Text

/-- A text holds no mark, or it is cut at its first mark. -/
theorem marked_induction (mark : Char) {motive : Text → Prop}
    (free : ∀ t, mark ∉ t → motive t)
    (cut : ∀ s t, mark ∉ s → motive t → motive (s ++ mark :: t)) (t : Text) : motive t := by
  induction hn : t.length using Nat.strongRecOn generalizing t with
  | ind n ih =>
    by_cases h : mark ∈ t
    · rw [← before_append_after h] at hn ⊢
      refine cut _ _ (not_mem_before _ _) (ih _ ?_ _ rfl)
      simp only [List.length_append, List.length_cons] at hn
      omega
    · exact free t h

/-- What is done to the first piece makes no difference. -/
theorem everySecond_modifyHead {α : Type} (f : α → α) (pieces : List α) :
    everySecond (pieces.modifyHead f) = everySecond pieces := by
  match pieces with
  | [] => rfl
  | [_] => rfl
  | _ :: _ :: _ => rfl

@[simp] theorem enclosed_nil (mark : Char) : enclosed mark [] = [] := by
  simp [enclosed, everySecond]

theorem enclosed_cons_of_ne {mark c : Char} (h : c ≠ mark) (t : Text) :
    enclosed mark (c :: t) = enclosed mark t := by
  have hc : (c == mark) = false := by simpa using h
  rw [enclosed, List.splitOn_cons_eq_if_modifyHead, hc]
  exact everySecond_modifyHead _ _

theorem enclosed_quoted {mark : Char} {s : Text} (h : mark ∉ s) (t : Text) :
    enclosed mark (s.quoted mark ++ t) = s :: enclosed mark t := by
  have ht : s.quoted mark ++ t = [] ++ mark :: (s ++ mark :: t) := by
    simp [quoted]
  rw [ht, enclosed, List.splitOn_append_cons_self_of_not_mem (by simp),
    List.splitOn_append_cons_self_of_not_mem h, everySecond, enclosed]

/-- A piece between two marks holds no mark, and nothing that the text does not hold. -/
theorem mem_splitOn {mark : Char} {t piece : Text} (h : piece ∈ t.splitOn mark) :
    mark ∉ piece ∧ ∀ c ∈ piece, c ∈ t := by
  induction t generalizing piece with
  | nil =>
    obtain rfl : piece = [] := by simpa using h
    simp
  | cons d t ih =>
    have htail : ∀ p ∈ t.splitOn mark, mark ∉ p ∧ ∀ c ∈ p, c ∈ d :: t := by
      intro p hp
      exact ⟨(ih hp).1, fun c hc => List.mem_cons_of_mem _ ((ih hp).2 c hc)⟩
    rw [List.splitOn_cons_eq_if_modifyHead] at h
    split at h
    · rcases List.mem_cons.mp h with rfl | h
      · simp
      · exact htail piece h
    · rename_i hd
      cases hs : t.splitOn mark with
      | nil => exact absurd hs (List.splitOn_ne_nil _ _)
      | cons first rest =>
        rw [hs, List.modifyHead_cons] at h
        rw [hs] at htail
        rcases List.mem_cons.mp h with rfl | h
        · obtain ⟨hm, hc⟩ := htail first (by simp)
          refine ⟨?_, ?_⟩
          · have hne : mark ≠ d := fun e => hd (by simp [e])
            simp [hne, hm]
          · intro c hcd
            rcases List.mem_cons.mp hcd with rfl | hcd
            · simp
            · exact hc c hcd
        · exact htail piece (by simp [h])

theorem mem_of_mem_everySecond {α : Type} {x : α} {xs : List α} (h : x ∈ everySecond xs) :
    x ∈ xs := by
  fun_induction everySecond xs with
  | case1 a b rest ih =>
    rcases List.mem_cons.mp h with rfl | h
    · simp
    · simp [ih h]
  | case2 => simp at h

/-- A text between two marks holds no mark, and nothing that the whole text does not hold. -/
theorem mem_enclosed {mark : Char} {t s : Text} (h : s ∈ enclosed mark t) :
    mark ∉ s ∧ ∀ c ∈ s, c ∈ t :=
  mem_splitOn (mem_of_mem_everySecond h)

end SchemaGrowth.Text
