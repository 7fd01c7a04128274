import SchemaGrowth.Proofs.Definition.Segment

/-!
# Canonical forms

Squeezing a text that is put together of two parts squeezes the parts, where the character between
them is quoted in neither (`squeeze_append_cons`). A canonical form is squeezed and trimmed.
-/

namespace SchemaGrowth

namespace Text

theorem before_append_of_mem {q : Char} {s : Text} (h : q ∈ s) (t : Text) :
    before q (s ++ t) = before q s := by
  calc before q (s ++ t) = before q (before q s ++ q :: (after q s ++ t)) := by
        rw [← List.cons_append, ← List.append_assoc, before_append_after h]
    _ = before q s := before_append (not_mem_before q s) _

theorem after_append_of_mem {q : Char} {s : Text} (h : q ∈ s) (t : Text) :
    after q (s ++ t) = after q s ++ t := by
  calc after q (s ++ t) = after q (before q s ++ q :: (after q s ++ t)) := by
        rw [← List.cons_append, ← List.append_assoc, before_append_after h]
    _ = after q s ++ t := after_append (not_mem_before q s) _

end Text

namespace Definition

/-! ## Squeezing in parts -/

theorem inQuotes_of_segments {c : Char} {t rest : Text} {first : Segment}
    (h : segments t = first :: segments rest) (hc : InQuotes c rest) : InQuotes c t := by
  obtain ⟨segment, hm, hi⟩ := hc
  exact ⟨segment, by simp [h, hm], hi⟩

/-- A character outside quotes divides a text for squeezing. -/
theorem squeeze_append_cons {c : Char} (hm : isMark c = false) (hs : c ≠ ' ') {s t : Text}
    (hq : ¬ InQuotes c (s ++ c :: t)) :
    squeeze none (s ++ c :: t) = squeeze none s ++ c :: squeeze none t := by
  fun_induction segments s with
  | case1 => exact squeeze_single hm hs t
  | case2 d rest hd hc ih =>
    have hc' : d ∈ rest ++ c :: t := List.mem_append_left _ hc
    have hseg := segments_closed hd hc'
    rw [Text.after_append_of_mem hc] at hseg
    have hrest := ih fun h => hq (inQuotes_of_segments hseg h)
    rw [List.cons_append, squeeze_closed hd hc', squeeze_closed hd hc,
      Text.before_append_of_mem hc, Text.after_append_of_mem hc, hrest, List.append_assoc]
  | case3 d rest hd hc =>
    -- The mark before `c` is closed behind it or not at all, and quotes `c` either way.
    have hdc : c ≠ d := by
      rintro rfl
      rw [hm] at hd
      cases hd
    refine absurd ?_ hq
    by_cases ht : d ∈ rest ++ c :: t
    · have hsplit := Text.before_append_after ht
      refine ⟨.quoted d (Text.before d (rest ++ c :: t)), ?_, ?_⟩
      · rw [List.cons_append, segments_closed hd ht]
        simp
      · have htake : Text.before d (rest ++ c :: t) = rest ++ Text.before d (c :: t) := by
          have hall : ∀ x ∈ rest, (decide (x ≠ d)) = true := by
            intro x hx
            simpa using fun e : x = d => hc (e ▸ hx)
          exact List.takeWhile_append_of_pos hall
        show c ∈ Text.before d (rest ++ c :: t)
        rw [htake, Text.before_cons, if_neg hdc]
        simp
    · refine ⟨.unclosed d (rest ++ c :: t), ?_, ?_⟩
      · rw [List.cons_append, segments_unclosed hd ht]
        simp
      · simp [Segment.inside]
  | case4 rest _ ih =>
    have hdrop : (rest ++ c :: t).dropWhile (· = ' ') = rest.dropWhile (· = ' ') ++ c :: t := by
      rw [List.dropWhile_append]
      split
      · rename_i he
        rw [List.isEmpty_iff.mp he]
        simp [hs]
      · rfl
    have hseg := segments_space (rest ++ c :: t)
    rw [hdrop] at hseg
    have hrest := ih fun h => hq (inQuotes_of_segments hseg h)
    rw [List.cons_append, squeeze_space, squeeze_space, hdrop, hrest, List.cons_append]
  | case5 d rest hd hds ih =>
    have hd' : isMark d = false := by simpa using hd
    have hrest := ih fun h => hq (inQuotes_of_segments (segments_single hd' hds _) h)
    rw [List.cons_append, squeeze_single hd' hds, squeeze_single hd' hds, hrest, List.cons_append]

/-- In a quoted part all characters but its mark are kept. -/
theorem squeeze_some_append {mark : Char} {s : Text} (h : mark ∉ s) (t : Text) :
    squeeze (some mark) (s ++ t) = s ++ squeeze (some mark) t := by
  induction s with
  | nil => rfl
  | cons c s ih =>
    have hc : c ≠ mark := fun e => h (by simp [e])
    rw [List.cons_append, squeeze, if_neg hc, ih fun hm => h (by simp [hm]), List.cons_append]

/-- Outside quotes all characters are kept that are neither marks nor spaces. -/
theorem squeeze_none_append {s : Text} (h : ∀ c ∈ s, isMark c = false ∧ c ≠ ' ') (t : Text) :
    squeeze none (s ++ t) = s ++ squeeze none t := by
  induction s with
  | nil => rfl
  | cons c s ih =>
    obtain ⟨hm, hs⟩ := h c (by simp)
    rw [List.cons_append, squeeze_single hm hs, ih fun d hd => h d (by simp [hd]), List.cons_append]

/-- A literal is left alone. -/
theorem squeeze_literal {value : Text} (h : literalMark ∉ value) (t : Text) :
    squeeze none (value.literal ++ t) = value.literal ++ squeeze none t := by
  have hm : isMark literalMark = true := by decide
  have hsplit : value.literal ++ t = literalMark :: (value ++ literalMark :: t) := by
    simp [Text.literal, Text.quoted]
  rw [hsplit, squeeze_closed hm (by simp), Text.before_append h, Text.after_append h]
  rfl

theorem squeeze_sublist (mark : Option Char) (t : Text) : (squeeze mark t).Sublist t :=
  squeeze_induction (motive := List.Sublist) .slnil (fun c _ _ h => h.cons_cons c) (fun _ _ h => h.cons ' ') mark t

theorem mem_of_mem_squeeze {mark : Option Char} {c : Char} {t : Text}
    (h : c ∈ squeeze mark t) : c ∈ t :=
  (squeeze_sublist mark t).subset h

/-- Squeezing takes spaces away, and nothing else. -/
theorem filter_squeeze {p : Char → Bool} (h : p ' ' = false) (mark : Option Char) (t : Text) :
    (squeeze mark t).filter p = t.filter p := by
  refine squeeze_induction (motive := fun s t => s.filter p = t.filter p) rfl
    (fun c s t ih => ?_) (fun s t ih => ?_) mark t
  · rw [List.filter_cons, List.filter_cons, ih]
  · exact ih.trans (List.filter_cons_of_neg (by simp [h])).symm

/-- A word without marks and spaces begins a text exactly if it begins the squeezed text. -/
theorem prefix_squeeze_iff {word : Text} (h : ∀ c ∈ word, isMark c = false ∧ c ≠ ' ') {t : Text} :
    word <+: squeeze none t ↔ word <+: t := by
  constructor
  · intro hp
    induction word generalizing t with
    | nil => exact List.nil_prefix
    | cons c word ih =>
      obtain ⟨hm, hs⟩ := h c (by simp)
      have hhead : (squeeze none t).head? = some c := by
        obtain ⟨rest, hrest⟩ := hp
        rw [← hrest, List.cons_append, List.head?_cons]
      rw [head?_squeeze] at hhead
      obtain ⟨more, rfl⟩ := List.head?_eq_some_iff.mp hhead
      rw [squeeze_single hm hs, List.prefix_cons_inj] at hp
      exact (List.prefix_cons_inj c).mpr (ih (fun d hd => h d (by simp [hd])) hp)
  · rintro ⟨rest, rfl⟩
    rw [squeeze_none_append h]
    exact List.prefix_append _ _

@[simp] theorem getLast?_squeeze (mark : Option Char) (t : Text) :
    (squeeze mark t).getLast? = t.getLast? := by
  refine squeeze_induction (motive := fun s t => s.getLast? = t.getLast?) rfl
    (fun c s t ih => ?_) (fun s t ih => ?_) mark t
  · rw [List.getLast?_cons, List.getLast?_cons, ih]
  · rw [ih, List.getLast?_cons_cons]

/-! ## Canonical forms -/

theorem squeeze_canonical (definition : Text) :
    squeeze none (canonical definition) = canonical definition :=
  squeeze_squeeze _

theorem noLeadingBlank_canonical (definition : Text) : (canonical definition).NoLeadingBlank := by
  have h := Text.noLeadingBlank_trim definition
  rwa [Text.NoLeadingBlank, ← head?_squeeze none] at h

theorem noTrailingBlank_canonical (definition : Text) : (canonical definition).NoTrailingBlank := by
  have h := Text.noTrailingBlank_trim definition
  rwa [Text.NoTrailingBlank, ← getLast?_squeeze none] at h

/-- A canonical form lacks blanks, and nothing else. -/
theorem filter_canonical {p : Char → Bool} (h : ∀ c, isBlank c = true → p c = false)
    (definition : Text) : (canonical definition).filter p = definition.filter p := by
  rw [canonical, filter_squeeze (h ' ' (by decide)), Text.filter_trim h]

end Definition

end SchemaGrowth
