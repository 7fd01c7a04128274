import SchemaGrowth.Definition.Enumeration
import SchemaGrowth.Proofs.Text.Enclosed

/-!
# Enumerations read back

An enumeration is written as a definition and read from one. What is read is always writable: no
value holds a literal mark, and no bracket stands in it or behind the list. What is writable is read
back as it was written (`ofDefinition?_definition`), and merging keeps it writable.
-/

namespace SchemaGrowth

namespace Enumeration

/-- An enumeration without the characters that end a value or a list of values. -/
structure Writable (enumeration : Enumeration) : Prop where
  mark : ∀ value ∈ enumeration.values, literalMark ∉ value
  values : ∀ value ∈ enumeration.values, '(' ∉ value ∧ ')' ∉ value
  modifiers : '(' ∉ enumeration.modifiers ∧ ')' ∉ enumeration.modifiers

/-- The parts of a definition that can be read, around its two brackets. -/
theorem ofDefinition?_eq_some {definition : Text} {enumeration : Enumeration} :
    ofDefinition? definition = some enumeration
      ↔ ∃ head list : Text, definition = head ++ '(' :: (list ++ ')' :: enumeration.modifiers)
        ∧ '(' ∉ head ++ list ++ enumeration.modifiers
        ∧ ')' ∉ head ++ list ++ enumeration.modifiers
        ∧ enumeration.values = list.enclosed literalMark := by
  constructor
  · intro h
    unfold ofDefinition? at h
    split at h
    · rename_i hd
      obtain ⟨ho, hc, hb⟩ := hd
      obtain rfl := Option.some.inj h
      have hopen : '(' ∈ definition := List.count_pos_iff.mp (by omega)
      have hsplit := Text.before_append_after hopen
      have hbehind := Text.before_append_after hb
      refine ⟨definition.before '(', (definition.after '(').before ')', ?_, ?_, ?_, rfl⟩
      · rw [hbehind, hsplit]
      · rw [← hsplit, ← hbehind] at ho
        simp only [List.count_append, List.count_cons] at ho
        rw [← List.count_eq_zero]
        simp only [List.count_append]
        simp at ho ⊢
        omega
      · rw [← hsplit, ← hbehind] at hc
        simp only [List.count_append, List.count_cons] at hc
        rw [← List.count_eq_zero]
        simp only [List.count_append]
        simp at hc ⊢
        omega
    · cases h
  · rintro ⟨head, list, hd, ho, hc, hv⟩
    simp only [List.mem_append, not_or] at ho hc
    have hafter : definition.after '(' = list ++ ')' :: enumeration.modifiers := by
      rw [hd, Text.after_append ho.1.1]
    have hcount : definition.count '(' = 1 ∧ definition.count ')' = 1 := by
      rw [hd]
      simp [List.count_append, List.count_eq_zero.mpr, ho, hc]
    rw [ofDefinition?, if_pos ⟨hcount.1, hcount.2, by simp [hafter]⟩]
    simp only [hafter, Text.before_append hc.1.2, Text.after_append hc.1.2, ← hv]

/-- A definition that can be read has one closing bracket. -/
theorem count_of_ofDefinition? {definition : Text} {enumeration : Enumeration}
    (h : ofDefinition? definition = some enumeration) : definition.count ')' = 1 := by
  unfold ofDefinition? at h
  split at h
  · rename_i hd
    exact hd.2.1
  · cases h

/-- Whatever is read can be written. -/
theorem writable_of_ofDefinition? {definition : Text} {enumeration : Enumeration}
    (h : ofDefinition? definition = some enumeration) : enumeration.Writable := by
  obtain ⟨head, list, -, ho, hc, hv⟩ := ofDefinition?_eq_some.mp h
  simp only [List.mem_append, not_or] at ho hc
  refine ⟨?_, ?_, ho.2, hc.2⟩
  · intro value hm
    rw [hv] at hm
    exact (Text.mem_enclosed hm).1
  · intro value hm
    rw [hv] at hm
    have hin := (Text.mem_enclosed hm).2
    exact ⟨fun hp => ho.1.2 (hin _ hp), fun hp => hc.1.2 (hin _ hp)⟩

/-! ## The list of values -/

theorem valueList_cons_cons (first second : Text) (rest : List Text) (modifiers : Text) :
    valueList ⟨first :: second :: rest, modifiers⟩
      = first.literal ++ ',' :: valueList ⟨second :: rest, modifiers⟩ := by
  simp [valueList, List.intercalate_cons_cons]

/-- The values of a list are read back if none holds a literal mark. -/
theorem enclosed_valueList {enumeration : Enumeration}
    (h : ∀ value ∈ enumeration.values, literalMark ∉ value) :
    enumeration.valueList.enclosed literalMark = enumeration.values := by
  obtain ⟨values, modifiers⟩ := enumeration
  induction values with
  | nil => simp [valueList]
  | cons first rest ih =>
    have hf : literalMark ∉ first := h first (by simp)
    cases rest with
    | nil =>
      have hq := Text.enclosed_quoted hf []
      simpa [valueList, Text.literal] using hq
    | cons second rest =>
      have hr := ih fun value hv => h value (List.mem_cons_of_mem _ hv)
      rw [valueList_cons_cons, Text.literal, Text.enclosed_quoted hf,
        Text.enclosed_cons_of_ne (by decide), hr]

/-- A list of values holds the characters of its values, marks and commas. -/
theorem mem_valueList {enumeration : Enumeration} {c : Char} (h : c ∈ enumeration.valueList) :
    c = ',' ∨ c = literalMark ∨ ∃ value ∈ enumeration.values, c ∈ value := by
  obtain ⟨values, modifiers⟩ := enumeration
  induction values with
  | nil => simp [valueList] at h
  | cons first rest ih =>
    have hl : c ∈ first.literal → c = literalMark ∨ c ∈ first := by
      simp only [Text.literal, Text.quoted, List.mem_cons, List.mem_append, List.not_mem_nil,
        or_false]
      rintro (hc | hc | hc)
      · exact .inl hc
      · exact .inr hc
      · exact .inl hc
    have hfirst : c ∈ first.literal →
        c = ',' ∨ c = literalMark ∨ ∃ value ∈ first :: rest, c ∈ value := by
      intro hc
      rcases hl hc with hc | hc
      · exact .inr (.inl hc)
      · exact .inr (.inr ⟨first, by simp, hc⟩)
    cases rest with
    | nil => exact hfirst (by simpa [valueList] using h)
    | cons second rest =>
      rw [valueList_cons_cons, List.mem_append, List.mem_cons] at h
      rcases h with h | h | h
      · exact hfirst h
      · exact .inl h
      · rcases ih h with hc | hc | ⟨value, hv, hc⟩
        · exact .inl hc
        · exact .inr (.inl hc)
        · exact .inr (.inr ⟨value, List.mem_cons_of_mem _ hv, hc⟩)

/-- A bracket stands in no list of values. -/
theorem Writable.not_mem_valueList {enumeration : Enumeration} (h : enumeration.Writable) :
    '(' ∉ enumeration.valueList ∧ ')' ∉ enumeration.valueList := by
  refine ⟨?_, ?_⟩
  · intro hm
    rcases mem_valueList hm with hc | hc | ⟨value, hv, hc⟩
    · exact absurd hc (by decide)
    · exact absurd hc (by decide)
    · exact (h.values value hv).1 hc
  · intro hm
    rcases mem_valueList hm with hc | hc | ⟨value, hv, hc⟩
    · exact absurd hc (by decide)
    · exact absurd hc (by decide)
    · exact (h.values value hv).2 hc

/-- A written enumeration around its brackets. -/
theorem definition_eq (enumeration : Enumeration) :
    enumeration.definition
      = ['E', 'N', 'U', 'M'] ++ '(' :: (enumeration.valueList ++ ')' :: enumeration.modifiers) := by
  have hword : "ENUM(".toList = ['E', 'N', 'U', 'M', '('] := by decide
  change "ENUM(".toList ++ enumeration.valueList ++ [')'] ++ enumeration.modifiers = _
  rw [hword]
  simp

/-- **An enumeration is read back as it was written.** -/
theorem ofDefinition?_definition {enumeration : Enumeration} (h : enumeration.Writable) :
    ofDefinition? enumeration.definition = some enumeration := by
  obtain ⟨ho, hc⟩ := h.not_mem_valueList
  refine ofDefinition?_eq_some.mpr ⟨['E', 'N', 'U', 'M'], enumeration.valueList,
    definition_eq enumeration, ?_, ?_, ?_⟩
  · simp [ho, h.modifiers.1]
  · simp [hc, h.modifiers.2]
  · exact (enclosed_valueList h.mark).symm

/-! ## Merging -/

theorem merge?_eq_none {old new : Enumeration} :
    old.merge? new = none
      ↔ (∀ value ∈ new.values, value ∈ old.values) ∧ old.sameModifiers new = true := by
  simp [merge?]

theorem eq_of_merge? {old new merged : Enumeration} (h : old.merge? new = some merged) :
    merged = ⟨(old.values ++ new.values).eraseDups, new.modifiers⟩ := by
  unfold merge? at h
  split at h
  · cases h
  · exact (Option.some.inj h).symm

/-- A merge is writable if both sides are. -/
theorem Writable.merge? {old new merged : Enumeration} (ho : old.Writable) (hn : new.Writable)
    (h : old.merge? new = some merged) : merged.Writable := by
  refine ⟨?_, ?_, ?_⟩
  · intro value hv
    rcases (mem_values_of_merge? h).mp hv with hv | hv
    · exact ho.mark value hv
    · exact hn.mark value hv
  · intro value hv
    rcases (mem_values_of_merge? h).mp hv with hv | hv
    · exact ho.values value hv
    · exact hn.values value hv
  · rw [modifiers_of_merge? h]
    exact hn.modifiers

/-- A merge has all that was wanted of it. -/
theorem merge?_merged {old new merged : Enumeration} (h : old.merge? new = some merged) :
    merged.merge? new = none := by
  refine merge?_eq_none.mpr ⟨?_, ?_⟩
  · intro value hv
    exact (mem_values_of_merge? h).mpr (.inr hv)
  · simp [sameModifiers, modifiers_of_merge? h]

end Enumeration

end SchemaGrowth
