import SchemaGrowth.Proofs.Definition.Canonical
import SchemaGrowth.Proofs.Definition.Quoting
import SchemaGrowth.Proofs.Enumeration.ReadBack

/-!
# Enumerations in canonical form

The canonical form of a definition starts with the same word and has the same brackets, so it is an
enumeration, and can be read, exactly if the definition is and can. Its list is cut into literals
by another rule than the definition is cut into quoted parts: one reads literal marks alone and
starts at the bracket, the other reads marks of two kinds and starts where the definition does. The
values are the same if the two agree where literals are (`ofDefinition?_canonical`).
-/

namespace SchemaGrowth

open Definition

namespace Enumeration

/-! ## The word -/

/-- The letters of the word are neither marks nor blanks. -/
theorem plain_of_toLower {c : Char} (h : c.toLower ∈ "enum".toList) :
    isMark c = false ∧ isBlank c = false := by
  unfold Char.toLower at h
  split at h
  · rename_i hcapital
    have hlow : 65 ≤ c.toNat := hcapital.1
    have hhigh : c.toNat ≤ 90 := hcapital.2
    have hliteral : c ≠ literalMark := by
      rintro rfl
      exact absurd hlow (by decide)
    have hidentifier : c ≠ identifierMark := by
      rintro rfl
      exact absurd hhigh (by decide)
    refine ⟨by simp [isMark, hliteral, hidentifier], ?_⟩
    simp [isBlank]
    omega
  · obtain rfl | rfl | rfl | rfl : c = 'e' ∨ c = 'n' ∨ c = 'u' ∨ c = 'm' := by simpa using h
    all_goals decide

theorem isEnum_iff {definition : Text} :
    isEnum definition = true
      ↔ ∃ word, word.map Char.toLower = "enum".toList ∧ word <+: definition.trimStart := by
  rw [isEnum, beq_iff_eq]
  constructor
  · intro h
    exact ⟨_, h, List.take_prefix _ _⟩
  · rintro ⟨word, hword, hp⟩
    have hlength : word.length = 4 := by
      simpa using congrArg List.length hword
    rw [← hlength, ← List.prefix_iff_eq_take.mp hp, hword]

theorem isEnum_canonical (definition : Text) :
    isEnum (canonical definition) = isEnum definition := by
  rw [Bool.eq_iff_iff, isEnum_iff, isEnum_iff]
  refine exists_congr fun word => and_congr_right fun hword => ?_
  have hplain : ∀ c ∈ word, isMark c = false ∧ isBlank c = false := by
    intro c hc
    exact plain_of_toLower (hword ▸ List.mem_map_of_mem hc)
  have hspace : ∀ c ∈ word, isMark c = false ∧ c ≠ ' ' := by
    intro c hc
    refine ⟨(hplain c hc).1, ?_⟩
    rintro rfl
    exact absurd (hplain ' ' hc).2 (by decide)
  have hend : Text.NoTrailingBlank word := by
    intro c hc
    exact (hplain c (List.mem_of_getLast? hc)).2
  rw [Text.trimStart_eq_self (noLeadingBlank_canonical definition), canonical,
    prefix_squeeze_iff hspace, Text.trim, Text.prefix_trimEnd_iff hend]

/-! ## The brackets -/

/-- The characters around a list. -/
def isBracket (c : Char) : Bool :=
  c == '(' || c == ')'

/-- A definition can be read if its brackets are one that opens and one that closes. -/
theorem isSome_ofDefinition?_iff_filter {definition : Text} :
    (ofDefinition? definition).isSome = true ↔ definition.filter isBracket = ['(', ')'] := by
  have hno : ∀ t : Text, '(' ∉ t → ')' ∉ t → t.filter isBracket = [] := by
    intro t ho hc
    refine List.filter_eq_nil_iff.mpr fun c hm => ?_
    simp only [isBracket, Bool.or_eq_true, beq_iff_eq, not_or]
    exact ⟨fun e => ho (e ▸ hm), fun e => hc (e ▸ hm)⟩
  have hnot : ∀ {t : Text}, (∀ c ∈ t, ¬ isBracket c = true) → '(' ∉ t ∧ ')' ∉ t := by
    intro t h
    exact ⟨fun hm => h _ hm (by decide), fun hm => h _ hm (by decide)⟩
  constructor
  · intro h
    obtain ⟨enumeration, he⟩ := Option.isSome_iff_exists.mp h
    obtain ⟨head, list, hd, ho, hc, -⟩ := ofDefinition?_eq_some.mp he
    simp only [List.mem_append, not_or] at ho hc
    have hopen : isBracket '(' = true := by decide
    have hclose : isBracket ')' = true := by decide
    rw [hd, List.filter_append, List.filter_cons_of_pos hopen, List.filter_append,
      List.filter_cons_of_pos hclose, hno _ ho.1.1 hc.1.1, hno _ ho.1.2 hc.1.2, hno _ ho.2 hc.2]
    rfl
  · intro h
    obtain ⟨head, behind, rfl, hhead, -, hbehind⟩ := List.filter_eq_cons_iff.mp h
    obtain ⟨list, modifiers, rfl, hlist, -, hmodifiers⟩ := List.filter_eq_cons_iff.mp hbehind
    have hrest := hnot (List.filter_eq_nil_iff.mp hmodifiers)
    refine Option.isSome_iff_exists.mpr ⟨⟨Text.enclosed literalMark list, modifiers⟩, ?_⟩
    refine ofDefinition?_eq_some.mpr ⟨head, list, rfl, ?_, ?_, rfl⟩
    · simp [hnot hhead, hnot hlist, hrest]
    · simp [hnot hhead, hnot hlist, hrest]

theorem isSome_ofDefinition?_canonical (definition : Text) :
    (ofDefinition? (canonical definition)).isSome = (ofDefinition? definition).isSome := by
  have hblank : ∀ c, isBlank c = true → isBracket c = false := by
    intro c hc
    have hopen : c ≠ '(' := by
      rintro rfl
      exact absurd hc (by decide)
    have hclose : c ≠ ')' := by
      rintro rfl
      exact absurd hc (by decide)
    simp [isBracket, hopen, hclose]
  rw [Bool.eq_iff_iff, isSome_ofDefinition?_iff_filter, isSome_ofDefinition?_iff_filter, filter_canonical hblank]

end Enumeration

/-! ## The list -/

namespace Definition

/-- Whether a place in a definition lies between its brackets. -/
def InList (definition : Text) (i : Nat) : Prop :=
  '(' ∈ definition.take i ∧ ')' ∈ definition.drop i

instance (definition : Text) (i : Nat) : Decidable (InList definition i) :=
  inferInstanceAs (Decidable (_ ∧ _))

/-- A definition with no mark before its opening bracket, and no identifier mark between its
brackets except in literals. -/
structure PlainList (definition : Text) : Prop where
  head : ∀ c ∈ Text.before '(' definition, isMark c = false
  list : ∀ i < definition.length, InList definition i → definition[i]? = some identifierMark →
    (quoting definition)[i]? = some (identifierMark, some literalMark)

instance (definition : Text) : Decidable (PlainList definition) :=
  decidable_of_iff
    ((Text.before '(' definition).all (!isMark ·)
      && (List.range definition.length).all fun i =>
        InList definition i → definition[i]? = some identifierMark →
          (quoting definition)[i]? = some (identifierMark, some literalMark)) <| by
    simp only [Bool.and_eq_true, List.all_eq_true, List.mem_range, Bool.not_eq_true',
      decide_eq_true_eq]
    exact ⟨fun h => ⟨h.1, h.2⟩, fun h => ⟨h.1, h.2⟩⟩

theorem PlainList.eq_literalMark {definition : Text} {mark : Option Char}
    {front behind : List (Char × Option Char)} (h : PlainList definition)
    (hq : quoting definition = front ++ (identifierMark, mark) :: behind)
    (ho : '(' ∈ front.map Prod.fst) (hc : ')' ∈ behind.map Prod.fst) :
    mark = some literalMark := by
  have htext := congrArg (List.map Prod.fst) hq
  rw [map_fst_quoting, List.map_append, List.map_cons] at htext
  have hlist := h.list front.length
  have hlength : (front.map Prod.fst).length = front.length := List.length_map _
  rw [InList, hq, htext, List.getElem?_append_right (Nat.le_refl _), ← hlength, List.take_left,
    List.drop_left, List.getElem?_append_right (Nat.le_refl _)] at hlist
  simpa [ho, hc] using hlist

/-- A text in which identifier marks stand in literals only. -/
inductive LiteralsOnly : Text → Prop where
  | nil : LiteralsOnly []
  | literal {s t : Text} : literalMark ∉ s → LiteralsOnly t → LiteralsOnly (s.literal ++ t)
  | unclosed {s : Text} : literalMark ∉ s → LiteralsOnly (literalMark :: s)
  | cons {c : Char} {t : Text} : isMark c = false → LiteralsOnly t → LiteralsOnly (c :: t)

theorem literalsOnly_of_quoting {t : Text}
    (h : ∀ mark, (identifierMark, mark) ∈ quoting t → mark = some literalMark) :
    LiteralsOnly t := by
  have hno : (identifierMark, some identifierMark) ∉ quoting t := fun hin =>
    absurd (h _ hin) (by decide)
  clear h
  induction t using quoted_induction with
  | nil => exact .nil
  | closed mark s t hm hs ih =>
    rw [quoting_closed hm hs] at hno
    obtain rfl : mark = literalMark := by
      rcases isMark_iff.mp hm with hliteral | rfl
      · exact hliteral
      · exact absurd (by simp [Text.quoted]) hno
    have hwhole : literalMark :: (s ++ literalMark :: t) = Text.literal s ++ t := by
      simp [Text.literal, Text.quoted]
    rw [hwhole]
    exact .literal hs (ih fun hin => hno (List.mem_append_right _ hin))
  | unclosed mark s hm hs =>
    rw [quoting_unclosed hm hs] at hno
    obtain rfl : mark = literalMark := by
      rcases isMark_iff.mp hm with hliteral | rfl
      · exact hliteral
      · exact absurd (by simp) hno
    exact .unclosed hs
  | unmarked c t hm ih =>
    rw [quoting_cons hm] at hno
    exact .cons hm (ih fun hin => hno (List.mem_cons_of_mem _ hin))

/-- The list of a plain definition, read from its bracket on, has identifier marks in literals
only. -/
theorem PlainList.literalsOnly {head list modifiers : Text} (ho : '(' ∉ head)
    (h : PlainList (head ++ '(' :: (list ++ ')' :: modifiers))) : LiteralsOnly list := by
  have hhead : ∀ c ∈ head, isMark c = false := by
    have := h.head
    rwa [Text.before_append ho] at this
  refine literalsOnly_of_quoting fun mark hm => ?_
  obtain ⟨front, back, hsplit⟩ := List.append_of_mem hm
  obtain ⟨behind, hbehind⟩ := quoting_prefix_append list (')' :: modifiers)
  have hbrackets : behind.map Prod.fst = ')' :: modifiers := by
    have hfst := congrArg (List.map Prod.fst) hbehind
    rw [List.map_append, map_fst_quoting, map_fst_quoting] at hfst
    exact List.append_cancel_left hfst
  -- Nothing is open before the list, so what it quotes by itself is what it quotes there.
  have hquoting : quoting (head ++ '(' :: (list ++ ')' :: modifiers))
      = (head.map (·, none) ++ ('(', none) :: front) ++ (identifierMark, mark) :: (back ++ behind) := by
    rw [quoting_append hhead, quoting_cons (by decide), ← hbehind, hsplit]
    simp
  exact h.eq_literalMark hquoting (by simp) (by simp [hbrackets])

/-- Outside quotes a character is kept, or it is a space that another one follows. -/
theorem squeeze_unmarked {c : Char} (h : isMark c = false) (t : Text) :
    squeeze none (c :: t) = c :: squeeze none t
      ∨ c = ' ' ∧ squeeze none (c :: t) = squeeze none t := by
  rw [squeeze, if_neg (by simp [h])]
  split
  · rename_i hs
    exact .inr ⟨hs.1, rfl⟩
  · exact .inl rfl

/-- A list with identifier marks in literals only has the same literals when it is squeezed,
whatever follows its closing bracket. -/
theorem LiteralsOnly.exists_squeeze {list : Text} (h : LiteralsOnly list) (rest : Text) :
    ∃ kept mark, squeeze none (list ++ ')' :: rest) = kept ++ ')' :: squeeze mark rest
      ∧ kept ⊆ list ∧ kept.enclosed literalMark = list.enclosed literalMark := by
  induction h with
  | nil => exact ⟨[], none, squeeze_single (by decide) (by decide) rest, by simp, rfl⟩
  | @literal s t hs _ ih =>
    obtain ⟨kept, mark, hkept, hsub, henclosed⟩ := ih
    refine ⟨s.literal ++ kept, mark, ?_, ?_, ?_⟩
    · rw [List.append_assoc, squeeze_literal hs, hkept, List.append_assoc]
    · exact List.append_subset.mpr ⟨List.subset_append_left _ _,
        List.subset_append_of_subset_right _ hsub⟩
    · rw [Text.literal, Text.enclosed_quoted hs, Text.enclosed_quoted hs, henclosed]
  | @unclosed s hs =>
    -- The literal that is open at the bracket goes on behind it, and is kept as it is up to there.
    have hm : isMark literalMark = true := by decide
    have hclose : ')' ≠ literalMark := by decide
    refine ⟨literalMark :: s, some literalMark, ?_, List.Subset.refl _, rfl⟩
    rw [List.cons_append, squeeze, if_pos hm, squeeze_some_append hs, squeeze, if_neg hclose,
      List.cons_append]
  | @cons c t hm _ ih =>
    obtain ⟨kept, mark, hkept, hsub, henclosed⟩ := ih
    have hne : c ≠ literalMark := by
      rintro rfl
      cases hm
    rw [List.cons_append]
    rcases squeeze_unmarked hm (t ++ ')' :: rest) with hsame | ⟨-, hgone⟩
    · refine ⟨c :: kept, mark, ?_, List.cons_subset_cons c hsub, ?_⟩
      · rw [hsame, hkept, List.cons_append]
      · rw [Text.enclosed_cons_of_ne hne, Text.enclosed_cons_of_ne hne, henclosed]
    · refine ⟨kept, mark, ?_, List.subset_cons_of_subset c hsub, ?_⟩
      · rw [hgone, hkept]
      · rw [Text.enclosed_cons_of_ne hne, henclosed]

/-- Squeezing goes on as from a start behind a text without marks. -/
theorem exists_squeeze_unmarked {s : Text} (h : ∀ c ∈ s, isMark c = false) {d : Char}
    (hm : isMark d = false) (hd : d ≠ ' ') (t : Text) :
    ∃ kept, squeeze none (s ++ d :: t) = kept ++ d :: squeeze none t ∧ kept ⊆ s := by
  induction s with
  | nil => exact ⟨[], squeeze_single hm hd t, List.nil_subset _⟩
  | cons c s ih =>
    obtain ⟨kept, hkept, hsub⟩ := ih fun e he => h e (List.mem_cons_of_mem _ he)
    rw [List.cons_append]
    rcases squeeze_unmarked (h c List.mem_cons_self) (s ++ d :: t) with hsame | ⟨-, hgone⟩
    · exact ⟨c :: kept, by rw [hsame, hkept, List.cons_append], List.cons_subset_cons c hsub⟩
    · exact ⟨kept, by rw [hgone, hkept], List.subset_cons_of_subset c hsub⟩

end Definition

namespace Enumeration

/-- **The canonical form of an enumeration has its values**, where its list is plain. -/
theorem ofDefinition?_canonical {definition : Text} {enumeration : Enumeration}
    (h : ofDefinition? definition = some enumeration) (hlist : PlainList definition) :
    ∃ modifiers, ofDefinition? (canonical definition) = some ⟨enumeration.values, modifiers⟩ := by
  obtain ⟨head, list, rfl, ho, hc, hv⟩ := ofDefinition?_eq_some.mp h
  simp only [List.mem_append, not_or] at ho hc
  have hstart : Text.trimStart head ⊆ head := (List.dropWhile_suffix _).subset
  have hend : enumeration.modifiers.trimEnd ⊆ enumeration.modifiers :=
    (Text.prefix_trimEnd _).subset
  have hhead : ∀ c ∈ Text.trimStart head, isMark c = false := by
    have := hlist.head
    rw [Text.before_append ho.1.1] at this
    exact fun c hin => this c (hstart hin)
  obtain ⟨front, hfront, hfrontsub⟩ := exists_squeeze_unmarked hhead (d := '(') (by decide)
    (by decide) (list ++ ')' :: enumeration.modifiers.trimEnd)
  obtain ⟨kept, mark, hkept, hkeptsub, henclosed⟩ :=
    (hlist.literalsOnly ho.1.1).exists_squeeze enumeration.modifiers.trimEnd
  have hcanonical : canonical (head ++ '(' :: (list ++ ')' :: enumeration.modifiers))
      = front ++ '(' :: (kept ++ ')' :: squeeze mark enumeration.modifiers.trimEnd) := by
    rw [canonical, Text.trim_append_between (by decide) (by decide), hfront, hkept]
  -- What is kept of a part without brackets has none.
  have hnone : ∀ c, c ∉ head → c ∉ list → c ∉ enumeration.modifiers →
      c ∉ front ++ kept ++ squeeze mark enumeration.modifiers.trimEnd := by
    intro c hin hmid hout
    simp only [List.mem_append, not_or]
    exact ⟨⟨fun hm => hin (hstart (hfrontsub hm)), fun hm => hmid (hkeptsub hm)⟩,
      fun hm => hout (hend (mem_of_mem_squeeze hm))⟩
  exact ⟨_, ofDefinition?_eq_some.mpr ⟨front, kept, hcanonical, hnone _ ho.1.1 ho.1.2 ho.2,
    hnone _ hc.1.1 hc.1.2 hc.2, hv.trans henclosed.symm⟩⟩

end Enumeration

end SchemaGrowth
