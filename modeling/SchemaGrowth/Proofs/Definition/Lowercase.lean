import SchemaGrowth.Proofs.Definition.Canonical
import SchemaGrowth.Proofs.Text.Lowercase

/-!
# Canonical forms in lowercase

Whether a definition is lowercased before or after it takes its canonical form makes no difference
(`canonical_lowercase`). Squeezing takes away spaces only, and only those that another space
follows, so what stands around a letter leads with a cased letter after it if it did before.
-/

namespace SchemaGrowth.Definition

open Text Unicode

/-! ## Marks -/

theorem caseless_marks : Caseless [⟨0x27, 0x27⟩, ⟨0x60, 0x60⟩] := by decide +kernel

theorem inRanges_marks (c : Char) : inRanges [⟨0x27, 0x27⟩, ⟨0x60, 0x60⟩] c = isMark c := by
  have hliteral : c = literalMark ↔ c.toNat = 0x27 := Char.toNat_inj.symm
  have hidentifier : c = identifierMark ↔ c.toNat = 0x60 := Char.toNat_inj.symm
  rw [Bool.eq_iff_iff, inRanges_iff]
  simp only [isMark, List.mem_cons, List.not_mem_nil, or_false, exists_eq_or_imp, exists_eq_left,
    Bool.or_eq_true, beq_iff_eq, hliteral, hidentifier]
  omega

theorem lowercaseAt_of_isMark {c : Char} (h : isMark c = true) (preceding following : Text) :
    lowercaseAt preceding c following = [c] :=
  lowercaseAt_of_caseless caseless_marks (by rw [inRanges_marks, h]) _ _

theorem isMark_of_mem_lowercaseAt {c d : Char} {preceding following : Text}
    (h : d ∈ lowercaseAt preceding c following) : isMark d = isMark c := by
  rw [← inRanges_marks, ← inRanges_marks, inRanges_of_mem_lowercaseAt caseless_marks h]

/-! ## Squeezing -/

/-- Squeezing leaves the first letter that counts where it was. -/
theorem leadsWithCased_squeeze (mark : Option Char) (t : Text) :
    leadsWithCased (squeeze mark t) = leadsWithCased t := by
  refine squeeze_induction (motive := fun s t => leadsWithCased s = leadsWithCased t) rfl
    (fun c s t h => ?_) (fun s t h => ?_) mark t
  · rw [leadsWithCased_cons, leadsWithCased_cons, h]
  · -- The space that takes the place of the run ends a word as well.
    rw [h, leadsWithCased_of_isBlank (by decide), leadsWithCased_of_isBlank (by decide)]

/-- Lowercasing makes no mark of another character. -/
theorem not_mem_lowercaseAt {mark c : Char} (hm : isMark mark = true) (hc : c ≠ mark)
    (preceding following : Text) : mark ∉ lowercaseAt preceding c following := by
  intro hin
  exact hc (eq_of_mem_lowercaseAt caseless_marks hin (by rw [inRanges_marks, hm])).symm

/-- Lowercasing makes no space of another character. -/
theorem ne_space_of_mem_lowercaseAt {c d : Char} (hc : c ≠ ' ') {preceding following : Text}
    (hd : d ∈ lowercaseAt preceding c following) : d ≠ ' ' := by
  rintro rfl
  exact hc (eq_of_mem_lowercaseAt caseless_blankRanges hd (by decide)).symm

theorem head?_lowercaseFrom (preceding t : Text) :
    (lowercaseFrom preceding t).head? = some ' ' ↔ t.head? = some ' ' := by
  cases t with
  | nil => rfl
  | cons c t =>
    by_cases hc : c = ' '
    · rw [hc, lowercaseFrom_cons_of_isBlank (by decide)]
      rfl
    · obtain ⟨d, more, hd⟩ := List.exists_cons_of_ne_nil (lowercaseAt_ne_nil preceding c t)
      have hne : d ≠ ' ' := ne_space_of_mem_lowercaseAt hc (by rw [hd]; simp)
      rw [lowercaseFrom, hd]
      simp [hne, hc]

theorem plain_of_mem_lowercaseAt {c d : Char} (hm : isMark c = false) (hs : c ≠ ' ')
    {preceding following : Text} (hd : d ∈ lowercaseAt preceding c following) :
    isMark d = false ∧ d ≠ ' ' :=
  ⟨(isMark_of_mem_lowercaseAt hd).trans hm, ne_space_of_mem_lowercaseAt hs hd⟩

/-- What is lowercased may be squeezed before. -/
theorem squeeze_lowercaseFrom {mark : Option Char} (hmark : ∀ m ∈ mark, isMark m = true)
    (preceding t : Text) :
    squeeze mark (lowercaseFrom preceding t) = lowercaseFrom preceding (squeeze mark t) := by
  induction t generalizing mark preceding with
  | nil => rw [lowercaseFrom, squeeze_nil, lowercaseFrom]
  | cons c t ih =>
    -- A character that is kept stands between the same letters as before.
    have hkept : ∀ next, (∀ m ∈ next, isMark m = true) →
        lowercaseFrom preceding (c :: squeeze next t)
          = lowercaseAt preceding c t ++ squeeze next (lowercaseFrom (c :: preceding) t) := by
      intro next hnext
      rw [lowercaseFrom, lowercaseAt_congr rfl (leadsWithCased_squeeze next t), ih hnext]
    cases mark with
    | some mark =>
      have hm := hmark mark rfl
      by_cases hc : c = mark
      · subst hc
        rw [squeeze, if_pos rfl, hkept none (by simp), lowercaseFrom, lowercaseAt_of_isMark hm,
          List.singleton_append, squeeze, if_pos rfl, List.singleton_append]
      · rw [squeeze, if_neg hc, hkept (some mark) hmark, lowercaseFrom,
          squeeze_some_append (not_mem_lowercaseAt hm hc preceding t)]
    | none =>
      cases hm : isMark c with
      | true =>
        have hnext : ∀ m ∈ some c, isMark m = true := by
          rintro m ⟨⟩
          exact hm
        rw [squeeze, if_pos hm, hkept (some c) hnext, lowercaseFrom, lowercaseAt_of_isMark hm,
          List.singleton_append, squeeze, if_pos hm, List.singleton_append]
      | false =>
        by_cases hs : c = ' '
        · subst hs
          have hspace : isBlank ' ' = true := by decide
          by_cases ht : t.head? = some ' '
          · -- The word before a run of spaces ends at the first of them, or at the last.
            have hrun : lowercaseFrom preceding t = lowercase t := by
              obtain ⟨more, rfl⟩ := List.head?_eq_some_iff.mp ht
              rw [lowercaseFrom_cons_of_isBlank hspace, ← lowercaseFrom_cons_of_isBlank hspace []]
              rfl
            rw [squeeze_space_of_head? ht, ← ih hmark, lowercaseFrom_cons_of_isBlank hspace, ← hrun,
              squeeze_space_of_head? ((head?_lowercaseFrom preceding t).mpr ht)]
          · have ht' := fun h => ht ((head?_lowercaseFrom (' ' :: preceding) t).mp h)
            rw [squeeze_space_of_head?_ne ht, hkept none hmark, lowercaseFrom,
              lowercaseAt_of_isBlank hspace, List.singleton_append, squeeze_space_of_head?_ne ht',
              List.singleton_append]
        · rw [squeeze_single hm hs, hkept none hmark, lowercaseFrom,
            squeeze_none_append fun d hd => plain_of_mem_lowercaseAt hm hs hd]

/-- **Lowercasing and taking the canonical form commute**, so definitions that differ in case alone
are equivalent. -/
theorem canonical_lowercase (one other : Text) :
    canonical one.lowercase = (canonical one).lowercase
    ∧ (one.lowercase = other.lowercase → equivalent one other = true) := by
  have hcommute : ∀ definition : Text,
      canonical definition.lowercase = (canonical definition).lowercase := by
    intro definition
    rw [canonical, trim_lowercase, lowercase, squeeze_lowercaseFrom (by simp), canonical, lowercase]
  refine ⟨hcommute one, ?_⟩
  intro h
  rw [equivalent_iff, ← hcommute, ← hcommute, h]

/-- Words that end in a sigma before a run of spaces and before a mark, and a letter that has two in
lowercase. -/
def shoutedWords : Text :=
  "ENUM('\u039F\u0394\u039F\u03A3'  , \x60A\u03A3\x60  \u0130 \u03A3 )".toList

/-- The words in lowercase, with the final form of a sigma at the ends of two of them. -/
def quietWords : Text :=
  "enum('\u03BF\u03B4\u03BF\u03C2'  , \x60a\u03C2\x60  i\u0307 \u03C3 )".toList

theorem canonical_lowercase_words :
    canonical shoutedWords.lowercase = (canonical shoutedWords).lowercase
    ∧ shoutedWords.lowercase = quietWords.lowercase
    ∧ equivalent shoutedWords quietWords = true :=
  have hsame : shoutedWords.lowercase = quietWords.lowercase := by decide +kernel
  ⟨(canonical_lowercase shoutedWords quietWords).1, hsame,
    (canonical_lowercase shoutedWords quietWords).2 hsame⟩

end SchemaGrowth.Definition
