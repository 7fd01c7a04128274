import Mathlib.Data.List.Induction
import SchemaGrowth.Proofs.Text.Trim
import SchemaGrowth.Text.Lowercase

/-!
# Texts in lowercase

Lowercasing looks at a text through its letters, and leaves blanks and marks where they are: it
changes none of them and makes none of other characters (`lowercaseAt_of_caseless`,
`inRanges_of_mem_lowercaseAt`). The form of a capital sigma depends on what stands around it,
but only as far as the next blank. So blanks at the ends of a text may be taken off before or after
it is lowercased (`trim_lowercase`).
-/

namespace SchemaGrowth

namespace Unicode

/-! ## Characters without case -/

/-- Ranges without a common code point. -/
def CodeRange.Apart (range other : CodeRange) : Prop :=
  range.last < other.first ∨ other.last < range.first

instance (range other : CodeRange) : Decidable (range.Apart other) :=
  inferInstanceAs (Decidable (_ ∨ _))

/-- A character of ranges that are apart from others lies in none of the others. -/
theorem inRanges_of_apart {ranges others : List CodeRange}
    (h : ∀ range ∈ ranges, ∀ other ∈ others, range.Apart other) {c : Char}
    (hc : inRanges ranges c = true) : inRanges others c = false := by
  obtain ⟨range, hr, hlow, hhigh⟩ := inRanges_iff.mp hc
  rw [← Bool.not_eq_true, inRanges_iff]
  rintro ⟨other, ho, hlow', hhigh'⟩
  have hapart := h range hr other ho
  unfold CodeRange.Apart at hapart
  omega

namespace CaseRow

/-- From the first capital of a row to the last. -/
def capitals (row : CaseRow) : CodeRange :=
  ⟨row.first, row.last⟩

/-- From the first lowercase letter of a row to the last. -/
def letters (row : CaseRow) : CodeRange :=
  ⟨row.lower, row.lower + (row.last - row.first)⟩

end CaseRow

/-- Ranges of characters that are neither capitals nor lowercase letters of capitals. The three
characters that no row holds are named. -/
def Caseless (ranges : List CodeRange) : Prop :=
  (∀ range ∈ ranges, 0 < range.first
    ∧ ∀ row ∈ lowercaseRows, range.Apart row.capitals ∧ range.Apart row.letters)
  ∧ ∀ c ∈ ['\u0130', '\u0307', '\u03C2'], inRanges ranges c = false

-- The tables are long, so their rows are gone through as Booleans, without a proof for each.
instance (ranges : List CodeRange) : Decidable (Caseless ranges) :=
  decidable_of_iff
    ((ranges.all fun range => 0 < range.first && lowercaseRows.all fun row =>
        range.Apart row.capitals && range.Apart row.letters)
      && ['\u0130', '\u0307', '\u03C2'].all fun c => !inRanges ranges c)
    (by simp [Caseless])

theorem toNat_ofNat (n : Nat) : (Char.ofNat n).toNat = n ∨ (Char.ofNat n).toNat = 0 := by
  by_cases h : n.isValidChar
  · rw [Char.ofNat, dif_pos h]
    exact .inl rfl
  · rw [Char.ofNat, dif_neg h]
    exact .inr rfl

/-- A capital has its letter in the row in which it is found. -/
theorem lowercaseLetter_cases (c : Char) :
    lowercaseLetter c = c ∨ ∃ row ∈ lowercaseRows,
      (row.first ≤ c.toNat ∧ c.toNat ≤ row.last) ∧ lowercaseLetter c = row.image c.toNat := by
  unfold lowercaseLetter
  cases hfind : lowercaseRows.find? (·.covers c.toNat) with
  | none => exact .inl rfl
  | some row =>
    have hcovers : row.covers c.toNat = true := by simpa using List.find?_some hfind
    simp only [CaseRow.covers, Bool.and_eq_true, decide_eq_true_eq] at hcovers
    exact .inr ⟨row, List.mem_of_find?_eq_some hfind, hcovers.1, rfl⟩

/-- A caseless character stays, and no other character becomes one. -/
theorem lowercaseLetter_of_caseless {ranges : List CodeRange} (h : Caseless ranges) (c : Char) :
    (inRanges ranges c = true → lowercaseLetter c = c)
      ∧ inRanges ranges (lowercaseLetter c) = inRanges ranges c := by
  rcases lowercaseLetter_cases c with hsame | ⟨row, hrow, hcovers, himage⟩
  · exact ⟨fun _ => hsame, by rw [hsame]⟩
  · have hcapital : inRanges ranges c = false := by
      rw [← Bool.not_eq_true, inRanges_iff]
      rintro ⟨range, hr, hlow, hhigh⟩
      have hapart := ((h.1 range hr).2 row hrow).1
      simp only [CodeRange.Apart, CaseRow.capitals] at hapart
      omega
    have hletter : inRanges ranges (lowercaseLetter c) = false := by
      rw [himage, ← Bool.not_eq_true, inRanges_iff]
      rintro ⟨range, hr, hlow, hhigh⟩
      have hpos := (h.1 range hr).1
      have hapart := ((h.1 range hr).2 row hrow).2
      simp only [CodeRange.Apart, CaseRow.letters] at hapart
      simp only [CaseRow.image] at hlow hhigh
      rcases toNat_ofNat (row.lower + (c.toNat - row.first)) with hn | hn <;> omega
    refine ⟨?_, hletter.trans hcapital.symm⟩
    intro hc
    rw [hcapital] at hc
    cases hc

end Unicode

namespace Text

open Unicode

/-! ## One character -/

variable {ranges : List CodeRange} {c : Char}

/-- Neither a capital nor its letter is caseless. -/
theorem not_inRanges_of_capital (h : Caseless ranges) (hc : lowercaseLetter c ≠ c) :
    inRanges ranges c = false ∧ inRanges ranges (lowercaseLetter c) = false := by
  obtain ⟨hstay, hsame⟩ := lowercaseLetter_of_caseless h c
  have hcapital : inRanges ranges c = false := eq_false_of_ne_true fun hr => hc (hstay hr)
  exact ⟨hcapital, hsame.trans hcapital⟩

/-- Caseless characters stay as they are. -/
theorem lowercaseAt_of_caseless (h : Caseless ranges) (hc : inRanges ranges c = true)
    (preceding following : Text) : lowercaseAt preceding c following = [c] := by
  have hletter := (lowercaseLetter_of_caseless h c).1 hc
  have hsigma : c ≠ '\u03A3' := by
    rintro rfl
    revert hletter
    decide +kernel
  have hdotted : c ≠ '\u0130' := by
    rintro rfl
    rw [h.2 _ (by simp)] at hc
    cases hc
  rw [lowercaseAt, if_neg hsigma, if_neg hdotted, hletter]

/-- No other character becomes a caseless one. -/
theorem inRanges_of_mem_lowercaseAt (h : Caseless ranges) {d : Char} {preceding following : Text}
    (hd : d ∈ lowercaseAt preceding c following) : inRanges ranges d = inRanges ranges c := by
  unfold lowercaseAt at hd
  split at hd
  · rename_i hsigma
    obtain ⟨hcapital, hsmall⟩ :=
      not_inRanges_of_capital (c := '\u03A3') h (by decide +kernel)
    have hletter : lowercaseLetter '\u03A3' = '\u03C3' := by decide +kernel
    rw [hletter] at hsmall
    obtain rfl := List.mem_singleton.mp hd
    rw [hsigma, hcapital]
    split
    · exact h.2 _ (by simp)
    · exact hsmall
  · split at hd
    · rename_i hdotted
      have hsmall := (not_inRanges_of_capital (c := 'I') h (by decide +kernel)).2
      have hletter : lowercaseLetter 'I' = 'i' := by decide +kernel
      rw [hletter] at hsmall
      rw [hdotted, h.2 '\u0130' (by simp)]
      rcases List.mem_cons.mp hd with rfl | hd
      · exact hsmall
      · obtain rfl := List.mem_singleton.mp hd
        exact h.2 _ (by simp)
    · obtain rfl := List.mem_singleton.mp hd
      exact (lowercaseLetter_of_caseless h c).2

/-- A caseless character comes from itself alone. -/
theorem eq_of_mem_lowercaseAt (h : Caseless ranges) {d : Char} {preceding following : Text}
    (hd : d ∈ lowercaseAt preceding c following) (hr : inRanges ranges d = true) : d = c := by
  rw [inRanges_of_mem_lowercaseAt h hd] at hr
  rw [lowercaseAt_of_caseless h hr] at hd
  exact List.mem_singleton.mp hd

theorem lowercaseAt_ne_nil (preceding : Text) (c : Char) (following : Text) :
    lowercaseAt preceding c following ≠ [] := by
  unfold lowercaseAt
  split
  · simp
  · split <;> simp

/-! ## Blanks and marks -/

/-- The ranges of blank characters. -/
def blankRanges : List CodeRange :=
  [ ⟨0x09, 0x0D⟩, ⟨0x20, 0x20⟩, ⟨0x85, 0x85⟩, ⟨0xA0, 0xA0⟩, ⟨0x1680, 0x1680⟩, ⟨0x2000, 0x200A⟩,
    ⟨0x2028, 0x2029⟩, ⟨0x202F, 0x202F⟩, ⟨0x205F, 0x205F⟩, ⟨0x3000, 0x3000⟩ ]

theorem inRanges_blankRanges (c : Char) : inRanges blankRanges c = isBlank c := by
  rw [Bool.eq_iff_iff, inRanges_iff]
  simp only [blankRanges, isBlank, List.mem_cons, List.not_mem_nil, or_false, exists_eq_or_imp,
    exists_eq_left, Bool.or_eq_true, Bool.and_eq_true, decide_eq_true_eq, beq_iff_eq]
  omega

theorem caseless_blankRanges : Caseless blankRanges := by decide +kernel

theorem lowercaseAt_of_isBlank (h : isBlank c = true) (preceding following : Text) :
    lowercaseAt preceding c following = [c] :=
  lowercaseAt_of_caseless caseless_blankRanges (by rw [inRanges_blankRanges, h]) _ _

theorem isBlank_of_mem_lowercaseAt {d : Char} {preceding following : Text}
    (h : d ∈ lowercaseAt preceding c following) : isBlank d = isBlank c := by
  rw [← inRanges_blankRanges, ← inRanges_blankRanges,
    inRanges_of_mem_lowercaseAt caseless_blankRanges h]

/-- A blank ends a word: it has no case, and it is not passed over. -/
theorem not_isCased_of_isBlank (h : isBlank c = true) :
    isCased c = false ∧ isCaseIgnorable c = false := by
  rw [← inRanges_blankRanges] at h
  exact ⟨inRanges_of_apart (by decide +kernel) h, inRanges_of_apart (by decide +kernel) h⟩

/-! ## What stands around a character -/

theorem leadsWithCased_cons (c : Char) (t : Text) :
    leadsWithCased (c :: t) = if isCaseIgnorable c then leadsWithCased t else isCased c := by
  by_cases h : isCaseIgnorable c <;> simp [leadsWithCased, h]

theorem leadsWithCased_of_isBlank (h : isBlank c = true) (t : Text) :
    leadsWithCased (c :: t) = false := by
  obtain ⟨hcased, hignorable⟩ := not_isCased_of_isBlank h
  simp [leadsWithCased_cons, hcased, hignorable]

/-- What follows a text makes no difference for it if it does not lead with a cased letter. -/
theorem leadsWithCased_append {t : Text} (h : leadsWithCased t = false) (s : Text) :
    leadsWithCased (s ++ t) = leadsWithCased s := by
  induction s with
  | nil => exact h
  | cons c s ih => rw [List.cons_append, leadsWithCased_cons, leadsWithCased_cons, ih]

theorem lowercaseAt_congr {preceding other following behind : Text}
    (hp : leadsWithCased preceding = leadsWithCased other)
    (hf : leadsWithCased following = leadsWithCased behind) (c : Char) :
    lowercaseAt preceding c following = lowercaseAt other c behind := by
  rw [lowercaseAt, lowercaseAt, endsWord, endsWord, hp, hf]

/-- Of what precedes a text, it matters only whether it leads with a cased letter. -/
theorem lowercaseFrom_congr {preceding other : Text}
    (h : leadsWithCased preceding = leadsWithCased other) (t : Text) :
    lowercaseFrom preceding t = lowercaseFrom other t := by
  induction t generalizing preceding other with
  | nil => rfl
  | cons c t ih =>
    have hnext : leadsWithCased (c :: preceding) = leadsWithCased (c :: other) := by
      rw [leadsWithCased_cons, leadsWithCased_cons, h]
    rw [lowercaseFrom, lowercaseFrom, ih hnext, lowercaseAt_congr h rfl]

/-- A text is lowercased apart from what follows if that does not lead with a cased letter. -/
theorem lowercaseFrom_append {t : Text} (h : leadsWithCased t = false) (preceding s : Text) :
    lowercaseFrom preceding (s ++ t)
      = lowercaseFrom preceding s ++ lowercaseFrom (s.reverse ++ preceding) t := by
  induction s generalizing preceding with
  | nil => rfl
  | cons c s ih =>
    rw [List.cons_append, lowercaseFrom, lowercaseFrom, ih,
      lowercaseAt_congr rfl (leadsWithCased_append h s), List.append_assoc, List.reverse_cons,
      List.append_assoc]
    rfl

/-- The last character is lowercased last. -/
theorem lowercaseFrom_concat (preceding t : Text) (c : Char) :
    ∃ init, lowercaseFrom preceding (t ++ [c])
      = init ++ lowercaseAt (t.reverse ++ preceding) c [] := by
  induction t generalizing preceding with
  | nil => exact ⟨[], List.append_nil _⟩
  | cons d t ih =>
    obtain ⟨init, hinit⟩ := ih (d :: preceding)
    refine ⟨lowercaseAt preceding d (t ++ [c]) ++ init, ?_⟩
    rw [List.cons_append, lowercaseFrom, hinit, List.append_assoc, List.reverse_cons,
      List.append_assoc]
    rfl

/-! ## Blanks at the ends -/

theorem lowercaseFrom_cons_of_isBlank (h : isBlank c = true) (preceding t : Text) :
    lowercaseFrom preceding (c :: t) = c :: t.lowercase := by
  have hnone : leadsWithCased (c :: preceding) = leadsWithCased [] :=
    leadsWithCased_of_isBlank h preceding
  rw [lowercaseFrom, lowercaseAt_of_isBlank h, lowercaseFrom_congr hnone]
  rfl

theorem lowercase_concat_of_isBlank (h : isBlank c = true) (t : Text) :
    lowercase (t ++ [c]) = t.lowercase ++ [c] := by
  rw [lowercase, lowercaseFrom_append (leadsWithCased_of_isBlank h []),
    lowercaseFrom_cons_of_isBlank h]
  rfl

theorem trimStart_lowercase (t : Text) : t.lowercase.trimStart = t.trimStart.lowercase := by
  induction t with
  | nil => rfl
  | cons c t ih =>
    cases h : isBlank c with
    | true =>
      rw [lowercase, lowercaseFrom_cons_of_isBlank h, trimStart_cons, if_pos h, trimStart_cons,
        if_pos h, ih]
    | false =>
      obtain ⟨d, more, hd⟩ := List.exists_cons_of_ne_nil (lowercaseAt_ne_nil [] c t)
      have hblank : isBlank d = isBlank c := isBlank_of_mem_lowercaseAt (by rw [hd]; simp)
      have hsplit : lowercase (c :: t) = d :: (more ++ lowercaseFrom [c] t) := by
        rw [lowercase, lowercaseFrom, hd, List.cons_append]
      rw [trimStart_cons c, if_neg (by simp [h]), hsplit, trimStart_cons, if_neg (by simp [hblank, h])]

theorem trimEnd_lowercase (t : Text) : t.lowercase.trimEnd = t.trimEnd.lowercase := by
  induction t using List.reverseRecOn with
  | nil => rfl
  | append_singleton t c ih =>
    cases h : isBlank c with
    | true =>
      rw [lowercase_concat_of_isBlank h, trimEnd_concat_of_isBlank h, trimEnd_concat_of_isBlank h,
        ih]
    | false =>
      obtain ⟨init, hinit⟩ := lowercaseFrom_concat [] t c
      obtain ⟨more, d, hd⟩ := List.eq_nil_or_concat _ |>.resolve_left
        (lowercaseAt_ne_nil (t.reverse ++ []) c [])
      rw [List.concat_eq_append] at hd
      have hblank : isBlank d = isBlank c := isBlank_of_mem_lowercaseAt (by rw [hd]; simp)
      have hsplit : lowercase (t ++ [c]) = (init ++ more) ++ [d] := by
        rw [lowercase, hinit, hd, List.append_assoc]
      rw [trimEnd_eq_self (t := t ++ [c]) (by simp [h]), hsplit,
        trimEnd_eq_self (by simp [hblank, h])]

/-- Blanks at the ends are taken off before or after a text is lowercased. -/
theorem trim_lowercase (t : Text) : t.lowercase.trim = t.trim.lowercase := by
  rw [trim, trimStart_lowercase, trimEnd_lowercase, trim]

end Text

end SchemaGrowth
