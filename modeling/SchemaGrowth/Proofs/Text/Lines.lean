import SchemaGrowth.Proofs.Text.Enclosed
import SchemaGrowth.Text.Lines

/-!
# Lines and words

Lines that are written one below the other are read back, but for a carriage return at the end of a
line (`lines_unlines_append`). A word is looked for on both sides of a character that it does not
hold (`hasWord_append_cons`), so it can be looked for in the parts that a line is made of.
-/

namespace SchemaGrowth.Text

/-! ## Last characters -/

theorem prefix_dropLastIf (t : Text) (q : Char) : t.dropLastIf q <+: t := by
  unfold dropLastIf
  split
  · exact List.dropLast_prefix t
  · exact List.prefix_refl t

theorem dropLastIf_concat (t : Text) (q : Char) : dropLastIf (t ++ [q]) q = t := by
  simp [dropLastIf]

theorem dropLastIf_eq_self {t : Text} {q : Char} : t.dropLastIf q = t ↔ t.getLast? ≠ some q := by
  unfold dropLastIf
  split
  · rename_i h
    have hne : t ≠ [] := by
      rintro rfl
      simp at h
    have hlt : t.dropLast.length < t.length := by
      have := List.length_pos_iff.mpr hne
      rw [List.length_dropLast]
      omega
    constructor
    · intro he
      rw [he] at hlt
      omega
    · intro hn
      exact absurd h hn
  · rename_i h
    exact ⟨fun _ => h, fun _ => rfl⟩

theorem dropLastIf_append {t : Text} (h : t ≠ []) (s : Text) (q : Char) :
    dropLastIf (s ++ t) q = s ++ t.dropLastIf q := by
  have hlast : (s ++ t).getLast? = t.getLast? := by
    rw [List.getLast?_append, List.getLast?_eq_some_getLast h, Option.some_or]
  unfold dropLastIf
  rw [hlast, List.dropLast_append_of_ne_nil h]
  split <;> rfl

/-! ## Lines -/

theorem not_mem_of_mem_linesOfPieces {c : Char} {pieces : List Text}
    (h : ∀ piece ∈ pieces, c ∉ piece) {line : Text} (hl : line ∈ linesOfPieces pieces) :
    c ∉ line := by
  fun_induction linesOfPieces pieces with
  | case1 => cases hl
  | case2 => cases hl
  | case3 last =>
    obtain rfl := List.mem_singleton.mp hl
    exact h line (by simp)
  | case4 piece rest _ ih =>
    rcases List.mem_cons.mp hl with rfl | hl
    · intro hc
      exact h piece (by simp) ((prefix_dropLastIf piece '\r').subset hc)
    · exact ih (fun p hp => h p (List.mem_cons_of_mem _ hp)) hl

/-- No line holds a line feed. -/
theorem not_mem_of_mem_lines {t line : Text} (h : line ∈ t.lines) : '\n' ∉ line :=
  not_mem_of_mem_linesOfPieces (fun _ hp => (mem_splitOn hp).1) h

/-- Lines one below the other, each with its end. -/
def unlines (lines : List Text) : Text :=
  lines.flatMap (· ++ ['\n'])

theorem unlines_cons (line : Text) (lines : List Text) :
    unlines (line :: lines) = line ++ '\n' :: unlines lines := by
  simp [unlines]

theorem unlines_append (first second : List Text) :
    unlines (first ++ second) = unlines first ++ unlines second := by
  simp [unlines]

/-- Written lines are read back, each without one carriage return at its end. -/
theorem lines_unlines_append {lines : List Text} (h : ∀ line ∈ lines, '\n' ∉ line) (t : Text) :
    (unlines lines ++ t).lines = lines.map (·.dropLastIf '\r') ++ t.lines := by
  induction lines with
  | nil => rfl
  | cons line rest ih =>
    rw [unlines_cons, List.append_assoc, List.cons_append, lines_append (h line (by simp)),
      ih fun l hl => h l (List.mem_cons_of_mem _ hl)]
    rfl

/-! ## Words -/

theorem hasWord_of_isInfix {s t word : Text} (h : s <:+: t) (hw : t.hasWord word = false) :
    s.hasWord word = false := by
  rw [Bool.eq_false_iff] at hw ⊢
  intro hs
  exact hw (hasWord_iff.mpr ((hasWord_iff.mp hs).trans h))

/-- A word does not start with a character that is not its first. -/
theorem hasWord_cons {c : Char} {word : Text} (h : word.head? ≠ some c) (hne : word ≠ [])
    (t : Text) : hasWord (c :: t) word = hasWord t word := by
  cases word with
  | nil => exact absurd rfl hne
  | cons d word =>
    have hd : d ≠ c := by simpa using h
    simp [hasWord, List.isPrefixOf, hd]

theorem prefix_append_cons {c : Char} {word : Text} (h : c ∉ word) (s t : Text) :
    word <+: s ++ c :: t ↔ word <+: s := by
  constructor
  · intro hw
    rcases Nat.lt_or_ge s.length word.length with hlt | hle
    · have hc : s ++ [c] <+: word := by
        refine List.prefix_of_prefix_length_le ⟨t, by simp⟩ hw ?_
        simp only [List.length_append, List.length_singleton]
        omega
      exact absurd (hc.subset (by simp)) h
    · exact List.prefix_of_prefix_length_le hw (List.prefix_append s _) hle
  · intro hw
    exact hw.trans (List.prefix_append s _)

/-- A word that does not hold a character stands before it or behind it. -/
theorem hasWord_append_cons {c : Char} {word : Text} (h : c ∉ word) (hne : word ≠ []) (s t : Text) :
    hasWord (s ++ c :: t) word = (hasWord s word || hasWord t word) := by
  induction s with
  | nil =>
    have hhead : word.head? ≠ some c := fun e => h (List.mem_of_mem_head? e)
    rw [List.nil_append, hasWord_cons hhead hne]
    simp [hasWord, hne]
  | cons d s ih =>
    have hpre : word.isPrefixOf (d :: (s ++ c :: t)) = word.isPrefixOf (d :: s) := by
      rw [Bool.eq_iff_iff, List.isPrefixOf_iff_prefix, List.isPrefixOf_iff_prefix]
      exact prefix_append_cons h (d :: s) t
    rw [List.cons_append, hasWord, hasWord, hpre, ih, Bool.or_assoc]

end SchemaGrowth.Text
