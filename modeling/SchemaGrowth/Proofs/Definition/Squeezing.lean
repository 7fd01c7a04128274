import Mathlib.Data.List.Chain
import SchemaGrowth.Proofs.Definition.Canonical
import SchemaGrowth.Proofs.Definition.Quoting
import SchemaGrowth.Proofs.Text.Pattern

/-!
# What a canonical form keeps

A canonical form is what a search for quoted parts and runs of spaces makes of a trimmed text:
`replaces_iff` says that squeezing is just that search. So it can be read off the segments of the
text, and the segments can be read off it again, but for the lengths of the runs
(`canonical_segments`).
-/

namespace SchemaGrowth.Definition

open Pattern

/-! ## The search -/

/-- A quoted part, up to the mark that closes it or to the end of the text. -/
def quotedPattern (mark : Char) : Pattern :=
  .seq (.one (· = mark)) (.seq (.many (· ≠ mark)) (.either (.one (· = mark)) .atEnd))

/-- Two spaces or more. -/
def runPattern : Pattern :=
  .seq (.one (· = ' ')) (.seq (.one (· = ' ')) (.many (· = ' ')))

/-- What the search looks for. -/
def partPattern : Pattern :=
  .either (.either (quotedPattern literalMark) (quotedPattern identifierMark)) runPattern

/-- What the search puts in the place of a part: one space for a run of them, and a quoted part as
it is. -/
def oneSpace (part : Text) : Text :=
  if part.head? = some ' ' then [' '] else part

theorem isMark_space : isMark ' ' = false := by decide

theorem match?_quotedPattern_ne {mark c : Char} (h : c ≠ mark) (rest : Text) :
    (quotedPattern mark).match? (c :: rest) = none := by
  rw [quotedPattern, match?_one_seq, if_neg (by simpa using h)]

theorem match?_quotedPattern_closed {mark : Char} {rest : Text} (h : mark ∈ rest) :
    (quotedPattern mark).match? (mark :: rest)
      = some ((Text.before mark rest).quoted mark, Text.after mark rest) := by
  have hsplit : Text.before mark rest ++ rest.dropWhile (· ≠ mark)
      = Text.before mark rest ++ mark :: Text.after mark rest := by
    rw [Text.before_append_after h]
    exact List.takeWhile_append_dropWhile
  have hdrop : rest.dropWhile (· ≠ mark) = mark :: Text.after mark rest :=
    List.append_cancel_left hsplit
  have hclose : (either (one (· = mark)) atEnd).match? (rest.dropWhile (· ≠ mark))
      = some ([mark], Text.after mark rest) := by
    rw [hdrop, match?_either, match?_one_cons, if_pos (by simp)]
    rfl
  rw [quotedPattern, match?_one_seq, if_pos (by simp), match?_many_seq hclose]
  rfl

theorem match?_quotedPattern_unclosed {mark : Char} {rest : Text} (h : mark ∉ rest) :
    (quotedPattern mark).match? (mark :: rest) = some (mark :: rest, []) := by
  have htake : rest.takeWhile (· ≠ mark) = rest := Text.before_of_not_mem h
  have hsplit : rest.takeWhile (· ≠ mark) ++ rest.dropWhile (· ≠ mark) = rest :=
    List.takeWhile_append_dropWhile
  have hdrop : rest.dropWhile (· ≠ mark) = [] := by
    rwa [htake, List.append_right_eq_self] at hsplit
  have hclose : (either (one (· = mark)) atEnd).match? (rest.dropWhile (· ≠ mark))
      = some ([], []) := by
    rw [hdrop]
    rfl
  rw [quotedPattern, match?_one_seq, if_pos (by simp), match?_many_seq hclose, htake]
  simp

theorem match?_runPattern_cons {c : Char} (h : c ≠ ' ') (rest : Text) :
    runPattern.match? (c :: rest) = none := by
  rw [runPattern, match?_one_seq, if_neg (by simpa using h)]

/-- A quoted part is looked for before a run of spaces. -/
theorem match?_partPattern_mark {mark : Char} (h : isMark mark = true) (rest : Text) :
    partPattern.match? (mark :: rest) = (quotedPattern mark).match? (mark :: rest) := by
  have hrun : runPattern.match? (mark :: rest) = none := by
    refine match?_runPattern_cons ?_ rest
    rintro rfl
    cases h
  rcases isMark_iff.mp h with rfl | rfl
  · have hother : (quotedPattern identifierMark).match? (literalMark :: rest) = none :=
      match?_quotedPattern_ne (by decide) rest
    rw [partPattern, match?_either, match?_either, hother, hrun, Option.or_none, Option.or_none]
  · have hother : (quotedPattern literalMark).match? (identifierMark :: rest) = none :=
      match?_quotedPattern_ne (by decide) rest
    rw [partPattern, match?_either, match?_either, hother, hrun, Option.none_or, Option.or_none]

theorem match?_partPattern_unmarked {c : Char} (h : isMark c = false) (rest : Text) :
    partPattern.match? (c :: rest) = runPattern.match? (c :: rest) := by
  have hliteral : c ≠ literalMark := by
    rintro rfl
    cases h
  have hidentifier : c ≠ identifierMark := by
    rintro rfl
    cases h
  rw [partPattern, match?_either, match?_either, match?_quotedPattern_ne hliteral,
    match?_quotedPattern_ne hidentifier, Option.none_or, Option.none_or]

theorem match?_partPattern_spaces (rest : Text) :
    partPattern.match? (' ' :: ' ' :: rest)
      = some (' ' :: ' ' :: rest.takeWhile (· = ' '), rest.dropWhile (· = ' ')) := by
  rw [match?_partPattern_unmarked isMark_space, runPattern, match?_one_seq, if_pos (by simp),
    match?_one_seq, if_pos (by simp), match?_many]
  rfl

/-- A single space is left alone. -/
theorem match?_partPattern_space {rest : Text} (h : rest.head? ≠ some ' ') :
    partPattern.match? (' ' :: rest) = none := by
  rw [match?_partPattern_unmarked isMark_space, runPattern, match?_one_seq, if_pos (by simp)]
  cases rest with
  | nil => rfl
  | cons c rest =>
    have hc : c ≠ ' ' := by simpa using h
    rw [match?_one_seq, if_neg (by simpa using hc)]
    rfl

theorem oneSpace_mark {mark : Char} (h : isMark mark = true) (rest : Text) :
    oneSpace (mark :: rest) = mark :: rest := by
  refine if_neg ?_
  intro hs
  obtain rfl : mark = ' ' := by simpa using hs
  cases h

theorem replaces_squeeze (t : Text) : partPattern.Replaces oneSpace t (squeeze none t) := by
  fun_induction segments t with
  | case1 => exact .nil
  | case2 c rest hm hc ih =>
    have hmatch := (match?_partPattern_mark hm rest).trans (match?_quotedPattern_closed hc)
    have hreplaced := Replaces.replaced hmatch ih
    rw [oneSpace_mark hm] at hreplaced
    rw [squeeze_closed hm hc]
    exact hreplaced
  | case3 c rest hm hc =>
    have hmatch := (match?_partPattern_mark hm rest).trans (match?_quotedPattern_unclosed hc)
    have hreplaced := Replaces.replaced hmatch (@Replaces.nil partPattern oneSpace)
    rw [oneSpace_mark hm, List.append_nil] at hreplaced
    rw [squeeze_unclosed hm hc]
    exact hreplaced
  | case4 rest hm ih =>
    rw [squeeze_space]
    by_cases hs : rest.head? = some ' '
    · obtain ⟨more, rfl⟩ := List.head?_eq_some_iff.mp hs
      exact .replaced (match?_partPattern_spaces more) (by simpa using ih)
    · have hdrop : rest.dropWhile (· = ' ') = rest := by
        cases rest with
        | nil => rfl
        | cons d more => exact List.dropWhile_cons_of_neg (by simpa using hs)
      rw [hdrop] at ih ⊢
      exact .copied (match?_partPattern_space hs) ih
  | case5 c rest hm hs ih =>
    have hm' : isMark c = false := by simpa using hm
    rw [squeeze_single hm' hs]
    exact .copied ((match?_partPattern_unmarked hm' rest).trans (match?_runPattern_cons hs rest)) ih

/-- Squeezing is the search, whatever machine makes it. -/
theorem replaces_iff {t out : Text} :
    partPattern.Replaces oneSpace t out ↔ out = squeeze none t := by
  constructor
  · intro h
    exact h.unique (replaces_squeeze t)
  · rintro rfl
    exact replaces_squeeze t

/-! ## Spaces side by side -/

/-- Whether two neighbours in a text are spaces outside quotes. -/
def SpacesOutside (c d : Char × Option Char) : Prop :=
  c = (' ', none) ∧ d = (' ', none)

theorem isChain_quoted_append (mark : Char) (s : Text) {rest : List (Char × Option Char)}
    (h : rest.IsChain (¬ SpacesOutside · ·)) :
    (s.map (·, some mark) ++ rest).IsChain (¬ SpacesOutside · ·) := by
  induction s with
  | nil => exact h
  | cons c s ih => exact ih.cons fun d _ hs => by simp [SpacesOutside] at hs

/-- Outside quotes no two spaces of a squeezed text stand side by side. -/
theorem isChain_quoting_squeeze (t : Text) :
    (quoting (squeeze none t)).IsChain (¬ SpacesOutside · ·) := by
  induction t using quoted_induction with
  | nil => simp
  | closed mark s t hm h ih =>
    rw [squeeze_closed hm (by simp), Text.before_append h, Text.after_append h, Text.quoted,
      List.cons_append, List.append_assoc, List.singleton_append, quoting_closed hm h]
    exact isChain_quoted_append mark _ ih
  | unclosed mark s hm h =>
    rw [squeeze_unclosed hm h, quoting_unclosed hm h, ← List.append_nil (List.map _ _)]
    exact isChain_quoted_append mark _ .nil
  | unmarked c t hm ih =>
    -- A space that another one follows is gone, so what follows a space that is kept is none.
    by_cases hs : c = ' ' ∧ t.head? = some ' '
    · obtain ⟨rfl, hspace⟩ := hs
      rw [squeeze_space_of_head? hspace]
      exact ih
    · have hkept : squeeze none (c :: t) = c :: squeeze none t := by
        rw [squeeze, if_neg (by simp [hm]), if_neg hs]
      rw [hkept, quoting_cons hm]
      refine ih.cons ?_
      rintro d hd ⟨hc, rfl⟩
      refine hs ⟨by simpa using hc, ?_⟩
      have hhead := congrArg (Option.map Prod.fst) (Option.mem_def.mp hd)
      rwa [← List.head?_map, map_fst_quoting, head?_squeeze] at hhead

/-! ## Canonical forms -/

/-- Segments that are the same, or are both runs of spaces. -/
def Segment.SameButRun (one other : Segment) : Prop :=
  one = other ∨ ∃ more fewer, one = .spaces more ∧ other = .spaces fewer

theorem Segment.squeezed_eq_iff {one other : Segment} :
    one.squeezed = other.squeezed ↔ one.SameButRun other := by
  cases one <;> cases other <;> simp [Segment.squeezed, Segment.SameButRun]

theorem map_squeezed_eq_iff {segments others : List Segment} :
    segments.map Segment.squeezed = others.map Segment.squeezed
      ↔ List.Forall₂ Segment.SameButRun segments others := by
  rw [← List.forall₂_eq_eq_eq, List.forall₂_map_left_iff, List.forall₂_map_right_iff]
  constructor
  · exact fun h => h.imp fun _ _ hs => Segment.squeezed_eq_iff.mp hs
  · exact fun h => h.imp fun _ _ hs => Segment.squeezed_eq_iff.mpr hs

theorem Segment.mark?_squeezed (segment : Segment) : segment.squeezed.mark? = segment.mark? := by
  cases segment <;> rfl

/-- Only runs of spaces are squeezed. -/
theorem Segment.squeezed_of_mark? {segment : Segment} (h : segment.mark?.isSome = true) :
    segment.squeezed = segment := by
  cases segment with
  | spaces more => cases h
  | quoted | unclosed | single => rfl

theorem filter_mark?_map_squeezed (segments : List Segment) :
    (segments.map Segment.squeezed).filter (·.mark?.isSome)
      = segments.filter (·.mark?.isSome) := by
  rw [List.filter_map]
  simp only [Function.comp_def, Segment.mark?_squeezed]
  refine (List.map_congr_left ?_).trans (List.map_id _)
  exact fun segment hs => Segment.squeezed_of_mark? (List.mem_filter.mp hs).2

theorem trim_canonical (definition : Text) : (canonical definition).trim = canonical definition :=
  Text.trim_eq_self (noLeadingBlank_canonical definition) (noTrailingBlank_canonical definition)

theorem canonical_canonical (definition : Text) :
    canonical (canonical definition) = canonical definition := by
  rw [canonical, trim_canonical, squeeze_canonical]

/-- **A canonical form is a trimmed text with one space for every run.** It is what the search for
quoted parts and runs makes of the text, trimmed again, and its segments are those of the text but
for the runs. So it is its own canonical form, every quoted part is found in it as it was, no two
spaces stand side by side outside quotes and no blank at an end; and definitions have one canonical
form exactly if they have the same segments but for the lengths of their runs. -/
theorem canonical_segments (definition : Text) :
    (∀ out, partPattern.Replaces oneSpace definition.trim out ↔ out = canonical definition)
    ∧ (canonical definition).trim = canonical definition
    ∧ (segments definition.trim).flatMap Segment.text = definition.trim
    ∧ canonical definition
        = (segments definition.trim).flatMap (fun segment => segment.squeezed.text)
    ∧ segments (canonical definition) = (segments definition.trim).map Segment.squeezed
    ∧ canonical (canonical definition) = canonical definition
    ∧ (segments (canonical definition)).filter (·.mark?.isSome)
        = (segments definition.trim).filter (·.mark?.isSome)
    ∧ (quoting (canonical definition)).IsChain (¬ SpacesOutside · ·)
    ∧ (canonical definition).NoLeadingBlank ∧ (canonical definition).NoTrailingBlank
    ∧ ∀ other, canonical definition = canonical other
        ↔ List.Forall₂ Segment.SameButRun (segments definition.trim) (segments other.trim) := by
  refine ⟨fun out => replaces_iff, trim_canonical definition, flatMap_text_segments _,
    squeeze_eq_flatMap _, segments_squeeze _, canonical_canonical definition, ?_,
    isChain_quoting_squeeze _, noLeadingBlank_canonical definition,
    noTrailingBlank_canonical definition, ?_⟩
  · rw [canonical, segments_squeeze, filter_mark?_map_squeezed]
  · intro other
    rw [← map_squeezed_eq_iff]
    constructor
    · intro h
      rw [← segments_squeeze, ← segments_squeeze]
      exact congrArg segments h
    · intro h
      have htext := congrArg (List.flatMap Segment.text) h
      rwa [List.flatMap_map, List.flatMap_map, ← squeeze_eq_flatMap, ← squeeze_eq_flatMap] at htext

/-- A mark of one kind closes nothing that the other kind opened. -/
example : canonical "  a  \x60b  'c\x60   'd  \x60  ".toList
    = "a \x60b  'c\x60 'd  \x60".toList := by
  decide +kernel

end SchemaGrowth.Definition
