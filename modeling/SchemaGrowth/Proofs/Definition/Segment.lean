import Mathlib.Data.List.TakeWhile
import SchemaGrowth.Definition.Canonical
import SchemaGrowth.Proofs.Text.Trim

/-!
# The segments of a definition

A definition is cut from left to right into quoted parts, runs of spaces and single characters.
Squeezing a text makes one space of every run and leaves the other segments alone
(`squeeze_eq_flatMap`), and the squeezed text has the same cuts (`segments_squeeze`), so squeezing
twice is squeezing once.
-/

namespace SchemaGrowth.Definition

/-! ## Cuts -/

/-- A segment of a definition. -/
inductive Segment where
  /-- A text between two marks. -/
  | quoted (mark : Char) (inside : Text)
  /-- A text behind a mark that nothing closes. -/
  | unclosed (mark : Char) (inside : Text)
  /-- A space and some more of them. -/
  | spaces (more : Nat)
  /-- Any other character. -/
  | single (c : Char)
  deriving DecidableEq

namespace Segment

/-- The characters of a segment. -/
def text : Segment → Text
  | quoted mark inside => inside.quoted mark
  | unclosed mark inside => mark :: inside
  | spaces more => ' ' :: List.replicate more ' '
  | single c => [c]

/-- What a segment quotes. -/
def inside : Segment → Text
  | quoted _ inside => inside
  | unclosed _ inside => inside
  | spaces _ | single _ => []

/-- A segment with one space in place of a run. -/
def squeezed : Segment → Segment
  | spaces _ => spaces 0
  | segment => segment

end Segment

theorem isMark_iff {c : Char} : isMark c = true ↔ c = literalMark ∨ c = identifierMark := by
  simp [isMark]

theorem length_after_le (q : Char) (t : Text) : (t.after q).length ≤ t.length := by
  have h := (List.dropWhile_suffix (l := t) (· ≠ q)).length_le
  rw [Text.after, List.length_tail]
  omega

/-- The segments of a text, from left to right. -/
def segments : Text → List Segment
  | [] => []
  | c :: rest =>
    if isMark c then
      if c ∈ rest then .quoted c (Text.before c rest) :: segments (Text.after c rest)
      else [.unclosed c rest]
    else if c = ' ' then
      .spaces (rest.takeWhile (· = ' ')).length :: segments (rest.dropWhile (· = ' '))
    else .single c :: segments rest
termination_by t => t.length
decreasing_by
  · have := length_after_le c rest
    simp only [List.length_cons]
    omega
  · have := (List.dropWhile_suffix (l := rest) (· = ' ')).length_le
    simp only [List.length_cons]
    omega
  · simp

/-- Whether a character stands in a quoted part of a text. -/
def InQuotes (c : Char) (t : Text) : Prop :=
  ∃ segment ∈ segments t, c ∈ segment.inside

theorem segments_closed {c : Char} {rest : Text} (hm : isMark c = true) (hc : c ∈ rest) :
    segments (c :: rest) = .quoted c (rest.before c) :: segments (rest.after c) := by
  rw [segments, if_pos hm, if_pos hc]

theorem segments_unclosed {c : Char} {rest : Text} (hm : isMark c = true) (hc : c ∉ rest) :
    segments (c :: rest) = [.unclosed c rest] := by
  rw [segments, if_pos hm, if_neg hc]

theorem segments_space (rest : Text) :
    segments (' ' :: rest)
      = .spaces (rest.takeWhile (· = ' ')).length :: segments (rest.dropWhile (· = ' ')) := by
  rw [segments, if_neg (by decide), if_pos rfl]

theorem segments_single {c : Char} (hm : isMark c = false) (hs : c ≠ ' ') (rest : Text) :
    segments (c :: rest) = .single c :: segments rest := by
  rw [segments, if_neg (by simp [hm]), if_neg hs]

/-- Cutting loses nothing. -/
theorem flatMap_text_segments (t : Text) : (segments t).flatMap Segment.text = t := by
  fun_induction segments t with
  | case1 => rfl
  | case2 c rest _ hc ih =>
    rw [List.flatMap_cons, ih, Segment.text, Text.quoted]
    simp [Text.before_append_after hc]
  | case3 c rest => simp [Segment.text]
  | case4 rest _ ih =>
    have hrun : List.replicate (rest.takeWhile (· = ' ')).length ' ' = rest.takeWhile (· = ' ') := by
      refine (List.eq_replicate_iff.mpr ⟨rfl, ?_⟩).symm
      intro c hc
      simpa using List.mem_takeWhile_imp hc
    rw [List.flatMap_cons, ih, Segment.text, hrun, List.cons_append, List.takeWhile_append_dropWhile]
  | case5 c rest _ _ ih =>
    rw [List.flatMap_cons, ih]
    rfl

/-! ## Squeezing -/

theorem squeeze_closed {c : Char} {rest : Text} (hm : isMark c = true) (hc : c ∈ rest) :
    squeeze none (c :: rest) = (rest.before c).quoted c ++ squeeze none (rest.after c) := by
  have hs := squeeze_quoted (Text.not_mem_before c rest) (rest.after c)
  rw [Text.before_append_after hc] at hs
  simp [squeeze, hm, hs, Text.quoted]

theorem squeeze_unclosed {c : Char} {rest : Text} (hm : isMark c = true) (hc : c ∉ rest) :
    squeeze none (c :: rest) = c :: rest := by
  simp [squeeze, hm, squeeze_open hc]

theorem squeeze_single {c : Char} (hm : isMark c = false) (hs : c ≠ ' ') (rest : Text) :
    squeeze none (c :: rest) = c :: squeeze none rest := by
  simp [squeeze, hm, hs]

theorem squeeze_space (rest : Text) :
    squeeze none (' ' :: rest) = ' ' :: squeeze none (rest.dropWhile (· = ' ')) := by
  have hm : isMark ' ' = false := by decide
  induction rest with
  | nil => simp [squeeze, hm]
  | cons d rest ih =>
    by_cases hd : d = ' '
    · subst hd
      have hstep : squeeze none (' ' :: ' ' :: rest) = squeeze none (' ' :: rest) := by
        simp [squeeze, hm]
      rw [hstep, ih]
      simp
    · have hstep : squeeze none (' ' :: d :: rest) = ' ' :: squeeze none (d :: rest) := by
        rw [squeeze]
        simp [hm, hd]
      rw [hstep]
      simp [hd]

/-- A space goes if another one follows it. -/
theorem squeeze_space_of_head? {rest : Text} (h : rest.head? = some ' ') :
    squeeze none (' ' :: rest) = squeeze none rest := by
  rw [squeeze, if_neg (by decide), if_pos ⟨rfl, h⟩]

/-- A space stays if no other one follows it. -/
theorem squeeze_space_of_head?_ne {rest : Text} (h : rest.head? ≠ some ' ') :
    squeeze none (' ' :: rest) = ' ' :: squeeze none rest := by
  rw [squeeze, if_neg (by decide), if_neg (fun hs => h hs.2)]

/-- Squeezing makes one space of every run of them and leaves the other segments alone. -/
theorem squeeze_eq_flatMap (t : Text) :
    squeeze none t = (segments t).flatMap fun segment => segment.squeezed.text := by
  fun_induction segments t with
  | case1 => rfl
  | case2 c rest hm hc ih =>
    rw [squeeze_closed hm hc, ih]
    rfl
  | case3 c rest hm hc =>
    rw [squeeze_unclosed hm hc]
    simp [Segment.squeezed, Segment.text]
  | case4 rest hm ih =>
    rw [squeeze_space, ih]
    rfl
  | case5 c rest hm hs ih =>
    rw [squeeze_single (by simpa using hm) hs, ih]
    rfl

/-- Squeezing keeps a character, or it lets a space go that another one follows. -/
theorem squeeze_induction {motive : Text → Text → Prop} (nil : motive [] [])
    (kept : ∀ c s t, motive s t → motive (c :: s) (c :: t))
    (gone : ∀ s t, motive s (' ' :: t) → motive s (' ' :: ' ' :: t)) (mark : Option Char)
    (t : Text) : motive (squeeze mark t) t := by
  induction t generalizing mark with
  | nil =>
    rw [squeeze_nil]
    exact nil
  | cons c rest ih =>
    cases mark with
    | some mark => exact kept c _ _ (ih _)
    | none =>
      rw [squeeze]
      split
      · exact kept c _ _ (ih _)
      · split
        · rename_i hs
          obtain ⟨rfl, hspace⟩ := hs
          obtain ⟨more, rfl⟩ := List.head?_eq_some_iff.mp hspace
          exact gone _ more (ih none)
        · exact kept c _ _ (ih _)

@[simp] theorem head?_squeeze (mark : Option Char) (t : Text) :
    (squeeze mark t).head? = t.head? := by
  refine squeeze_induction (motive := fun s t => s.head? = t.head?) rfl (fun _ _ _ _ => rfl)
    (fun s t h => ?_) mark t
  rw [h, List.head?_cons, List.head?_cons]

/-- A squeezed text has the same cuts. -/
theorem segments_squeeze (t : Text) :
    segments (squeeze none t) = (segments t).map Segment.squeezed := by
  fun_induction segments t with
  | case1 => simp [segments]
  | case2 c rest hm hc ih =>
    have hsplit : (Text.before c rest).quoted c ++ squeeze none (Text.after c rest)
        = c :: (Text.before c rest ++ c :: squeeze none (Text.after c rest)) := by
      simp [Text.quoted]
    have hb := Text.not_mem_before c rest
    rw [squeeze_closed hm hc, hsplit, segments_closed hm (by simp), Text.before_append hb,
      Text.after_append hb, ih]
    rfl
  | case3 c rest hm hc =>
    rw [squeeze_unclosed hm hc, segments_unclosed hm hc]
    rfl
  | case4 rest hm ih =>
    -- The run behind the first space is gone, and what follows does not start with a space.
    have hhead : ∀ c ∈ (squeeze none (rest.dropWhile (· = ' '))).head?, c ≠ ' ' := by
      intro c hc
      rw [head?_squeeze] at hc
      have := List.head?_dropWhile_not (· = ' ') rest
      rw [hc] at this
      simpa using this
    have htake : (squeeze none (rest.dropWhile (· = ' '))).takeWhile (· = ' ') = [] := by
      cases hd : squeeze none (rest.dropWhile (· = ' ')) with
      | nil => rfl
      | cons c more =>
        rw [hd] at hhead
        simp [hhead c rfl]
    have hdrop : (squeeze none (rest.dropWhile (· = ' '))).dropWhile (· = ' ')
        = squeeze none (rest.dropWhile (· = ' ')) := by
      cases hd : squeeze none (rest.dropWhile (· = ' ')) with
      | nil => rfl
      | cons c more =>
        rw [hd] at hhead
        simp [hhead c rfl]
    rw [squeeze_space, segments_space, htake, hdrop, ih]
    rfl
  | case5 c rest hm hs ih =>
    rw [squeeze_single (by simpa using hm) hs, segments_single (by simpa using hm) hs, ih]
    rfl

theorem Segment.squeezed_squeezed (segment : Segment) :
    segment.squeezed.squeezed = segment.squeezed := by
  cases segment <;> rfl

theorem squeeze_squeeze (t : Text) : squeeze none (squeeze none t) = squeeze none t := by
  rw [squeeze_eq_flatMap (squeeze none t), segments_squeeze, List.flatMap_map, squeeze_eq_flatMap t]
  simp only [Segment.squeezed_squeezed]

end SchemaGrowth.Definition
