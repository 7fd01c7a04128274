import Mathlib.Data.List.Forall2
import SchemaGrowth.Proofs.Json.Delimited

/-!
# JSON text without its layout

`bare` deletes the spaces and the line breaks of a JSON text that are outside of literals. A text
spaces out another one (`Spaces`) if a scan that comes to it outside of literals leaves that other
one, and goes on outside of literals behind it. Every literal spaces out itself, since nothing is
deleted in it, and from there it goes up through groups (`Spaces.array`, `Spaces.object`).
-/

namespace SchemaGrowth.Json

/-! ## The scan -/

/-- Where a scan of a JSON text stands. -/
inductive Place where
  | outside
  | literal
  /-- Behind a backslash in a literal. -/
  | escaped
  deriving DecidableEq

/-- Where a scan stands behind a character. -/
def Place.next : Place → Char → Place
  | outside, c => if c = '"' then literal else outside
  | literal, c => if c = '"' then outside else if c = '\\' then escaped else literal
  | escaped, _ => literal

/-- What a scan leaves of a text: all but the spaces and line breaks outside of literals. -/
def bareFrom : Place → Text → Text
  | _, [] => []
  | place, c :: t =>
    if place = .outside ∧ (c = ' ' ∨ c = '\n') then bareFrom place t
    else c :: bareFrom (place.next c) t

/-- A text without the spaces and line breaks outside of literals. -/
def bare (t : Text) : Text :=
  bareFrom .outside t

theorem bareFrom_blank {c : Char} (h : c = ' ' ∨ c = '\n') (t : Text) :
    bareFrom .outside (c :: t) = bareFrom .outside t := by
  rw [bareFrom, if_pos ⟨rfl, h⟩]

theorem bareFrom_mark {c : Char} (h : ¬ (c = ' ' ∨ c = '\n')) (t : Text) :
    bareFrom .outside (c :: t) = c :: bareFrom (Place.outside.next c) t := by
  rw [bareFrom, if_neg fun hc => h hc.2]

theorem bareFrom_kept {place : Place} (h : place ≠ .outside) (c : Char) (t : Text) :
    bareFrom place (c :: t) = c :: bareFrom (place.next c) t := by
  rw [bareFrom, if_neg fun hc => h hc.1]

/-! ## Literals -/

theorem bareFrom_plain {c : Char} (hquote : c ≠ '"') (hbackslash : c ≠ '\\') (t : Text) :
    bareFrom .literal (c :: t) = c :: bareFrom .literal t := by
  rw [bareFrom_kept (by decide), Place.next, if_neg hquote, if_neg hbackslash]

theorem bareFrom_backslash (c : Char) (t : Text) :
    bareFrom .literal ('\\' :: c :: t) = '\\' :: c :: bareFrom .literal t := by
  have hescaped : Place.literal.next '\\' = .escaped := by decide
  rw [bareFrom_kept (by decide), hescaped, bareFrom_kept (by decide), Place.next]

theorem bareFrom_digit {n : Nat} (h : n < 16) (t : Text) :
    bareFrom .literal (Nat.digitChar n :: t) = Nat.digitChar n :: bareFrom .literal t := by
  have hall : ∀ d : Fin 16, Nat.digitChar d ≠ '"' ∧ Nat.digitChar d ≠ '\\' := by decide
  exact bareFrom_plain (hall ⟨n, h⟩).1 (hall ⟨n, h⟩).2 t

/-- A character is kept as it is escaped, and does not end the literal. -/
theorem bareFrom_escape (c : Char) (t : Text) :
    bareFrom .literal (escape c ++ t) = escape c ++ bareFrom .literal t := by
  unfold escape
  split_ifs with hquote hbackslash
  · exact bareFrom_backslash _ t
  · exact bareFrom_backslash _ t
  · exact bareFrom_backslash _ t
  · exact bareFrom_backslash _ t
  · exact bareFrom_backslash _ t
  · exact bareFrom_backslash _ t
  · exact bareFrom_backslash _ t
  · have hzero : '0' ≠ '"' ∧ '0' ≠ '\\' := by decide
    simp only [Text.hexPair, List.cons_append, List.nil_append]
    rw [bareFrom_backslash, bareFrom_plain hzero.1 hzero.2, bareFrom_plain hzero.1 hzero.2,
      bareFrom_digit (Nat.mod_lt _ (by decide)), bareFrom_digit (Nat.mod_lt _ (by decide))]
  · exact bareFrom_plain hquote hbackslash t

/-! ## Spaced texts -/

/-- The first text is the second one with spaces and line breaks in it, all outside of literals. -/
def Spaces (x y : Text) : Prop :=
  ∀ t, bareFrom .outside (x ++ t) = y ++ bareFrom .outside t

namespace Spaces

variable {x y u v : Text}

theorem bare_eq (h : Spaces x y) : bare x = y := by
  have hend := h []
  rwa [List.append_nil, bareFrom, List.append_nil] at hend

theorem nil : Spaces [] [] :=
  fun _ => rfl

theorem append (h : Spaces x y) (h' : Spaces u v) : Spaces (x ++ u) (y ++ v) := by
  intro t
  rw [List.append_assoc, h, h', List.append_assoc]

theorem cons {c : Char} (hc : c ∉ [' ', '\n', '"']) (h : Spaces x y) :
    Spaces (c :: x) (c :: y) := by
  simp only [List.mem_cons, List.not_mem_nil, or_false, not_or] at hc
  obtain ⟨hspace, hfeed, hquote⟩ := hc
  intro t
  rw [List.cons_append, bareFrom_mark (by simp [hspace, hfeed]), Place.next, if_neg hquote, h,
    List.cons_append]

theorem blank {c : Char} (hblank : c = ' ' ∨ c = '\n') (h : Spaces x y) : Spaces (c :: x) y := by
  intro t
  rw [List.cons_append, bareFrom_blank hblank, h]

theorem indent (n : Nat) : Spaces (List.replicate n ' ') [] := by
  induction n with
  | zero => exact nil
  | succ n ih => exact blank (.inl rfl) ih

/-- A literal is the same in every layout. -/
theorem string (a : Text) : Spaces (string a) (Json.string a) := by
  have hinside : ∀ t, bareFrom .literal (a.flatMap escape ++ '"' :: t)
      = a.flatMap escape ++ '"' :: bareFrom .outside t := by
    intro t
    induction a with
    | nil => rw [List.flatMap_nil, List.nil_append, bareFrom_kept (by decide)]; rfl
    | cons c a ih =>
      rw [List.flatMap_cons, List.append_assoc, bareFrom_escape, ih, List.append_assoc]
  intro t
  have hopen : Place.outside.next '"' = .literal := by decide
  simp only [Json.string, List.cons_append, List.append_assoc, List.nil_append]
  rw [bareFrom_mark (by decide), hopen, hinside]

end Spaces

/-! ## Layouts -/

/-- A layout that sets parts apart by nothing but spaces and line breaks. -/
structure Layout.Blank (layout : Layout) : Prop where
  lineBreak : ∀ depth, Spaces (layout.lineBreak depth) []
  colon : Spaces layout.colon [':']

theorem blank_compact : compact.Blank :=
  ⟨fun _ => .nil, .cons (by decide) .nil⟩

theorem blank_pretty : pretty.Blank :=
  ⟨fun depth => .blank (.inr rfl) (.indent (2 * depth)),
    .cons (by decide) (.blank (.inl rfl) .nil)⟩

namespace Spaces

variable {layout : Layout} {items others : List Text}

theorem intercalate (hlayout : layout.Blank) (h : List.Forall₂ Spaces items others) (depth : Nat) :
    Spaces ([','].intercalate (items.map (layout.lineBreak depth ++ ·)))
      ([','].intercalate others) := by
  induction h with
  | nil => exact nil
  | @cons item other items others hitem hitems ih =>
    have hfirst : Spaces (layout.lineBreak depth ++ item) other :=
      (hlayout.lineBreak depth).append hitem
    cases hitems with
    | nil => simpa using hfirst
    | @cons second third _ _ _ _ =>
      have hcomma : Spaces [','] [','] := nil.cons (by decide)
      rw [List.map_cons, List.map_cons, List.intercalate_cons_cons, List.intercalate_cons_cons]
      exact (hfirst.append hcomma).append ih

/-- A group is laid out around items that are. -/
theorem group (hlayout : layout.Blank) (h : List.Forall₂ Spaces items others)
    {opening closing : Char} (hopening : opening ∉ [' ', '\n', '"'])
    (hclosing : closing ∉ [' ', '\n', '"']) (m n : Nat) :
    Spaces (layout.group opening closing m items) (compact.group opening closing n others) := by
  have hend : Spaces [closing] [closing] := cons hclosing nil
  rw [compact_group, Layout.group]
  cases h with
  | nil => exact cons hopening hend
  | cons hitem hitems =>
    have hitems := intercalate hlayout (.cons hitem hitems) (m + 1)
    have hbreak := (hlayout.lineBreak m).append hend
    simpa using cons hopening (hitems.append hbreak)

theorem array {α : Type} (hlayout : layout.Blank) {f g : α → Text} {l : List α}
    (h : ∀ a ∈ l, Spaces (f a) (g a)) (m n : Nat) :
    Spaces (layout.array m (l.map f)) (compact.array n (l.map g)) := by
  refine group hlayout ?_ (by decide) (by decide) m n
  exact List.forall₂_map_left_iff.mpr (List.forall₂_map_right_iff.mpr (List.forall₂_same.mpr h))

theorem object (hlayout : layout.Blank) {members others : List (Text × Text)}
    (h : List.Forall₂ (fun a b => a.1 = b.1 ∧ Spaces a.2 b.2) members others) (m n : Nat) :
    Spaces (layout.object m members) (compact.object n others) := by
  refine group hlayout ?_ (by decide) (by decide) m n
  refine List.forall₂_map_left_iff.mpr (List.forall₂_map_right_iff.mpr (h.imp ?_))
  rintro ⟨key, value⟩ ⟨_, value'⟩ ⟨rfl, hvalue⟩
  exact ((string key).append hlayout.colon).append hvalue

end Spaces

end SchemaGrowth.Json
