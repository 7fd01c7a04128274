import Mathlib.Data.List.Basic
import SchemaGrowth.Json

/-!
# Where a JSON text ends

Compact JSON text can be read in one way only. `Delimited` says that two values are told apart by
their texts whatever stands behind these: so it holds of a list of values once it holds of the
values, and a text has no need of anything around it to be understood. Characters in a literal are
delimited because they can be read back (`unescape?_escape`), and from there it goes up through
literals and groups to all values (`IsValue.delimited`).
-/

namespace SchemaGrowth.Json

open Text

variable {α : Type}

/-- Two values whose texts, with anything behind them, agree only if the values do. -/
def Delimited (text : α → Text) (a b : α) : Prop :=
  ∀ s t, text a ++ s = text b ++ t → a = b ∧ s = t

theorem Delimited.inj {text : α → Text} {a b : α} (h : Delimited text a b)
    (he : text a = text b) : a = b :=
  (h [] [] (by rw [he])).1

/-! ## Characters -/

/-- The character that is meant by a backslash and a letter. -/
def meant : Char → Char
  | 'b' => '\x08'
  | 't' => '\t'
  | 'n' => '\n'
  | 'f' => '\x0c'
  | 'r' => '\r'
  | c => c

/-- The value of a hexadecimal digit. -/
def digitValue (c : Char) : Nat :=
  "0123456789abcdef".toList.idxOf c

/-- Reads the first character inside a literal. -/
def unescape? : Text → Option (Char × Text)
  | '\\' :: 'u' :: _ :: _ :: high :: low :: t =>
    some (Char.ofNat (16 * digitValue high + digitValue low), t)
  | '\\' :: c :: t => some (meant c, t)
  | c :: t => some (c, t)
  | [] => none

theorem digitValue_digitChar {n : Nat} (h : n < 16) : digitValue (Nat.digitChar n) = n := by
  have hall : ∀ d : Fin 16, digitValue (Nat.digitChar d) = d := by decide
  exact hall ⟨n, h⟩

theorem unescape?_hexPair {n : Nat} (h : n < 0x20) (t : Text) :
    unescape? (['\\', 'u', '0', '0'] ++ hexPair n ++ t) = some (Char.ofNat n, t) := by
  have hhigh := digitValue_digitChar (n := n / 16 % 16) (Nat.mod_lt _ (by decide))
  have hlow := digitValue_digitChar (n := n % 16) (Nat.mod_lt _ (by decide))
  have hn : 16 * (n / 16 % 16) + n % 16 = n := by omega
  simp only [hexPair, List.cons_append, List.nil_append, unescape?, hhigh, hlow, hn]

theorem unescape?_self {c : Char} (h : c ≠ '\\') (t : Text) :
    unescape? (c :: t) = some (c, t) := by
  rw [unescape?]
  · intro _ _ _ _ _ he
    exact absurd he h
  · intro _ _ he
    exact absurd he h

/-- A character is read as it was escaped, whatever comes behind it. -/
theorem unescape?_escape (c : Char) (t : Text) : unescape? (escape c ++ t) = some (c, t) := by
  unfold escape
  split_ifs with hquote hbackslash hb ht hn hf hr hcontrol
  · subst hquote; rfl
  · subst hbackslash; rfl
  · subst hb; rfl
  · subst ht; rfl
  · subst hn; rfl
  · subst hf; rfl
  · subst hr; rfl
  · rw [unescape?_hexPair hcontrol, Char.ofNat_toNat]
  · exact unescape?_self hbackslash t

theorem delimited_escape (a b : Char) : Delimited escape a b := by
  intro s t h
  have hread := congrArg unescape? h
  rw [unescape?_escape, unescape?_escape] at hread
  cases hread
  exact ⟨rfl, rfl⟩

/-- A character inside a literal does not look like the end of the literal. -/
theorem escape_ne_quote (c : Char) (s t : Text) : escape c ++ s ≠ '"' :: t := by
  intro h
  have hread := congrArg unescape? h
  rw [unescape?_escape, unescape?_self (by decide)] at hread
  cases hread
  cases h

/-! ## Literals -/

theorem delimited_string (a b : Text) : Delimited string a b := by
  suffices hinside : ∀ s t : Text, a.flatMap escape ++ '"' :: s = b.flatMap escape ++ '"' :: t →
      a = b ∧ s = t by
    intro s t h
    simp only [string, List.cons_append, List.append_assoc, List.nil_append, List.cons.injEq,
      true_and] at h
    exact hinside s t h
  intro s t h
  induction a generalizing b with
  | nil =>
    cases b with
    | nil => exact ⟨rfl, List.tail_eq_of_cons_eq h⟩
    | cons d b =>
      rw [List.flatMap_cons, List.append_assoc] at h
      exact absurd h.symm (escape_ne_quote d _ _)
  | cons c a ih =>
    cases b with
    | nil =>
      rw [List.flatMap_cons, List.append_assoc] at h
      exact absurd h (escape_ne_quote c _ _)
    | cons d b =>
      rw [List.flatMap_cons, List.flatMap_cons, List.append_assoc, List.append_assoc] at h
      obtain ⟨rfl, hrest⟩ := delimited_escape c d _ _ h
      obtain ⟨rfl, hst⟩ := ih b hrest
      exact ⟨rfl, hst⟩

/-! ## Groups -/

theorem compact_group (opening closing : Char) (depth : Nat) (items : List Text) :
    compact.group opening closing depth items
      = opening :: ([','].intercalate items ++ [closing]) := by
  cases items with
  | nil => rfl
  | cons x items =>
    have hmap : (x :: items).map (compact.lineBreak (depth + 1) ++ ·) = x :: items := by
      simp [compact]
    rw [Layout.group, hmap]
    simp [compact]

/-- What stands in a group behind its first item, and in a text behind the group. -/
def further (closing : Char) (items : List Text) (t : Text) : Text :=
  items.flatMap (',' :: ·) ++ closing :: t

theorem further_cons (closing : Char) (x : Text) (items : List Text) (t : Text) :
    further closing (x :: items) t = ',' :: (x ++ further closing items t) := by
  simp [further]

theorem intercalate_cons_append (x : Text) (items : List Text) (closing : Char) (t : Text) :
    [','].intercalate (x :: items) ++ closing :: t = x ++ further closing items t := by
  induction items generalizing x with
  | nil => simp [further]
  | cons y items ih =>
    rw [List.intercalate_cons_cons, List.append_assoc, ih, further_cons, List.append_assoc]
    rfl

section Groups

variable {text : α → Text} {closing : Char} {as bs : List α}

/-- Behind each item it shows whether there is another one. -/
theorem items_inj (hcomma : closing ≠ ',') {a b : α}
    (h : ∀ x ∈ a :: as, ∀ y ∈ b :: bs, Delimited text x y) {s t : Text}
    (he : text a ++ further closing (as.map text) s = text b ++ further closing (bs.map text) t) :
    a :: as = b :: bs ∧ s = t := by
  induction as generalizing a b bs with
  | nil =>
    obtain ⟨rfl, hrest⟩ := h a List.mem_cons_self b List.mem_cons_self _ _ he
    cases bs with
    | nil => exact ⟨rfl, List.tail_eq_of_cons_eq hrest⟩
    | cons _ _ => exact absurd (List.head_eq_of_cons_eq hrest) hcomma
  | cons c as ih =>
    obtain ⟨rfl, hrest⟩ := h a List.mem_cons_self b List.mem_cons_self _ _ he
    cases bs with
    | nil => exact absurd (List.head_eq_of_cons_eq hrest).symm hcomma
    | cons d bs =>
      rw [List.map_cons, List.map_cons, further_cons, further_cons] at hrest
      obtain ⟨hitems, hst⟩ := ih (fun x hx y hy =>
        h x (List.mem_cons_of_mem _ hx) y (List.mem_cons_of_mem _ hy))
        (List.tail_eq_of_cons_eq hrest)
      exact ⟨congrArg (a :: ·) hitems, hst⟩

/-- Groups are delimited if their items are, and no item looks like the end of a group. -/
theorem group_inj (hcomma : closing ≠ ',') (h : ∀ a ∈ as, ∀ b ∈ bs, Delimited text a b)
    (has : ∀ a ∈ as, ∀ s t, text a ++ s ≠ closing :: t)
    (hbs : ∀ b ∈ bs, ∀ s t, text b ++ s ≠ closing :: t) {opening : Char} {m n : Nat} {s t : Text}
    (he : compact.group opening closing m (as.map text) ++ s
      = compact.group opening closing n (bs.map text) ++ t) :
    as = bs ∧ s = t := by
  rw [compact_group, compact_group] at he
  simp only [List.cons_append, List.append_assoc, List.nil_append, List.cons.injEq,
    true_and] at he
  cases as with
  | nil =>
    cases bs with
    | nil => exact ⟨rfl, List.tail_eq_of_cons_eq he⟩
    | cons b bs =>
      rw [List.map_cons, intercalate_cons_append] at he
      exact absurd he.symm (hbs b List.mem_cons_self _ _)
  | cons a as =>
    cases bs with
    | nil =>
      rw [List.map_cons, intercalate_cons_append] at he
      exact absurd he (has a List.mem_cons_self _ _)
    | cons b bs =>
      rw [List.map_cons, List.map_cons, intercalate_cons_append, intercalate_cons_append] at he
      exact items_inj hcomma h he

end Groups

/-! ## Values -/

/-- The compact texts of the values that are made of literals, arrays and objects. -/
inductive IsValue : Text → Prop
  | string (t : Text) : IsValue (string t)
  | array (depth : Nat) (items : List Text) :
    (∀ item ∈ items, IsValue item) → IsValue (compact.array depth items)
  | object (depth : Nat) (members : List (Text × Text)) :
    (∀ m ∈ members, IsValue m.2) → IsValue (compact.object depth members)

theorem IsValue.ne_closing {x : Text} (h : IsValue x) (s t : Text) : x ++ s ≠ ']' :: t := by
  cases h with
  | string _ => simp [Json.string]
  | array _ _ _ => simp [Layout.array, compact_group]
  | object _ _ _ => simp [Layout.object, compact_group]

/-- A key with the text of its value. -/
def member (m : Text × Text) : Text :=
  Json.string m.1 ++ compact.colon ++ m.2

theorem member_ne_closing (m : Text × Text) (s t : Text) : member m ++ s ≠ '\x7d' :: t := by
  simp [member, Json.string]

theorem Delimited.member {m n : Text × Text} (h : Delimited id m.2 n.2) :
    Delimited Json.member m n := by
  obtain ⟨key, value⟩ := m
  obtain ⟨key', value'⟩ := n
  intro s t he
  simp only [Json.member, List.append_assoc] at he
  obtain ⟨rfl, hrest⟩ := delimited_string key key' _ _ he
  obtain ⟨rfl, hst⟩ := h s t (List.tail_eq_of_cons_eq hrest)
  exact ⟨rfl, hst⟩

theorem compact_array_depth (m n : Nat) (items : List Text) :
    compact.array m items = compact.array n items := by
  simp only [Layout.array, compact_group]

theorem compact_object_depth (m n : Nat) (members : List (Text × Text)) :
    compact.object m members = compact.object n members := by
  simp only [Layout.object, compact_group]

theorem compact_array_append_inj {items others : List Text}
    (hitems : ∀ item ∈ items, IsValue item) (hothers : ∀ item ∈ others, IsValue item)
    (h : ∀ a ∈ items, ∀ b ∈ others, Delimited id a b) {m n : Nat} {s t : Text}
    (he : compact.array m items ++ s = compact.array n others ++ t) : items = others ∧ s = t := by
  rw [← List.map_id items, ← List.map_id others] at he
  exact group_inj (by decide) h (fun a ha => (hitems a ha).ne_closing)
    (fun b hb => (hothers b hb).ne_closing) he

theorem compact_object_append_inj {members others : List (Text × Text)}
    (h : ∀ a ∈ members, ∀ b ∈ others, Delimited id a.2 b.2) {m n : Nat} {s t : Text}
    (he : compact.object m members ++ s = compact.object n others ++ t) :
    members = others ∧ s = t :=
  group_inj (by decide) (fun a ha b hb => (h a ha b hb).member)
    (fun a _ => member_ne_closing a) (fun b _ => member_ne_closing b) he

/-- **A value is delimited.** -/
theorem IsValue.delimited {x y : Text} (hx : IsValue x) (hy : IsValue y) : Delimited id x y := by
  -- Kinds are told apart by their first characters; the items of a group are smaller values.
  induction hx generalizing y with
  | string a =>
    intro s t he
    cases hy with
    | string b =>
      obtain ⟨rfl, hst⟩ := delimited_string a b s t he
      exact ⟨rfl, hst⟩
    | array _ _ _ => simp [Json.string, Layout.array, compact_group] at he
    | object _ _ _ => simp [Json.string, Layout.object, compact_group] at he
  | array m items hitems ih =>
    intro s t he
    cases hy with
    | string b => simp [Json.string, Layout.array, compact_group] at he
    | array n others hothers =>
      have hdelimited := fun a ha b hb => ih a ha (hothers b hb)
      obtain ⟨rfl, hst⟩ := compact_array_append_inj hitems hothers hdelimited he
      exact ⟨compact_array_depth m n items, hst⟩
    | object _ _ _ => simp [Layout.array, Layout.object, compact_group] at he
  | object m members hmembers ih =>
    intro s t he
    cases hy with
    | string b => simp [Json.string, Layout.object, compact_group] at he
    | array _ _ _ => simp [Layout.array, Layout.object, compact_group] at he
    | object n others hothers =>
      have hdelimited := fun a ha b hb => ih a ha (hothers b hb)
      obtain ⟨rfl, hst⟩ := compact_object_append_inj hdelimited he
      exact ⟨compact_object_depth m n members, hst⟩

/-! ## Parts of values -/

theorem string_inj {a b : Text} (h : Json.string a = Json.string b) : a = b :=
  (delimited_string a b).inj h

theorem isValue_of_mem_map {f : α → Text} (h : ∀ a, IsValue (f a)) {l : List α} :
    ∀ item ∈ l.map f, IsValue item := by
  intro item hitem
  obtain ⟨a, -, rfl⟩ := List.mem_map.mp hitem
  exact h a

/-- The compact text of an array determines what is written in it. -/
theorem compact_array_inj {f : α → Text} (h : ∀ a, IsValue (f a)) (hf : Function.Injective f)
    {l r : List α} {m n : Nat} (he : compact.array m (l.map f) = compact.array n (r.map f)) :
    l = r := by
  have hl := isValue_of_mem_map h (l := l)
  have hr := isValue_of_mem_map h (l := r)
  have hitems := compact_array_append_inj hl hr
    (fun x hx y hy => (hl x hx).delimited (hr y hy)) (congrArg (· ++ []) he)
  exact hf.list_map hitems.1

/-- The compact text of an object determines the members. -/
theorem compact_object_inj {members others : List (Text × Text)}
    (hmembers : ∀ m ∈ members, IsValue m.2) (hothers : ∀ m ∈ others, IsValue m.2) {m n : Nat}
    (h : compact.object m members = compact.object n others) : members = others :=
  (compact_object_append_inj (fun a ha b hb => (hmembers a ha).delimited (hothers b hb))
    (congrArg (· ++ []) h)).1

end SchemaGrowth.Json
