import SchemaGrowth.Text.Digits

/-!
# Visible text

A terminal obeys some characters where it shows others. A visible text spells the commands out, so
that what was put into a message cannot act on the terminal: `visible` leaves no command behind, and
leaves alone a text that has none. Tabs and the ends of lines are layout and no commands.
-/

namespace SchemaGrowth.Text

/-- Whether a character is one of the single commands: bell, backspace, form feed, escape and
delete. -/
def isShortCommand (c : Char) : Bool :=
  c == '\x07' || c == '\x08' || c == '\x0c' || c == '\x1b' || c == '\x7f'

/-- Whether a character is one of the second block of control characters, which stand for an escape
and a letter. -/
def isLongCommand (c : Char) : Bool :=
  0x80 ≤ c.toNat && c.toNat ≤ 0x9f

/-- Whether a terminal obeys a character. -/
def isCommand (c : Char) : Bool :=
  isShortCommand c || isLongCommand c

/-- A character as it stands in a visible text: a command is spelled by its number. -/
def spelled (c : Char) : Text :=
  if isShortCommand c then '\\' :: 'x' :: hexPair c.toNat
  else if isLongCommand c then '\\' :: 'u' :: '\x7b' :: (hexPair c.toNat ++ ['\x7d'])
  else [c]

/-- A text with its commands spelled out. -/
def visible (t : Text) : Text :=
  t.flatMap spelled

@[simp] theorem visible_nil : visible [] = [] := rfl

@[simp] theorem visible_cons (c : Char) (t : Text) : visible (c :: t) = spelled c ++ visible t := rfl

theorem spelled_of_not_isCommand {c : Char} (h : isCommand c = false) : spelled c = [c] := by
  rw [isCommand, Bool.or_eq_false_iff] at h
  simp [spelled, h.1, h.2]

/-- A text without commands is left alone. -/
theorem visible_eq_self {t : Text} (h : ∀ c ∈ t, isCommand c = false) : visible t = t := by
  induction t with
  | nil => rfl
  | cons c t ih =>
    rw [visible_cons, spelled_of_not_isCommand (h c (by simp)), ih fun d hd => h d (by simp [hd])]
    rfl

/-- No digit is a command. -/
theorem not_isCommand_digitChar : ∀ n < 16, isCommand (Nat.digitChar n) = false := by
  decide

theorem not_isCommand_of_mem_hexPair {c : Char} {n : Nat} (h : c ∈ hexPair n) :
    isCommand c = false := by
  simp only [hexPair, List.mem_cons, List.not_mem_nil, or_false] at h
  rcases h with rfl | rfl
  · exact not_isCommand_digitChar _ (Nat.mod_lt _ (by decide))
  · exact not_isCommand_digitChar _ (Nat.mod_lt _ (by decide))

theorem not_isCommand_of_mem_spelled {c d : Char} (h : d ∈ spelled c) : isCommand d = false := by
  unfold spelled at h
  split at h
  · simp only [List.mem_cons] at h
    rcases h with rfl | rfl | h
    · decide
    · decide
    · exact not_isCommand_of_mem_hexPair h
  · split at h
    · simp only [List.mem_cons, List.mem_append, List.not_mem_nil, or_false] at h
      rcases h with rfl | rfl | rfl | h | rfl
      · decide
      · decide
      · decide
      · exact not_isCommand_of_mem_hexPair h
      · decide
    · rename_i hs hl
      obtain rfl := List.mem_singleton.mp h
      simp [isCommand, hs, hl]

/-- A visible text holds no command. -/
theorem not_isCommand_of_mem_visible {c : Char} {t : Text} (h : c ∈ visible t) :
    isCommand c = false := by
  obtain ⟨d, _, hd⟩ := List.mem_flatMap.mp h
  exact not_isCommand_of_mem_spelled hd

end SchemaGrowth.Text
