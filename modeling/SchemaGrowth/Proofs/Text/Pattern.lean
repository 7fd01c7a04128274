import SchemaGrowth.Text.Basic

/-!
# Patterns

A pattern can match at the start of a text in several ways, and some are preferred to others: of two
alternatives the first one, and of repetitions the longest. To replace all matches is to go through
a text from left to right and to take the preferred match wherever there is one. `Replaces` says
what comes out of that, whatever machine does it.
-/

namespace SchemaGrowth

/-- A pattern of text. -/
inductive Pattern where
  /-- One of the characters that are accepted. -/
  | one (accepts : Char → Bool)
  /-- Any number of the characters that are accepted. -/
  | many (accepts : Char → Bool)
  /-- The end of the whole text. -/
  | atEnd
  | seq (first second : Pattern)
  | either (first second : Pattern)

namespace Pattern

/-- The ways to take accepted characters off the front of a text, the longest one first. Each is
given with what it leaves. -/
def repetitions (accepts : Char → Bool) : Text → List (Text × Text)
  | [] => [([], [])]
  | c :: rest =>
    if accepts c then
      (repetitions accepts rest).map (fun way => (c :: way.1, way.2)) ++ [([], c :: rest)]
    else [([], c :: rest)]

/-- The ways in which a pattern matches at the start of a text, the preferred one first. Each is
given with what it leaves. -/
def ways : Pattern → Text → List (Text × Text)
  | one _, [] => []
  | one accepts, c :: rest => if accepts c then [([c], rest)] else []
  | many accepts, t => repetitions accepts t
  | atEnd, t => if t.isEmpty then [([], [])] else []
  | seq first second, t =>
    (first.ways t).flatMap fun way =>
      (second.ways way.2).map fun next => (way.1 ++ next.1, next.2)
  | either first second, t => first.ways t ++ second.ways t

/-- The match at the start of a text, with what it leaves. -/
def match? (pattern : Pattern) (t : Text) : Option (Text × Text) :=
  (pattern.ways t).head?

/-- What a text becomes if all matches of a pattern are replaced, from left to right. Nothing is
said of a pattern that matches without taking a character. -/
inductive Replaces (pattern : Pattern) (replacement : Text → Text) : Text → Text → Prop
  | nil : Replaces pattern replacement [] []
  | copied {c : Char} {rest out : Text} (unmatched : pattern.match? (c :: rest) = none)
      (later : Replaces pattern replacement rest out) :
      Replaces pattern replacement (c :: rest) (c :: out)
  | replaced {c : Char} {t found behind out : Text}
      (matched : pattern.match? t = some (c :: found, behind))
      (later : Replaces pattern replacement behind out) :
      Replaces pattern replacement t (replacement (c :: found) ++ out)

/-! ## Matches -/

theorem match?_one_cons (accepts : Char → Bool) (c : Char) (rest : Text) :
    (one accepts).match? (c :: rest) = if accepts c then some ([c], rest) else none := by
  by_cases h : accepts c <;> simp [match?, ways, h]

theorem match?_either (first second : Pattern) (t : Text) :
    (either first second).match? t = (first.match? t).or (second.match? t) := by
  simp [match?, ways]

/-- The first way of the first part for which the second part matches is taken. -/
theorem match?_seq (first second : Pattern) (t : Text) :
    (seq first second).match? t = (first.ways t).findSome? fun way =>
      (second.match? way.2).map fun next => (way.1 ++ next.1, next.2) := by
  simp [match?, ways, List.head?_flatMap]

/-- The longest repetition is preferred. -/
theorem repetitions_eq_cons (accepts : Char → Bool) (t : Text) :
    ∃ shorter, repetitions accepts t
      = (t.takeWhile accepts, t.dropWhile accepts) :: shorter := by
  induction t with
  | nil => exact ⟨[], rfl⟩
  | cons c rest ih =>
    by_cases h : accepts c
    · obtain ⟨shorter, hrest⟩ := ih
      rw [repetitions, if_pos h, hrest, List.takeWhile_cons_of_pos h, List.dropWhile_cons_of_pos h]
      exact ⟨_, rfl⟩
    · rw [repetitions, if_neg h, List.takeWhile_cons_of_neg h, List.dropWhile_cons_of_neg h]
      exact ⟨[], rfl⟩

theorem match?_many (accepts : Char → Bool) (t : Text) :
    (many accepts).match? t = some (t.takeWhile accepts, t.dropWhile accepts) := by
  obtain ⟨shorter, h⟩ := repetitions_eq_cons accepts t
  simp [match?, ways, h]

/-- A character that must come first is taken or not. -/
theorem match?_one_seq (accepts : Char → Bool) (second : Pattern) (c : Char) (rest : Text) :
    (seq (one accepts) second).match? (c :: rest)
      = if accepts c then (second.match? rest).map fun next => (c :: next.1, next.2) else none := by
  by_cases h : accepts c <;> simp [match?_seq, ways, h]

/-- If the pattern behind them matches there, as many characters as possible are taken. -/
theorem match?_many_seq {accepts : Char → Bool} {second : Pattern} {t : Text} {next : Text × Text}
    (h : second.match? (t.dropWhile accepts) = some next) :
    (seq (many accepts) second).match? t = some (t.takeWhile accepts ++ next.1, next.2) := by
  obtain ⟨shorter, hways⟩ := repetitions_eq_cons accepts t
  rw [match?_seq, ways, hways, List.findSome?_cons, h]
  rfl

theorem append_of_mem_repetitions {accepts : Char → Bool} {t : Text} {way : Text × Text}
    (h : way ∈ repetitions accepts t) : way.1 ++ way.2 = t := by
  induction t generalizing way with
  | nil =>
    obtain rfl := List.mem_singleton.mp h
    rfl
  | cons c rest ih =>
    rw [repetitions] at h
    split at h
    · rcases List.mem_append.mp h with h | h
      · obtain ⟨shorter, hm, rfl⟩ := List.mem_map.mp h
        rw [List.cons_append, ih hm]
      · obtain rfl := List.mem_singleton.mp h
        rfl
    · obtain rfl := List.mem_singleton.mp h
      rfl

/-- A match loses nothing. -/
theorem append_of_mem_ways {pattern : Pattern} {t : Text} {way : Text × Text}
    (h : way ∈ pattern.ways t) : way.1 ++ way.2 = t := by
  induction pattern generalizing t way with
  | one accepts =>
    cases t with
    | nil => cases h
    | cons c rest =>
      rw [ways] at h
      split at h
      · obtain rfl := List.mem_singleton.mp h
        rfl
      · cases h
  | many accepts => exact append_of_mem_repetitions h
  | atEnd =>
    rw [ways] at h
    split at h
    · rename_i ht
      obtain rfl := List.mem_singleton.mp h
      exact (List.isEmpty_iff.mp ht).symm
    · cases h
  | seq first second ihf ihs =>
    obtain ⟨way, hw, hm⟩ := List.mem_flatMap.mp h
    obtain ⟨next, hn, rfl⟩ := List.mem_map.mp hm
    rw [List.append_assoc, ihs hn, ihf hw]
  | either first second ihf ihs =>
    rcases List.mem_append.mp h with h | h
    · exact ihf h
    · exact ihs h

theorem append_of_match? {pattern : Pattern} {t found behind : Text}
    (h : pattern.match? t = some (found, behind)) : found ++ behind = t :=
  append_of_mem_ways (List.mem_of_head? h)

/-- Replacing all matches has one outcome at most. -/
theorem Replaces.unique {pattern : Pattern} {replacement : Text → Text} {t out other : Text}
    (h : pattern.Replaces replacement t out) (ho : pattern.Replaces replacement t other) :
    out = other := by
  induction h generalizing other with
  | nil =>
    cases ho with
    | nil => rfl
    | replaced matched => simpa using append_of_match? matched
  | copied unmatched _ ih =>
    cases ho with
    | copied _ later => rw [ih later]
    | replaced matched =>
      rw [unmatched] at matched
      cases matched
  | replaced matched _ ih =>
    cases ho with
    | nil => simpa using append_of_match? matched
    | copied unmatched =>
      rw [unmatched] at matched
      cases matched
    | replaced again later =>
      rw [matched] at again
      cases again
      rw [ih later]

end Pattern

end SchemaGrowth
