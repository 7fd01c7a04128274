import SchemaGrowth.Proofs.Dump.Rule

/-!
# Which table a line belongs to

The place of a reader is never written down in a dump; it follows from the lines before it. Most
lines leave the place as it was, so only the last line that turned it counts. `attribution` reads
the place behind any number of lines off that line, and says which lines count as columns and as
lines of `ALTER TABLE` blocks, and what is read from them.
-/

namespace SchemaGrowth

namespace Text

/-- A text cut at its first two marks, with what stands between them and what follows the second.
Where the second mark is missing, the part between them runs to the end and nothing follows. -/
inductive CutAt (mark : Char) : Text → Text → Text → Prop
  | closed {head inside : Text} (rest : Text) (first : mark ∉ head) (second : mark ∉ inside) :
      CutAt mark (head ++ mark :: (inside ++ mark :: rest)) inside rest
  | unclosed {head inside : Text} (first : mark ∉ head) (second : mark ∉ inside) :
      CutAt mark (head ++ mark :: inside) inside []

theorem cutAt_before_after {mark : Char} {t : Text} (h : mark ∈ t) :
    CutAt mark t ((t.after mark).before mark) ((t.after mark).after mark) := by
  have hsplit := before_append_after h
  have hhead := not_mem_before mark t
  by_cases hclosed : mark ∈ t.after mark
  · have hcut := CutAt.closed ((t.after mark).after mark) hhead (not_mem_before mark (t.after mark))
    rwa [before_append_after hclosed, hsplit] at hcut
  · have hcut := CutAt.unclosed hhead hclosed
    rw [hsplit] at hcut
    rwa [before_of_not_mem hclosed, after_of_not_mem hclosed]

end Text

namespace Dump

/-! ## Turns -/

/-- Lines, each with what it says. -/
def Place.log (place : Place) (lines : List Text) : List (Text × Event) :=
  lines.zip (place.events lines)

/-- Whether a line settles the place behind it, wherever it stands: it opens or closes a block, or
it holds the words of a `CREATE TABLE` without a name. -/
def IsTurn : Text × Event → Prop
  | (_, .created _) | (_, .closed) | (_, .alterOpened _) => True
  | (line, _) => line.hasWord createWords = true ∧ identifierMark ∉ line

/-- The last turn of a log, with the entries behind it. -/
structure LastTurn (log : List (Text × Event)) (entry : Text × Event)
    (later : List (Text × Event)) : Prop where
  logged : ∃ earlier, log = earlier ++ entry :: later
  turn : IsTurn entry
  last : ∀ other ∈ later, ¬ IsTurn other

/-- Whether the last turn of a log opened the body of a table. -/
def InBody (log : List (Text × Event)) (table : Text) : Prop :=
  ∃ line later, LastTurn log (line, .created table) later

/-- Whether the last turn of a log opened an `ALTER TABLE` block of a table, and no line of the
block has ended a statement since. -/
def InBlock (log : List (Text × Event)) (table : Text) : Prop :=
  ∃ line later, LastTurn log (line, .alterOpened table) later
    ∧ ∀ other ∈ later, ∀ owner kept, other.2 = .alterLine owner kept → endsStatement kept = false

theorem not_lastTurn_nil {entry : Text × Event} {later : List (Text × Event)} :
    ¬ LastTurn [] entry later := by
  rintro ⟨⟨earlier, hlog⟩, -, -⟩
  simp at hlog

/-- One more entry either is the last turn, or comes behind it. -/
theorem lastTurn_concat {log later : List (Text × Event)} {last entry : Text × Event} :
    LastTurn (log ++ [last]) entry later
      ↔ (IsTurn last ∧ entry = last ∧ later = [])
        ∨ (¬ IsTurn last ∧ ∃ between, later = between ++ [last] ∧ LastTurn log entry between) := by
  constructor
  · rintro ⟨⟨earlier, hlog⟩, hturn, hlast⟩
    rcases List.eq_nil_or_concat later with rfl | ⟨between, other, rfl⟩
    · obtain ⟨-, hentry⟩ := List.append_inj' hlog rfl
      obtain rfl := List.singleton_inj.mp hentry
      exact .inl ⟨hturn, rfl, rfl⟩
    · have hlog' : log ++ [last] = (earlier ++ entry :: between) ++ [other] := by
        simpa using hlog
      obtain ⟨rfl, hother⟩ := List.append_inj' hlog' rfl
      obtain rfl := List.singleton_inj.mp hother
      rw [List.concat_eq_append] at hlast ⊢
      refine .inr ⟨hlast last (by simp), between, rfl, ⟨earlier, rfl⟩, hturn, ?_⟩
      exact fun other hm => hlast other (List.mem_append_left _ hm)
  · rintro (⟨hturn, rfl, rfl⟩ | ⟨hturn, between, rfl, ⟨earlier, rfl⟩, hentry, hlast⟩)
    · exact ⟨⟨log, rfl⟩, hturn, by simp⟩
    · refine ⟨⟨earlier, by simp⟩, hentry, ?_⟩
      intro other hm
      rcases List.mem_append.mp hm with hm | hm
      · exact hlast other hm
      · obtain rfl := List.mem_singleton.mp hm
        exact hturn

theorem inBody_concat {log : List (Text × Event)} {line table : Text} {event : Event} :
    InBody (log ++ [(line, event)]) table
      ↔ event = .created table ∨ (¬ IsTurn (line, event) ∧ InBody log table) := by
  constructor
  · rintro ⟨header, later, hturn⟩
    rcases lastTurn_concat.mp hturn with ⟨-, hentry, -⟩ | ⟨hkeep, between, -, hlog⟩
    · exact .inl (Prod.mk.inj hentry).2.symm
    · exact .inr ⟨hkeep, header, between, hlog⟩
  · rintro (rfl | ⟨hkeep, header, between, hlog⟩)
    · exact ⟨line, [], lastTurn_concat.mpr (.inl ⟨trivial, rfl, rfl⟩)⟩
    · exact ⟨header, _, lastTurn_concat.mpr (.inr ⟨hkeep, between, rfl, hlog⟩)⟩

theorem inBlock_concat {log : List (Text × Event)} {line table : Text} {event : Event} :
    InBlock (log ++ [(line, event)]) table
      ↔ event = .alterOpened table ∨ (¬ IsTurn (line, event) ∧ InBlock log table
          ∧ ∀ owner kept, event = .alterLine owner kept → endsStatement kept = false) := by
  constructor
  · rintro ⟨header, later, hturn, hopen⟩
    rcases lastTurn_concat.mp hturn with ⟨-, hentry, -⟩ | ⟨hkeep, between, rfl, hlog⟩
    · exact .inl (Prod.mk.inj hentry).2.symm
    · refine .inr ⟨hkeep, ⟨header, between, hlog, ?_⟩, ?_⟩
      · exact fun other hm => hopen other (List.mem_append_left _ hm)
      · exact hopen (line, event) (by simp)
  · rintro (rfl | ⟨hkeep, ⟨header, between, hlog, hopen⟩, hevent⟩)
    · exact ⟨line, [], lastTurn_concat.mpr (.inl ⟨trivial, rfl, rfl⟩), by simp⟩
    · refine ⟨header, _, lastTurn_concat.mpr (.inr ⟨hkeep, between, rfl, hlog⟩), ?_⟩
      intro other hm
      rcases List.mem_append.mp hm with hm | hm
      · exact hopen other hm
      · obtain rfl := List.mem_singleton.mp hm
        exact hevent

/-! ## From turns to places -/

/-- A place that is the one which the last turn of a log says. -/
structure Place.Follows (place : Place) (log : List (Text × Event)) : Prop where
  body : ∀ table, place = .body table ↔ InBody log table
  block : ∀ table, place = .alteration table ↔ InBlock log table

/-- A place of no block follows from a log in which no block is open. -/
theorem Place.Follows.outside {place : Place} {log : List (Text × Event)} (h : place.Follows log) :
    place = .outside ↔ ∀ table, ¬ InBody log table ∧ ¬ InBlock log table := by
  simp only [← h.body, ← h.block]
  cases place <;> simp

/-- The place behind one more line is in step with the log if it is what the line makes of the
place before it. -/
theorem Place.Follows.concat {place next : Place} {log : List (Text × Event)} {line : Text}
    {event : Event} (h : place.Follows log)
    (hbody : ∀ table, next = .body table
      ↔ event = .created table ∨ (¬ IsTurn (line, event) ∧ place = .body table))
    (hblock : ∀ table, next = .alteration table
      ↔ event = .alterOpened table ∨ (¬ IsTurn (line, event) ∧ place = .alteration table
          ∧ ∀ owner kept, event = .alterLine owner kept → endsStatement kept = false)) :
    next.Follows (log ++ [(line, event)]) := by
  constructor
  · intro table
    rw [hbody, h.body, inBody_concat]
  · intro table
    rw [hblock, h.block, inBlock_concat]

/-- Every rule of reading keeps the place in step with the log. -/
theorem Rule.follows {place next : Place} {line : Text} {event : Event}
    {log : List (Text × Event)} (rule : Rule place line event next) (h : place.Follows log) :
    next.Follows (log ++ [(line, event)]) := by
  cases rule with
  | created create named => exact h.concat (by simp [IsTurn]) (by simp [IsTurn])
  | unnamedCreate create unnamed =>
    have hmark := Text.identifier?_eq_none.mp unnamed
    exact h.concat (by simp [IsTurn, create, hmark]) (by simp [IsTurn, create, hmark])
  | closed noCreate bodyEnd => exact h.concat (by simp [IsTurn]) (by simp [IsTurn])
  | alterOpened noCreate noEnd alter named => exact h.concat (by simp [IsTurn]) (by simp [IsTurn])
  | unnamedAlter noCreate noEnd alter unnamed =>
    exact h.concat (by simp [IsTurn, noCreate]) (by simp [IsTurn, noCreate])
  | outside noCreate noAlter =>
    exact h.concat (by simp [IsTurn, noCreate]) (by simp [IsTurn, noCreate])
  | column noCreate noEnd noAlter declared =>
    exact h.concat (by simp [IsTurn, noCreate]) (by simp [IsTurn, noCreate])
  | noColumn noCreate noEnd noAlter none =>
    exact h.concat (by simp [IsTurn, noCreate]) (by simp [IsTurn, noCreate])
  | alterLine noCreate noAlter =>
    -- The block stays open unless its line ends a statement.
    cases hends : endsStatement line
    · exact h.concat (by simp [IsTurn, noCreate]) (by simp [IsTurn, noCreate, hends])
    · exact h.concat (by simp [IsTurn, noCreate]) (by simp [IsTurn, noCreate, hends])

namespace Place

theorem outside_follows_nil : outside.Follows [] := by
  constructor
  · intro table
    simp [InBody, not_lastTurn_nil]
  · intro table
    simp [InBlock, not_lastTurn_nil]

/-- The place behind some lines is the one which their last turn says. -/
theorem behind_follows (lines : List Text) :
    (outside.behind lines).Follows (outside.log lines) := by
  have hrun := invariant
    (fun lines events place => lines.length = events.length ∧ place.Follows (lines.zip events))
    ⟨rfl, outside_follows_nil⟩ ?_ lines
  · exact hrun.2
  · intro lines events place line event next hold rule
    obtain ⟨hlength, hfollows⟩ := hold
    refine ⟨by simp [hlength], ?_⟩
    rw [List.zip_append hlength]
    exact rule.follows hfollows

theorem take_log (place : Place) (lines : List Text) (i : Nat) :
    (place.log lines).take i = place.log (lines.take i) := by
  rw [log, log, List.zip_eq_zipWith, List.take_zipWith, take_events, List.zip_eq_zipWith]

/-- A line says what is read from it at the place behind those before it. -/
theorem getElem?_events {lines : List Text} {i : Nat} {line : Text} (h : lines[i]? = some line)
    (place : Place) :
    (place.events lines)[i]? = some ((place.behind (lines.take i)).read line).1 := by
  induction lines generalizing place i with
  | nil => cases h
  | cons first rest ih =>
    cases i with
    | zero =>
      obtain rfl : first = line := by simpa using h
      rfl
    | succ i => exact ih h (place.read first).2

/-! ## From places to lines -/

theorem read_eq_alterLine {place : Place} {line table kept : Text} :
    (place.read line).1 = .alterLine table kept
      ↔ place = .alteration table ∧ line.hasWord createWords = false
        ∧ line.hasWord alterWords = false ∧ kept = line := by
  constructor
  · intro h
    have hrule := place.rule_read line
    rw [h] at hrule
    generalize (place.read line).2 = next at hrule
    cases hrule with
    | alterLine noCreate noAlter => exact ⟨rfl, noCreate, noAlter, rfl⟩
  · rintro ⟨rfl, noCreate, noAlter, rfl⟩
    rw [(Rule.alterLine noCreate noAlter).read_eq]

theorem read_eq_column {place : Place} {line table : Text} {column : Column} :
    (place.read line).1 = .column table column
      ↔ place = .body table ∧ line.hasWord createWords = false ∧ line.hasWord bodyEndWords = false
        ∧ line.hasWord alterWords = false ∧ Column.ofLine? line = some column := by
  constructor
  · intro h
    have hrule := place.rule_read line
    rw [h] at hrule
    generalize (place.read line).2 = next at hrule
    cases hrule with
    | column noCreate noEnd noAlter declared => exact ⟨rfl, noCreate, noEnd, noAlter, declared⟩
  · rintro ⟨rfl, noCreate, noEnd, noAlter, declared⟩
    rw [(Rule.column noCreate noEnd noAlter declared).read_eq]

end Place

end Dump

/-- A column is read from a line with a mark, cut at its first two. -/
theorem Column.ofLine?_of_mem {line : Text} (h : identifierMark ∈ line) :
    ∃ inside rest, Text.CutAt identifierMark line inside rest
      ∧ ofLine? line = some ⟨inside, rest.trim.dropLastIf ','⟩ := by
  refine ⟨_, _, Text.cutAt_before_after h, ?_⟩
  rw [ofLine?, Text.identifier?, if_pos h]
  rfl

theorem Column.mem_of_ofLine? {line : Text} {column : Column} (h : ofLine? line = some column) :
    identifierMark ∈ line := by
  by_contra hm
  rw [ofLine?, Text.identifier?_eq_none.mpr hm] at h
  cases h

namespace Dump

/-- **Every line is read in the block that the last turn before it opened.** After any number of
lines, the place is in the body of a table just if the last turn created it, in a block of a table
just if the last turn opened it and no line of the block has ended a statement since, and outside
otherwise. The line that follows counts for a block just if the place is in it and the line is no
header, and is then kept as it is. It declares a column just if the place is in a body and the line
holds a mark and none of the words that tell lines apart, and the column is then what stands between
its first two marks, with what follows them as definition. -/
theorem Place.attribution (lines : List Text) (i : Nat) :
    (∀ table, outside.behind (lines.take i) = .body table
      ↔ InBody ((outside.log lines).take i) table)
    ∧ (∀ table, outside.behind (lines.take i) = .alteration table
      ↔ InBlock ((outside.log lines).take i) table)
    ∧ (outside.behind (lines.take i) = .outside
      ↔ ∀ table, ¬ InBody ((outside.log lines).take i) table
          ∧ ¬ InBlock ((outside.log lines).take i) table)
    ∧ ∀ line, lines[i]? = some line →
      (∀ table kept, (outside.events lines)[i]? = some (.alterLine table kept)
        ↔ outside.behind (lines.take i) = .alteration table
          ∧ line.hasWord createWords = false ∧ line.hasWord alterWords = false ∧ kept = line)
      ∧ (∀ table, (∃ column, (outside.events lines)[i]? = some (.column table column))
        ↔ outside.behind (lines.take i) = .body table ∧ identifierMark ∈ line
          ∧ line.hasWord createWords = false ∧ line.hasWord bodyEndWords = false
          ∧ line.hasWord alterWords = false)
      ∧ ∀ table column, (outside.events lines)[i]? = some (.column table column) →
          ∃ rest, Text.CutAt identifierMark line column.name rest
            ∧ column.definition = rest.trim.dropLastIf ',' := by
  have hplace := behind_follows (lines.take i)
  rw [← take_log] at hplace
  refine ⟨hplace.body, hplace.block, hplace.outside, ?_⟩
  intro line hline
  rw [getElem?_events hline]
  refine ⟨?_, ?_, ?_⟩
  · intro table kept
    rw [Option.some.injEq, read_eq_alterLine]
  · intro table
    constructor
    · rintro ⟨column, hcolumn⟩
      obtain ⟨hbody, noCreate, noEnd, noAlter, declared⟩ :=
        read_eq_column.mp (Option.some.inj hcolumn)
      exact ⟨hbody, Column.mem_of_ofLine? declared, noCreate, noEnd, noAlter⟩
    · rintro ⟨hbody, hmark, noCreate, noEnd, noAlter⟩
      obtain ⟨inside, rest, -, declared⟩ := Column.ofLine?_of_mem hmark
      exact ⟨_, congrArg some (read_eq_column.mpr ⟨hbody, noCreate, noEnd, noAlter, declared⟩)⟩
  · intro table column hcolumn
    obtain ⟨-, -, -, -, declared⟩ := read_eq_column.mp (Option.some.inj hcolumn)
    obtain ⟨inside, rest, hcut, hread⟩ := Column.ofLine?_of_mem (Column.mem_of_ofLine? declared)
    obtain rfl := Option.some.inj (hread.symm.trans declared)
    exact ⟨rest, hcut, rfl⟩

/-- A header without a name ends a block if it is one of a `CREATE TABLE`, and is passed over
otherwise. -/
example :
    Place.outside.behind ["ALTER TABLE `a`".toList, "ALTER TABLE".toList]
        = .alteration "a".toList
      ∧ Place.outside.behind ["ALTER TABLE `a`".toList, "CREATE TABLE ".toList] = .outside := by
  decide +kernel

end Dump

end SchemaGrowth
