import SchemaGrowth.Proofs.Dump.History
import SchemaGrowth.Proofs.Text.Lines
import SchemaGrowth.Proofs.Text.Trim

/-!
# What can be read from a dump

A line is cut at its marks and told from others by a few words, so there are texts that no table of
a dump can hold. `readable_of_mem_ofDump` collects what is known of a table for this reason: its
names hold no mark, and nothing in it would be taken for a header or for the end of a body.
-/

namespace SchemaGrowth

open Dump Text

namespace Text

theorem infix_of_identifier? {t name : Text} (h : t.identifier? = some name) : name <:+: t := by
  unfold identifier? at h
  split at h
  · obtain rfl := Option.some.inj h
    have hb : (t.after identifierMark).before identifierMark <+: t.after identifierMark :=
      List.takeWhile_prefix _
    have ha : t.after identifierMark <:+ t :=
      (List.tail_suffix _).trans (List.dropWhile_suffix _)
    exact hb.isInfix.trans ha.isInfix
  · cases h

theorem afterIdentifier_append {s name : Text} (hs : identifierMark ∉ s)
    (hn : identifierMark ∉ name) (t : Text) : afterIdentifier (s ++ name.identifier ++ t) = t := by
  rw [append_identifier_append, afterIdentifier, after_append hs, after_append hn]

/-- Only behind an identifier is there a last character other than its mark. -/
theorem dropLastIf_identifier {q : Char} (h : q ≠ identifierMark) (s name t : Text) :
    (s ++ name.identifier ++ t).dropLastIf q = s ++ name.identifier ++ t.dropLastIf q := by
  by_cases ht : t = []
  · have hlast : s ++ name.identifier = s ++ identifierMark :: name ++ [identifierMark] := by
      simp [identifier, quoted]
    have hq : dropLastIf (s ++ name.identifier) q = s ++ name.identifier := by
      rw [dropLastIf_eq_self, hlast, List.getLast?_concat]
      simpa using h.symm
    rw [ht, List.append_nil, hq]
    exact (List.append_nil _).symm
  · exact dropLastIf_append ht _ q

theorem afterIdentifier_suffix (t : Text) : t.afterIdentifier <:+ t := by
  have ha : ∀ s : Text, s.after identifierMark <:+ s := fun s =>
    (List.tail_suffix _).trans (List.dropWhile_suffix _)
  exact (ha _).trans (ha t)

/-- A word without a mark stands before an identifier, in it, or behind it. -/
theorem hasWord_identifier {word : Text} (h : identifierMark ∉ word) (hne : word ≠ [])
    (s name t : Text) : hasWord (s ++ name.identifier ++ t) word
      = (hasWord s word || hasWord name word || hasWord t word) := by
  rw [append_identifier_append, hasWord_append_cons h hne, hasWord_append_cons h hne, Bool.or_assoc]

/-- A text that can stand between the marks of a name, on one line. -/
structure IsName (t : Text) : Prop where
  mark : identifierMark ∉ t
  feed : '\n' ∉ t

theorem isName_of_identifier? {t name : Text} (ht : '\n' ∉ t) (h : t.identifier? = some name) :
    name.IsName :=
  ⟨not_mem_of_identifier? h, fun hm => ht ((infix_of_identifier? h).subset hm)⟩

end Text

namespace Dump

/-- The words that tell lines apart. -/
def markers : List Text :=
  [createWords, bodyEndWords, alterWords]

theorem not_mem_of_mem_markers {word : Text} (h : word ∈ markers) :
    identifierMark ∉ word ∧ ',' ∉ word := by
  have hall : ∀ word ∈ markers, identifierMark ∉ word ∧ ',' ∉ word := by decide
  exact hall word h

theorem ne_nil_of_mem_markers {word : Text} (h : word ∈ markers) : word ≠ [] := by
  have hall : ∀ word ∈ markers, word ≠ [] := by decide
  exact hall word h

/-- A text without the words that tell lines apart. -/
def Plain (t : Text) : Prop :=
  ∀ word ∈ markers, t.hasWord word = false

instance : DecidablePred Plain :=
  fun t => inferInstanceAs (Decidable (∀ word ∈ markers, t.hasWord word = false))

namespace Plain

theorem create {t : Text} (h : Plain t) : t.hasWord createWords = false :=
  h _ (by simp [markers])

theorem bodyEnd {t : Text} (h : Plain t) : t.hasWord bodyEndWords = false :=
  h _ (by simp [markers])

theorem alter {t : Text} (h : Plain t) : t.hasWord alterWords = false :=
  h _ (by simp [markers])

theorem of_words {t : Text} (hc : t.hasWord createWords = false)
    (he : t.hasWord bodyEndWords = false) (ha : t.hasWord alterWords = false) : Plain t := by
  simp [Plain, markers, hc, he, ha]

theorem of_isInfix {s t : Text} (h : Plain t) (hs : s <:+: t) : Plain s := by
  intro word hw
  exact hasWord_of_isInfix hs (h word hw)

theorem nil : Plain [] := by
  intro word hw
  simp [hasWord, ne_nil_of_mem_markers hw]

theorem space {t : Text} (h : Plain t) : Plain (' ' :: t) := by
  have hhead : ∀ word ∈ markers, word.head? ≠ some ' ' := by decide
  intro word hw
  rw [hasWord_cons (hhead word hw) (ne_nil_of_mem_markers hw)]
  exact h word hw

theorem comma {t : Text} (h : Plain t) : Plain (t ++ [',']) := by
  intro word hw
  rw [hasWord_append_cons (not_mem_of_mem_markers hw).2 (ne_nil_of_mem_markers hw), h word hw,
    nil word hw]
  rfl

theorem identifier {s name t : Text} (hs : Plain s) (hn : Plain name) (ht : Plain t) :
    Plain (s ++ name.identifier ++ t) := by
  intro word hw
  rw [hasWord_identifier (not_mem_of_mem_markers hw).1 (ne_nil_of_mem_markers hw), hs word hw,
    hn word hw, ht word hw]
  rfl

end Plain

/-- A line of an `ALTER TABLE` block. -/
structure IsBlockLine (line : Text) : Prop where
  feed : '\n' ∉ line
  create : line.hasWord createWords = false
  alter : line.hasWord alterWords = false

end Dump

/-- A column as it can be declared on a line. -/
structure Column.Readable (column : Column) : Prop where
  name : column.name.IsName
  feed : '\n' ∉ column.definition
  start : column.definition.NoLeadingBlank
  plainName : Plain column.name
  plainDefinition : Plain column.definition

/-- A table as it can stand in a dump. -/
structure Table.Readable (table : Table) : Prop where
  name : table.name.IsName
  columns : ∀ column ∈ table.columns, column.Readable
  distinct : table.columnNames.Nodup
  alterLines : ∀ line ∈ table.alterLines, IsBlockLine line

/-- What is read from a line without one of the words is a readable column. -/
theorem Column.readable_of_ofLine? {line : Text} {column : Column} (hl : '\n' ∉ line)
    (hp : Plain line) (h : ofLine? line = some column) : column.Readable := by
  obtain ⟨name, hn, rfl⟩ := Option.map_eq_some_iff.mp h
  have hname := Text.infix_of_identifier? hn
  have hpre := Text.prefix_dropLastIf line.afterIdentifier.trim ','
  have hdefinition : line.afterIdentifier.trim.dropLastIf ',' <:+: line :=
    hpre.isInfix.trans ((Text.infix_trim _).trans (Text.afterIdentifier_suffix line).isInfix)
  exact ⟨Text.isName_of_identifier? hl hn, fun hm => hl (hdefinition.subset hm),
    (Text.noLeadingBlank_trim _).of_isPrefix hpre, hp.of_isInfix hname, hp.of_isInfix hdefinition⟩

namespace Dump

/-- What an event can hold. -/
def Event.Readable : Event → Prop
  | created table => table.IsName
  | column _ declared => declared.Readable
  | alterLine _ line => IsBlockLine line
  | closed | alterOpened _ | ignored => True

theorem Rule.readable {place next : Place} {line : Text} {event : Event}
    (rule : Rule place line event next) (hl : '\n' ∉ line) : event.Readable := by
  cases rule with
  | created create named => exact Text.isName_of_identifier? hl named
  | column noCreate noEnd noAlter declared =>
    exact Column.readable_of_ofLine? hl (.of_words noCreate noEnd noAlter) declared
  | alterLine noCreate noAlter => exact ⟨hl, noCreate, noAlter⟩
  | unnamedCreate => trivial
  | closed => trivial
  | alterOpened => trivial
  | unnamedAlter => trivial
  | outside => trivial
  | noColumn => trivial

/-- Every event of a dump is readable. -/
theorem readable_of_mem_events {dump : Text} {event : Event} (h : event ∈ events dump) :
    event.Readable := by
  have hlines : ∀ (lines : List Text) (place : Place), (∀ line ∈ lines, '\n' ∉ line) →
      event ∈ place.events lines → event.Readable := by
    intro lines
    induction lines with
    | nil => simp
    | cons line rest ih =>
      intro place hl he
      rw [Place.events_cons] at he
      rcases List.mem_cons.mp he with rfl | he
      · exact (place.rule_read line).readable (hl line (by simp))
      · exact ih _ (fun l hm => hl l (List.mem_cons_of_mem _ hm)) he
  exact hlines dump.lines .outside (fun _ hm => Text.not_mem_of_mem_lines hm) h

theorem mem_of_mem_sinceCreated {event : Event} {table : Text} {events : List Event}
    (h : event ∈ sinceCreated table events) : event ∈ events :=
  (sinceCreated_suffix table events).subset h

end Dump

/-- Every table of a dump is readable. -/
theorem Schema.readable_of_mem_ofDump {dump : Text} {table : Table}
    (h : table ∈ (ofDump dump).tables) : table.Readable := by
  have hdistinct := nodup_columnNames_ofEvents h
  rw [ofDump, tables_ofEvents] at h
  obtain ⟨name, hname, rfl⟩ := List.mem_map.mp h
  rw [List.mem_eraseDups, mem_createdNames] at hname
  refine ⟨readable_of_mem_events hname, ?_, hdistinct, ?_⟩
  · intro column hc
    -- The table is read by name, and what is read was declared.
    have hget := Keyed.get?_of_mem hdistinct hc
    rw [← Table.column?, Table.column?_collected] at hget
    have hm := List.mem_reverse.mp (List.mem_of_find?_eq_some hget)
    obtain ⟨event, he, hcolumn⟩ := List.mem_filterMap.mp hm
    obtain rfl := Event.columnOf?_eq_some.mp hcolumn
    exact readable_of_mem_events (mem_of_mem_sinceCreated he)
  · intro line hl
    obtain ⟨event, he, hline⟩ := List.mem_filterMap.mp hl
    obtain rfl := Event.alterLineOf?_eq_some.mp hline
    exact readable_of_mem_events (mem_of_mem_sinceCreated he)

end SchemaGrowth
