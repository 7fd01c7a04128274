import SchemaGrowth.Proofs.Dump.History
import SchemaGrowth.Proofs.Dump.Replay
import SchemaGrowth.Proofs.Text.LineEnds

/-!
# Dumps one behind the other

Where one dump ends outside every block, or the next one starts with a `CREATE TABLE`, the two can
be read apart. All that a dump says of a table it says behind a header that names the table
(`headed_of_mem_events`), so a dump changes no table of another one that it does not name. This is
why the schema of two dumps is the schemas of both, one behind the other (`ofDump_append`).
-/

namespace SchemaGrowth

open Dump

namespace Dump

/-! ## Headers -/

/-- The table that a header names. -/
def Event.header? : Event → Option Text
  | created table | alterOpened table => some table
  | closed | column _ _ | alterLine _ _ | ignored => none

/-- The table in whose block a place is. -/
def Place.table? : Place → Option Text
  | outside => none
  | body table | alteration table => some table

/-- Whether a header among some events names a table. -/
def Headed (events : List Event) (table : Text) : Prop :=
  ∃ event ∈ events, event.header? = some table

theorem Headed.append {events : List Event} {table : Text} (h : Headed events table)
    (later : List Event) : Headed (events ++ later) table := by
  obtain ⟨event, hm, hheader⟩ := h
  exact ⟨event, List.mem_append_left _ hm, hheader⟩

/-- What a line is about, and the block behind it, is the table of the line's own header or of the
block before it. -/
theorem Rule.header? {place next : Place} {line table : Text} {event : Event}
    (rule : Rule place line event next)
    (h : event.subject? = some table ∨ next.table? = some table) :
    event.header? = some table ∨ place.table? = some table := by
  cases rule with
  | created create named => exact .inl (h.elim id id)
  | unnamedCreate create unnamed => simp [Event.subject?, Place.table?] at h
  | closed noCreate bodyEnd => simp [Event.subject?, Place.table?] at h
  | alterOpened noCreate noEnd alter named =>
    exact .inl (h.resolve_left (by simp [Event.subject?]))
  | unnamedAlter noCreate noEnd alter unnamed =>
    exact .inr (h.resolve_left (by simp [Event.subject?]))
  | outside noCreate noAlter => simp [Event.subject?, Place.table?] at h
  | column noCreate noEnd noAlter declared => exact .inr (h.elim id id)
  | noColumn noCreate noEnd noAlter none =>
    exact .inr (h.resolve_left (by simp [Event.subject?]))
  | alterLine noCreate noAlter =>
    refine .inr (h.elim id ?_)
    intro hnext
    split at hnext
    · simp [Place.table?] at hnext
    · exact hnext

/-- Whether all that is said, and the block behind it, stands under a header. -/
structure AllHeaded (events : List Event) (place : Place) : Prop where
  said : ∀ event ∈ events, ∀ table, event.subject? = some table → Headed events table
  block : ∀ table, place.table? = some table → Headed events table

/-- The rules leave nothing without a header. -/
theorem Rule.allHeaded {events : List Event} {place next : Place} {line : Text} {event : Event}
    (rule : Rule place line event next) (h : AllHeaded events place) :
    AllHeaded (events ++ [event]) next := by
  have hnew : ∀ table, event.subject? = some table ∨ next.table? = some table →
      Headed (events ++ [event]) table := by
    intro table htable
    cases rule.header? htable with
    | inl hheader => exact ⟨event, by simp, hheader⟩
    | inr hblock => exact (h.block table hblock).append [event]
  refine ⟨?_, fun table htable => hnew table (.inr htable)⟩
  intro said hm table hsubject
  rcases List.mem_append.mp hm with hm | hm
  · exact (h.said said hm table hsubject).append [event]
  · obtain rfl := List.mem_singleton.mp hm
    exact hnew table (.inl hsubject)

/-- A dump says nothing of a table that no header of it names. -/
theorem headed_of_mem_events {dump table : Text} {event : Event} (h : event ∈ events dump)
    (hs : event.subject? = some table) : Headed (events dump) table := by
  have hrun : AllHeaded (events dump) (Place.outside.behind dump.lines) :=
    Place.invariant (fun _ events place => AllHeaded events place)
      ⟨by simp, by simp [Place.table?]⟩ (fun hold rule => rule.allHeaded hold) dump.lines
  exact hrun.said event h table hs

/-! ## Reading apart -/

/-- Whether a dump can be read apart from the lines before it, which leave the place as given. -/
def StartsAt (place : Place) (dump : Text) : Prop :=
  place = .outside ∨ ∃ line ∈ dump.lines.head?, line.hasWord createWords = true

/-- Behind a header of a `CREATE TABLE`, nothing is left of the place before it. -/
theorem Place.read_of_create {line : Text} (h : line.hasWord createWords = true)
    (place other : Place) : place.read line = other.read line := by
  rw [Place.read, Place.read, if_pos h, if_pos h]

/-- A dump that can be read apart says what it says on its own. -/
theorem StartsAt.events {place : Place} {dump : Text} (h : StartsAt place dump) :
    place.events dump.lines = Dump.events dump := by
  unfold Dump.events
  rcases h with rfl | ⟨line, hline, hcreate⟩
  · rfl
  · obtain ⟨rest, hlines⟩ := List.head?_eq_some_iff.mp hline
    rw [hlines, Place.events_cons, Place.events_cons, Place.read_of_create hcreate place .outside]

/-- What two dumps say, one behind the other. -/
theorem events_append {first second : Text} (closed : first.Closed)
    (starts : StartsAt (Place.outside.behind first.lines) second) :
    events (first ++ second) = events first ++ events second := by
  rw [← starts.events, events, events, Text.lines_append_of_closed closed, Place.events_append]

end Dump

namespace Schema

/-- **Dumps compose.** If every line of a dump is closed, and the place behind them is outside every
block or the next dump starts with a `CREATE TABLE`, then both dumps say together what each of them
says alone. If besides no header of the second names a table of the first, then the schema has the
tables of the first, as they were, and behind them those of the second. -/
theorem ofDump_append {first second : Text} (closed : first.Closed)
    (starts : StartsAt (Place.outside.behind first.lines) second) :
    events (first ++ second) = events first ++ events second
    ∧ ((∀ name ∈ (ofDump first).tableNames,
          .created name ∉ events second ∧ .alterOpened name ∉ events second) →
        (ofDump (first ++ second)).tables = (ofDump first).tables ++ (ofDump second).tables) := by
  have hevents := Dump.events_append closed starts
  refine ⟨hevents, ?_⟩
  intro hnames
  have hsubjects : ∀ event ∈ events second, ∀ name, event.subject? = some name →
      name ∉ (ofDump first).tables.map Table.name := by
    intro event hm name hsubject hname
    obtain ⟨header, hheader, hnamed⟩ := headed_of_mem_events hm hsubject
    cases header with
    | created table =>
      obtain rfl : table = name := Option.some.inj hnamed
      exact (hnames table hname).1 hheader
    | alterOpened table =>
      obtain rfl : table = name := Option.some.inj hnamed
      exact (hnames table hname).2 hheader
    | closed | column | alterLine | ignored => cases hnamed
  have hfold := foldl_apply_append hsubjects []
  rw [List.append_nil] at hfold
  calc (ofDump (first ++ second)).tables
      = ((events second).foldl apply (ofDump first)).tables := by
        rw [ofDump, hevents, ofEvents_append, ofDump]
    _ = (ofDump first).tables ++ (ofDump second).tables := congrArg Schema.tables hfold

/-- A dump that ends within an `ALTER TABLE` block. -/
def unfinished : Text :=
  "CREATE TABLE `a` (\n`x` int\nALTER TABLE `a`\nADD KEY `x`,\r\n".toList

/-- A dump with a block of a table that it does not declare. -/
def unrelated : Text :=
  "CREATE TABLE `b` (\n`y` int\nALTER TABLE `c`\nADD `z` int".toList

theorem ofDump_append_unfinished :
    unfinished.Closed ∧ StartsAt (Place.outside.behind unfinished.lines) unrelated
      ∧ (∀ name ∈ (ofDump unfinished).tableNames,
          .created name ∉ events unrelated ∧ .alterOpened name ∉ events unrelated)
      ∧ events (unfinished ++ unrelated) = events unfinished ++ events unrelated
      ∧ (ofDump (unfinished ++ unrelated)).tables
        = (ofDump unfinished).tables ++ (ofDump unrelated).tables := by
  have closed : unfinished.Closed := .inr (by decide +kernel)
  have starts : StartsAt (Place.outside.behind unfinished.lines) unrelated :=
    .inr ⟨"CREATE TABLE `b` (".toList, by decide +kernel, by decide +kernel⟩
  have hnames : ∀ name ∈ (ofDump unfinished).tableNames,
      .created name ∉ events unrelated ∧ .alterOpened name ∉ events unrelated := by
    decide +kernel
  obtain ⟨hevents, htables⟩ := ofDump_append closed starts
  exact ⟨closed, starts, hnames, hevents, htables hnames⟩

end Schema

end SchemaGrowth
