import SchemaGrowth.Proofs.Dump.Rule
import SchemaGrowth.Proofs.FirstSeen

/-!
# The lines of one table

Where a header names a table that is new, and no line behind it names another one, the schema grows
by one table at its end. What becomes of that table is seen without the others: `replay` takes a
place and a table through some lines, and `foldl_apply_events` says that the schema follows.
-/

namespace SchemaGrowth

open Dump

/-! ## What a line is about -/

/-- The table after a line of its own said something. -/
def Table.apply (table : Table) : Event → Table
  | .created _ => .empty table.name
  | .column _ column => table.setColumn column
  | .alterLine _ line => table.addAlterLine line
  | .closed | .alterOpened _ | .ignored => table

@[simp] theorem Table.name_apply (table : Table) (event : Event) :
    (table.apply event).name = table.name := by
  cases event <;> rfl

namespace Dump

/-- The table that an event changes. -/
def Event.subject? : Event → Option Text
  | created table | column table _ | alterLine table _ => some table
  | closed | alterOpened _ | ignored => none

/-- Whether an event changes no table but the one of a name. -/
def Event.IsAbout (name : Text) : Event → Prop
  | created table | column table _ | alterLine table _ => table = name
  | closed | alterOpened _ | ignored => True

theorem Event.IsAbout.eq_of_subject? {name table : Text} {event : Event} (h : event.IsAbout name)
    (hs : event.subject? = some table) : table = name := by
  cases event with
  | created | column | alterLine => exact (Option.some.inj hs).symm.trans h
  | closed | alterOpened | ignored => cases hs

/-- Whether a place is in no block but those of a table. -/
def Place.IsAbout (name : Text) : Place → Prop
  | outside => True
  | body table | alteration table => table = name

/-- A line that names a table if it is a header. -/
def Names (name line : Text) : Prop :=
  (line.hasWord createWords || line.hasWord alterWords) = true → line.identifier? = some name

/-- Lines that name one table are about that table. -/
theorem Rule.isAbout {name : Text} {place next : Place} {line : Text} {event : Event}
    (rule : Rule place line event next) (hp : place.IsAbout name) (hl : Names name line) :
    event.IsAbout name ∧ next.IsAbout name := by
  cases rule with
  | @created place line table create named =>
    have he : table = name := Option.some.inj (named.symm.trans (hl (by simp [create])))
    exact ⟨he, he⟩
  | unnamedCreate create unnamed => exact ⟨trivial, trivial⟩
  | closed noCreate bodyEnd => exact ⟨trivial, trivial⟩
  | @alterOpened place line table noCreate noEnd alter named =>
    have he : table = name := Option.some.inj (named.symm.trans (hl (by simp [alter])))
    exact ⟨trivial, he⟩
  | unnamedAlter noCreate noEnd alter unnamed => exact ⟨trivial, hp⟩
  | outside noCreate noAlter => exact ⟨trivial, trivial⟩
  | column noCreate noEnd noAlter declared => exact ⟨hp, hp⟩
  | noColumn noCreate noEnd noAlter none => exact ⟨trivial, hp⟩
  | alterLine noCreate noAlter =>
    refine ⟨hp, ?_⟩
    split
    · trivial
    · exact hp

/-- The place and the table behind some lines. -/
def replay (state : Place × Table) (lines : List Text) : Place × Table :=
  lines.foldl (fun s line => ((s.1.read line).2, s.2.apply (s.1.read line).1)) state

@[simp] theorem replay_nil (state : Place × Table) : replay state [] = state := rfl

theorem replay_append (state : Place × Table) (first second : List Text) :
    replay state (first ++ second) = replay (replay state first) second := by
  simp [replay]

theorem replay_cons (place : Place) (table : Table) (line : Text) (rest : List Text) :
    replay (place, table) (line :: rest)
      = replay ((place.read line).2, table.apply (place.read line).1) rest := rfl

theorem replay_of_read {place next : Place} {line : Text} {event : Event}
    (h : place.read line = (event, next)) (table : Table) (rest : List Text) :
    replay (place, table) (line :: rest) = replay (next, table.apply event) rest := by
  rw [replay_cons, h]

theorem name_replay (state : Place × Table) (lines : List Text) :
    (replay state lines).2.name = state.2.name := by
  induction lines generalizing state with
  | nil => rfl
  | cons line rest ih =>
    obtain ⟨place, table⟩ := state
    rw [replay_cons, ih, Table.name_apply]

end Dump

/-! ## Schemas in two parts -/

namespace Schema

/-- An event that changes no table of the first part changes the second part alone. -/
theorem apply_append {first : List Table} {event : Event}
    (h : ∀ name, event.subject? = some name → name ∉ first.map Table.name) (second : List Table) :
    (Schema.mk (first ++ second)).apply event
      = ⟨first ++ ((Schema.mk second).apply event).tables⟩ := by
  cases event with
  | created name =>
    exact congrArg Schema.mk (Keyed.put_append (x := Table.empty name) (h name rfl) second)
  | column name column => exact congrArg Schema.mk (Keyed.modifyFirst_append (h name rfl) _ second)
  | alterLine name line => exact congrArg Schema.mk (Keyed.modifyFirst_append (h name rfl) _ second)
  | closed => rfl
  | alterOpened name => rfl
  | ignored => rfl

theorem foldl_apply_append {first : List Table} {events : List Event}
    (h : ∀ event ∈ events, ∀ name, event.subject? = some name → name ∉ first.map Table.name)
    (second : List Table) :
    events.foldl apply ⟨first ++ second⟩ = ⟨first ++ (events.foldl apply ⟨second⟩).tables⟩ := by
  induction events generalizing second with
  | nil => rfl
  | cons event rest ih =>
    have hevent := apply_append (h event (by simp)) second
    rw [List.foldl_cons, List.foldl_cons, hevent]
    exact ih (fun later hm => h later (List.mem_cons_of_mem _ hm)) _

/-- An event that is about a table changes a schema of that table alone. -/
theorem apply_singleton {table : Table} {event : Event} (he : event.IsAbout table.name) :
    (Schema.mk [table]).apply event = ⟨[table.apply event]⟩ := by
  cases event with
  | created name =>
    obtain rfl : name = table.name := he
    simp [apply, insert, Keyed.put, Table.empty, Table.apply]
  | column name column =>
    obtain rfl : name = table.name := he
    simp [apply, modify, Keyed.modifyFirst, Table.apply]
  | alterLine name line =>
    obtain rfl : name = table.name := he
    simp [apply, modify, Keyed.modifyFirst, Table.apply]
  | closed => rfl
  | alterOpened name => rfl
  | ignored => rfl

/-- An event that is about the last table changes it alone. -/
theorem apply_concat {tables : List Table} {table : Table} {event : Event}
    (hn : table.name ∉ tables.map Table.name) (he : event.IsAbout table.name) :
    (Schema.mk (tables ++ [table])).apply event = ⟨tables ++ [table.apply event]⟩ := by
  have hsubject : ∀ name, event.subject? = some name → name ∉ tables.map Table.name := by
    intro name hname
    rw [he.eq_of_subject? hname]
    exact hn
  rw [apply_append hsubject, apply_singleton he]

/-- Lines that name the last table are replayed on it. -/
theorem foldl_apply_events {tables : List Table} {table : Table} {place : Place}
    {lines : List Text} (hn : table.name ∉ tables.map Table.name) (hp : place.IsAbout table.name)
    (hl : ∀ line ∈ lines, Names table.name line) :
    (place.events lines).foldl apply ⟨tables ++ [table]⟩
      = ⟨tables ++ [(replay (place, table) lines).2]⟩ := by
  induction lines generalizing place table with
  | nil => rfl
  | cons line rest ih =>
    obtain ⟨he, hnext⟩ := (place.rule_read line).isAbout hp (hl line (by simp))
    rw [Place.events_cons, List.foldl_cons, apply_concat hn he, replay_cons]
    -- The table has changed, but it has kept its name.
    refine ih ?_ ?_ ?_
    · rw [Table.name_apply]
      exact hn
    · rw [Table.name_apply]
      exact hnext
    · intro l hm
      rw [Table.name_apply]
      exact hl l (List.mem_cons_of_mem _ hm)

end Schema

end SchemaGrowth
