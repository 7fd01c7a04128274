import Mathlib.Data.List.Induction
import SchemaGrowth.Dump.Reading

/-!
# The rules of reading

`Rule` lists the ways in which a line of a dump can be read, each with the words that the line
must and must not hold. `read_eq_iff` says that `Place.read` follows these rules and no others, so
what holds of every reading is shown rule by rule. `events_concat` and `behind_concat` take a step
to a run.
-/

namespace SchemaGrowth.Dump

/-- How a line is read at a place: what it says, and the place behind it. -/
inductive Rule : Place → Text → Event → Place → Prop
  | created {place : Place} {line table : Text} (create : line.hasWord createWords = true)
      (named : line.identifier? = some table) : Rule place line (.created table) (.body table)
  | unnamedCreate {place : Place} {line : Text} (create : line.hasWord createWords = true)
      (unnamed : line.identifier? = none) : Rule place line .ignored .outside
  | closed {table line : Text} (noCreate : line.hasWord createWords = false)
      (bodyEnd : line.hasWord bodyEndWords = true) : Rule (.body table) line .closed .outside
  | alterOpened {place : Place} {line table : Text} (noCreate : line.hasWord createWords = false)
      (noEnd : (place.isBody && line.hasWord bodyEndWords) = false)
      (alter : line.hasWord alterWords = true) (named : line.identifier? = some table) :
      Rule place line (.alterOpened table) (.alteration table)
  | unnamedAlter {place : Place} {line : Text} (noCreate : line.hasWord createWords = false)
      (noEnd : (place.isBody && line.hasWord bodyEndWords) = false)
      (alter : line.hasWord alterWords = true) (unnamed : line.identifier? = none) :
      Rule place line .ignored place
  | outside {line : Text} (noCreate : line.hasWord createWords = false)
      (noAlter : line.hasWord alterWords = false) : Rule .outside line .ignored .outside
  | column {table line : Text} {column : Column} (noCreate : line.hasWord createWords = false)
      (noEnd : line.hasWord bodyEndWords = false) (noAlter : line.hasWord alterWords = false)
      (declared : Column.ofLine? line = some column) :
      Rule (.body table) line (.column table column) (.body table)
  | noColumn {table line : Text} (noCreate : line.hasWord createWords = false)
      (noEnd : line.hasWord bodyEndWords = false) (noAlter : line.hasWord alterWords = false)
      (none : Column.ofLine? line = none) : Rule (.body table) line .ignored (.body table)
  | alterLine {table line : Text} (noCreate : line.hasWord createWords = false)
      (noAlter : line.hasWord alterWords = false) :
      Rule (.alteration table) line (.alterLine table line)
        (if endsStatement line then .outside else .alteration table)

namespace Rule

variable {place next : Place} {line : Text} {event : Event}

/-- What a rule allows is what is read. -/
theorem read_eq (h : Rule place line event next) : place.read line = (event, next) := by
  cases h with
  | created create named => simp [Place.read, create, named]
  | unnamedCreate create unnamed => simp [Place.read, create, unnamed]
  | closed noCreate bodyEnd => simp [Place.read, Place.isBody, noCreate, bodyEnd]
  | alterOpened noCreate noEnd alter named => simp [Place.read, noCreate, noEnd, alter, named]
  | unnamedAlter noCreate noEnd alter unnamed => simp [Place.read, noCreate, noEnd, alter, unnamed]
  | outside noCreate noAlter =>
    simp [Place.read, Place.isBody, Place.readInside, noCreate, noAlter]
  | column noCreate noEnd noAlter declared =>
    simp [Place.read, Place.isBody, Place.readInside, noCreate, noEnd, noAlter, declared]
  | noColumn noCreate noEnd noAlter none =>
    simp [Place.read, Place.isBody, Place.readInside, noCreate, noEnd, noAlter, none]
  | alterLine noCreate noAlter =>
    simp [Place.read, Place.isBody, Place.readInside, noCreate, noAlter]

end Rule

namespace Place

/-- Every reading follows a rule. -/
theorem rule_read (place : Place) (line : Text) :
    Rule place line (place.read line).1 (place.read line).2 := by
  unfold read
  split
  · rename_i create
    cases hi : line.identifier? with
    | none => exact .unnamedCreate create hi
    | some table => exact .created create hi
  · rename_i noCreate
    have noCreate := eq_false_of_ne_true noCreate
    split
    · rename_i bodyEnd
      rw [Bool.and_eq_true] at bodyEnd
      cases place with
      | body table => exact .closed noCreate bodyEnd.2
      | outside => exact absurd bodyEnd.1 (by simp [isBody])
      | alteration table => exact absurd bodyEnd.1 (by simp [isBody])
    · rename_i noEnd
      have noEnd := eq_false_of_ne_true noEnd
      split
      · rename_i alter
        cases hi : line.identifier? with
        | none => exact .unnamedAlter noCreate noEnd alter hi
        | some table => exact .alterOpened noCreate noEnd alter hi
      · rename_i noAlter
        have noAlter := eq_false_of_ne_true noAlter
        cases place with
        | outside => exact .outside noCreate noAlter
        | alteration table => exact .alterLine noCreate noAlter
        | body table =>
          have noEnd : line.hasWord bodyEndWords = false := by simpa [isBody] using noEnd
          cases hc : Column.ofLine? line with
          | none =>
            simp only [readInside, hc]
            exact .noColumn noCreate noEnd noAlter hc
          | some column =>
            simp only [readInside, hc]
            exact .column noCreate noEnd noAlter hc

theorem read_eq_iff {place next : Place} {line : Text} {event : Event} :
    place.read line = (event, next) ↔ Rule place line event next := by
  constructor
  · intro h
    have hr := place.rule_read line
    rwa [h] at hr
  · exact Rule.read_eq

/-! ## From steps to runs -/

theorem events_concat (place : Place) (lines : List Text) (line : Text) :
    place.events (lines ++ [line])
      = place.events lines ++ [((place.behind lines).read line).1] := by
  rw [events_append, events_cons, events_nil]

theorem behind_concat (place : Place) (lines : List Text) (line : Text) :
    place.behind (lines ++ [line]) = ((place.behind lines).read line).2 := by
  rw [behind_append, behind_cons, behind_nil]

@[simp] theorem length_events (place : Place) (lines : List Text) :
    (place.events lines).length = lines.length := by
  induction lines generalizing place with
  | nil => rfl
  | cons line rest ih => rw [events_cons, List.length_cons, List.length_cons, ih]

/-- What is said up to a line does not depend on the lines behind it. -/
theorem take_events (place : Place) (lines : List Text) (i : Nat) :
    (place.events lines).take i = place.events (lines.take i) := by
  induction lines generalizing place i with
  | nil => simp
  | cons line rest ih =>
    cases i with
    | zero => rfl
    | succ i => rw [events_cons, List.take_succ_cons, ih, List.take_succ_cons, events_cons]

/-- What is said behind a line depends on the lines before it by their place alone. -/
theorem drop_events (place : Place) (lines : List Text) (i : Nat) :
    (place.events lines).drop i = (place.behind (lines.take i)).events (lines.drop i) := by
  induction lines generalizing place i with
  | nil => simp
  | cons line rest ih =>
    cases i with
    | zero => rfl
    | succ i =>
      rw [events_cons, List.drop_succ_cons, ih, List.take_succ_cons, behind_cons,
        List.drop_succ_cons]

/-- What holds at first and is kept by every rule holds after every line. -/
theorem invariant (Holds : List Text → List Event → Place → Prop) {start : Place}
    (first : Holds [] [] start)
    (kept : ∀ {lines events place line event next}, Holds lines events place →
      Rule place line event next → Holds (lines ++ [line]) (events ++ [event]) next)
    (lines : List Text) : Holds lines (start.events lines) (start.behind lines) := by
  induction lines using List.reverseRecOn with
  | nil => exact first
  | append_singleton lines line ih =>
    rw [events_concat, behind_concat]
    exact kept ih (rule_read _ _)

end Place

end SchemaGrowth.Dump
