import SchemaGrowth.Text.Digits

/-!
# JSON text

String literals, arrays and objects as JSON text in two layouts: `compact` without any space, and
`pretty` with one item a line and two spaces of indent for each level. An empty array has no space
in either. A literal escapes quotes, backslashes and the characters below U+0020, and nothing else.
-/

namespace SchemaGrowth.Json

/-! ## String literals -/

/-- A character as it stands inside a string literal. -/
def escape (c : Char) : Text :=
  if c = '"' then ['\\', '"']
  else if c = '\\' then ['\\', '\\']
  else if c = '\x08' then ['\\', 'b']
  else if c = '\t' then ['\\', 't']
  else if c = '\n' then ['\\', 'n']
  else if c = '\x0c' then ['\\', 'f']
  else if c = '\r' then ['\\', 'r']
  else if c.toNat < 0x20 then ['\\', 'u', '0', '0'] ++ Text.hexPair c.toNat
  else [c]

/-- A text as a string literal. -/
def string (t : Text) : Text :=
  '"' :: (t.flatMap escape ++ ['"'])

/-! ## Layouts -/

/-- How the parts of a JSON text are set apart. -/
structure Layout where
  /-- What stands before an item, or before a closing bracket, at a depth of nesting. -/
  lineBreak : Nat → Text
  /-- What stands between the key and the value of a member. -/
  colon : Text

/-- Everything on one line and without spaces. -/
def compact : Layout :=
  ⟨fun _ => [], [':']⟩

/-- One item a line, two spaces for each level of nesting, and a space after a colon. -/
def pretty : Layout :=
  ⟨fun depth => '\n' :: List.replicate (2 * depth) ' ', [':', ' ']⟩

namespace Layout

/-- The items of an array or object at a depth of nesting, between its brackets. -/
def group (layout : Layout) (opening closing : Char) (depth : Nat) (items : List Text) : Text :=
  if items.isEmpty then [opening, closing]
  else
    opening :: [','].intercalate (items.map (layout.lineBreak (depth + 1) ++ ·))
      ++ layout.lineBreak depth ++ [closing]

/-- The array of some items. -/
def array (layout : Layout) : Nat → List Text → Text :=
  layout.group '[' ']'

/-- The object of some members, each a key with the text of its value. -/
def object (layout : Layout) (depth : Nat) (members : List (Text × Text)) : Text :=
  layout.group '\x7b' '\x7d' depth (members.map fun m => string m.1 ++ layout.colon ++ m.2)

end Layout

end SchemaGrowth.Json
