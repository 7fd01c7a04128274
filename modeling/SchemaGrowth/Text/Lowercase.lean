import SchemaGrowth.Text.Basic
import SchemaGrowth.Unicode.Cased
import SchemaGrowth.Unicode.CaseIgnorable
import SchemaGrowth.Unicode.LowercaseMapping

/-!
# Lowercase text

Full Unicode lowercasing. Every character is mapped on its own except capital sigma, which becomes
the final form `ς` at the end of a word and `σ` elsewhere.
-/

namespace SchemaGrowth.Text

open Unicode

/-- Whether the first character that is not case-ignorable is a letter that has a case. -/
def leadsWithCased (t : Text) : Bool :=
  (t.dropWhile isCaseIgnorable).head?.any isCased

/-- Whether a character ends a word: a letter stands before it and none after it, case-ignorable
characters not counted. The characters before it are given from the nearest to the farthest. -/
def endsWord (preceding following : Text) : Bool :=
  leadsWithCased preceding && !leadsWithCased following

/-- The lowercase form of a character between the characters around it. -/
def lowercaseAt (preceding : Text) (c : Char) (following : Text) : Text :=
  if c = '\u03A3' then [if endsWord preceding following then '\u03C2' else '\u03C3']
  else if c = '\u0130' then ['i', '\u0307']
  else [lowercaseLetter c]

/-- The lowercase form of the rest of a text, whose characters so far are given from the nearest to
the farthest. -/
def lowercaseFrom (preceding : Text) : Text → Text
  | [] => []
  | c :: rest => lowercaseAt preceding c rest ++ lowercaseFrom (c :: preceding) rest

/-- The lowercase form of a text. -/
def lowercase (t : Text) : Text :=
  lowercaseFrom [] t

@[simp] theorem lowercase_nil : lowercase [] = [] := rfl

end SchemaGrowth.Text
