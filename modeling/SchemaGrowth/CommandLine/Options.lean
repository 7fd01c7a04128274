import SchemaGrowth.Text.Basic

/-!
# Options

The arguments of a command, read into items: switches, options with their values, and operands.
`--name value`, `--name=value`, `-n value`, `-nvalue` and `-n=value` say the same; switches of one
letter may stand together behind one dash, and an option may end such a group. After `--` every
argument is an operand. A value in an argument of its own starts with a dash only if it is just
that.
-/

namespace SchemaGrowth.CommandLine

/-- What a switch or an option is about. -/
inductive Key where
  | verbose
  | help
  | version
  | old
  | new
  | outputDirectory
  | dryRun
  | printCreate
  | pretty
  deriving DecidableEq

/-- Whether a value belongs to the key. -/
def Key.takesValue : Key → Bool
  | old | new | outputDirectory => true
  | _ => false

/-- How a key is written: its long name, and its letter if it has one. -/
structure Spelling where
  key : Key
  long : Text
  short : Option Char

/-- The spellings that a command understands. -/
abbrev Grammar := List Spelling

/-- What is wrong with some arguments. -/
inductive UsageError where
  | missingCommand
  | unknownCommand (name : Text)
  | unknownArgument (argument : Text)
  | missingValue (option : Text)
  | emptyValue (name : Text)
  | unexpectedValue (argument : Text)
  | repeated (argument : Text)
  | missingOperand (name : Text)
  deriving DecidableEq

/-- What is said about wrong arguments. -/
def UsageError.message : UsageError → Text
  | missingCommand => "a command is required".toList
  | unknownCommand name => "unknown command: ".toList ++ name
  | unknownArgument argument => "unexpected argument: ".toList ++ argument
  | missingValue option => "a value is required for ".toList ++ option
  | emptyValue name => "the value must not be empty: ".toList ++ name
  | unexpectedValue argument => "no value is taken: ".toList ++ argument
  | repeated argument => "given more than once: ".toList ++ argument
  | missingOperand name => "required but not given: ".toList ++ name

/-- A part of the arguments. -/
inductive Item where
  | switch (key : Key)
  | value (key : Key) (text : Text)
  | operand (text : Text)
  deriving DecidableEq

/-- The items of one argument, and the key whose value has to be the next argument. -/
structure Reading where
  items : List (Except UsageError Item)
  awaiting : Option Key

/-- Whether an argument is more than an operand: it starts with a dash and has more than that. -/
def isDashed : Text → Bool
  | '-' :: _ :: _ => true
  | _ => false

namespace Grammar

/-- The name of a key as it is written in full. -/
def nameOf (grammar : Grammar) (key : Key) : Text :=
  match grammar.find? (·.key = key) with
  | some spelling => '-' :: '-' :: spelling.long
  | none => []

/-- Reads an argument with a long name, given without its two dashes. -/
def readLong (grammar : Grammar) (body : Text) : Reading :=
  match grammar.find? (·.long = body.before '=') with
  | none => ⟨[.error (.unknownArgument ('-' :: '-' :: body))], none⟩
  | some spelling =>
    if '=' ∈ body then
      if spelling.key.takesValue then ⟨[.ok (.value spelling.key (body.after '='))], none⟩
      else ⟨[.error (.unexpectedValue ('-' :: '-' :: body))], none⟩
    else if spelling.key.takesValue then ⟨[], some spelling.key⟩
    else ⟨[.ok (.switch spelling.key)], none⟩

/-- The value that follows a letter in its own argument, behind an equals sign or not. -/
def attachedValue : Text → Text
  | '=' :: value => value
  | value => value

/-- Reads letters behind one dash. -/
def readLetters (grammar : Grammar) : Text → Reading
  | [] => ⟨[], none⟩
  | letter :: rest =>
    match grammar.find? (·.short = some letter) with
    | none => ⟨[.error (.unknownArgument ['-', letter])], none⟩
    | some spelling =>
      if spelling.key.takesValue then
        if rest = [] then ⟨[], some spelling.key⟩
        else ⟨[.ok (.value spelling.key (attachedValue rest))], none⟩
      else
        let following := grammar.readLetters rest
        { following with items := .ok (.switch spelling.key) :: following.items }

/-- Reads an argument that starts with a dash. -/
def readDashed (grammar : Grammar) : Text → Reading
  | '-' :: '-' :: body => grammar.readLong body
  | argument => grammar.readLetters argument.tail

/-- The items of some arguments, in order. -/
def items (grammar : Grammar) : List Text → List (Except UsageError Item)
  | [] => []
  | argument :: rest =>
    if argument = ['-', '-'] then rest.map fun text => .ok (.operand text)
    else if isDashed argument then
      let reading := grammar.readDashed argument
      match reading.awaiting, rest with
      | none, rest => reading.items ++ grammar.items rest
      | some key, [] => reading.items ++ [.error (.missingValue (grammar.nameOf key))]
      | some key, value :: rest =>
        if isDashed value then reading.items ++ [.error (.missingValue (grammar.nameOf key))]
        else reading.items ++ .ok (.value key value) :: grammar.items rest
    else .ok (.operand argument) :: grammar.items rest

end Grammar

end SchemaGrowth.CommandLine
