import SchemaGrowth.CommandLine.Options

/-!
# Requests

What the arguments of the program ask for. Arguments are taken from left to right, and the first one
that is wrong, or that asks for help or for the version, decides. What a `diff` is not told by its
arguments it takes from the environment, and else from its defaults.
-/

namespace SchemaGrowth.CommandLine

/-- What a `diff` works on. -/
structure DiffOptions where
  /-- The dump of the schema as it is. -/
  old : Text
  /-- The dump of the schema as it should be. -/
  new : Text
  outputDirectory : Text
  dryRun : Bool
  printCreate : Bool
  deriving DecidableEq

/-- What the program is asked to do. -/
inductive Command where
  /-- Give the statements that take an old schema to a new one. -/
  | diff (options : DiffOptions)
  /-- Show the schema of a dump as JSON. -/
  | model (dump : Text) (pretty : Bool)
  deriving DecidableEq

/-- A command, and whether its details are to be told. -/
structure Request where
  verbose : Bool
  command : Command
  deriving DecidableEq

/-- Why there is no command to carry out. -/
inductive Halt where
  | help
  | version
  | misuse (error : UsageError)
  deriving DecidableEq

/-! ## Grammars -/

/-- The spelling of what every command understands. -/
def commonGrammar : Grammar :=
  [⟨.verbose, "verbose".toList, some 'v'⟩, ⟨.help, "help".toList, some 'h'⟩]

/-- What is understood before the name of a command. -/
def programGrammar : Grammar :=
  commonGrammar ++ [⟨.version, "version".toList, some 'V'⟩]

/-- What `diff` understands. -/
def diffGrammar : Grammar :=
  commonGrammar ++
    [ ⟨.old, "old".toList, none⟩,
      ⟨.new, "new".toList, none⟩,
      ⟨.outputDirectory, "output-dir".toList, some 'o'⟩,
      ⟨.dryRun, "dry-run".toList, none⟩,
      ⟨.printCreate, "print-create".toList, none⟩ ]

/-- What `model` understands. -/
def modelGrammar : Grammar :=
  commonGrammar ++ [⟨.pretty, "pretty".toList, none⟩]

/-! ## Items -/

namespace Item

/-- The key of a switch or an option. -/
def key? : Item → Option Key
  | switch key | value key _ => some key
  | operand _ => none

/-- The text of an operand. -/
def operand? : Item → Option Text
  | operand text => some text
  | _ => none

/-- The value given for a key. -/
def valueFor? (key : Key) : Item → Option Text
  | value k text => if k = key then some text else none
  | _ => none

/-- Takes an item after others: no key comes twice, no value is empty, and there are no more than
`limit` operands. -/
def accept (grammar : Grammar) (limit : Nat) (given : List Item) (item : Item) :
    Except Halt Item :=
  match item with
  | switch .help => .error .help
  | switch .version => .error .version
  | switch key => if given.any (·.key? = some key) then repeated key else .ok item
  | value key text =>
    if given.any (·.key? = some key) then repeated key
    else if text = [] then .error (.misuse (.emptyValue (grammar.nameOf key)))
    else .ok item
  | operand text =>
    if limit ≤ (given.filterMap operand?).length then .error (.misuse (.unknownArgument text))
    else if text = [] then .error (.misuse (.emptyValue text))
    else .ok item
where
  repeated (key : Key) : Except Halt Item :=
    .error (.misuse (.repeated (grammar.nameOf key)))

end Item

/-- Takes the items of some arguments after those that were given before. -/
def collect (grammar : Grammar) (limit : Nat) :
    List Item → List (Except UsageError Item) → Except Halt (List Item)
  | given, [] => .ok given
  | _, .error error :: _ => .error (.misuse error)
  | given, .ok item :: rest => do
    let item ← item.accept grammar limit given
    collect grammar limit (given ++ [item]) rest

/-! ## Commands -/

/-- The variable of the environment that names the old dump. -/
def oldVariable : Text := "DDL_DIFF_OLD".toList

/-- The variable of the environment that names the new dump. -/
def newVariable : Text := "DDL_DIFF_NEW".toList

/-- The variable of the environment that names the output directory. -/
def outputVariable : Text := "DDL_DIFF_OUTPUT_DIR".toList

/-- The variables of the environment at which a request may look. -/
def environmentNames : List Text :=
  [oldVariable, newVariable, outputVariable]

/-- The value for a key: what was given, or else what a variable of the environment holds, or else a
default. -/
def setting (environment : Text → Option Text) (given : List Item) (key : Key)
    (name default : Text) : Except Halt Text :=
  match given.findSome? (·.valueFor? key), environment name with
  | some text, _ => .ok text
  | none, some [] => .error (.misuse (.emptyValue name))
  | none, some text => .ok text
  | none, none => .ok default

/-- Reads the arguments of a `diff`. -/
def readDiff (environment : Text → Option Text) (verbose : Bool) (arguments : List Text) :
    Except Halt Request := do
  let given ← collect diffGrammar 0 [] (diffGrammar.items arguments)
  let old ← setting environment given .old oldVariable "input/old.sql".toList
  let new ← setting environment given .new newVariable "input/new.sql".toList
  let outputDirectory ←
    setting environment given .outputDirectory outputVariable "output".toList
  let options : DiffOptions :=
    { old, new, outputDirectory
      dryRun := given.contains (.switch .dryRun)
      printCreate := given.contains (.switch .printCreate) }
  return ⟨verbose || given.contains (.switch .verbose), .diff options⟩

/-- Reads the arguments of a `model`. -/
def readModel (verbose : Bool) (arguments : List Text) : Except Halt Request := do
  let given ← collect modelGrammar 1 [] (modelGrammar.items arguments)
  match given.findSome? Item.operand? with
  | none => throw (.misuse (.missingOperand "the dump to read".toList))
  | some dump =>
    return ⟨verbose || given.contains (.switch .verbose),
      .model dump (given.contains (.switch .pretty))⟩

/-- The names of the commands, help among them. -/
def commandNames : List Text :=
  ["diff".toList, "model".toList, "help".toList]

/-- Reads the arguments of a `help`: at most the name of one command. -/
def readHelp : List Text → Halt
  | [] => .help
  | [name] => if name ∈ commandNames then .help else .misuse (.unknownCommand name)
  | _ :: second :: _ => .misuse (.unknownCommand second)

/-- Reads the arguments from the first on, after the items that were given before them. -/
def readProgram (environment : Text → Option Text) : List Item → List Text → Except Halt Request
  | _, [] => .error (.misuse .missingCommand)
  | given, argument :: rest =>
    let verbose := given.contains (.switch .verbose)
    if argument = ['-', '-'] then
      .error (.misuse (rest.head?.elim .missingCommand .unknownArgument))
    else if isDashed argument then do
      let given ← collect programGrammar 0 given (programGrammar.items [argument])
      readProgram environment given rest
    else if argument = "diff".toList then readDiff environment verbose rest
    else if argument = "model".toList then readModel verbose rest
    else if argument = "help".toList then .error (readHelp rest)
    else .error (.misuse (.unknownCommand argument))

/-- What the arguments of the program ask for, in an environment. -/
def Request.ofArguments (environment : Text → Option Text) (arguments : List Text) :
    Except Halt Request :=
  readProgram environment [] arguments

end SchemaGrowth.CommandLine
