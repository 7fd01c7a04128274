import SchemaGrowth.CommandLine.Notice
import SchemaGrowth.CommandLine.Request
import SchemaGrowth.Schema.Json

/-!
# Carrying out a request

A command reads all its dumps before it writes anything, and writes nothing unless the whole
migration is found. It works on any `Disk`; what it leaves behind there and what it says are all of
its effects.
-/

namespace SchemaGrowth.CommandLine

/-! ## Outcomes -/

/-- What a program that has ended said, and with which status. -/
structure Outcome where
  status : Nat
  output : Text
  errors : Text
  deriving DecidableEq

/-- What the program is called. -/
def programName : Text := "ddl-diff".toList

/-- The version that the program tells. -/
def versionText : Text := programName ++ " 0.1.0\n".toList

/-- How the program is used. -/
def usageText : Text :=
  ("Usage: ddl-diff [-v] diff [--old PATH] [--new PATH] [-o PATH] [--dry-run] [--print-create]\n"
    ++ "       ddl-diff [-v] model PATH [--pretty]\n").toList

/-- The outcome where there is no command to carry out. -/
def Halt.outcome : Halt → Outcome
  | help => ⟨0, usageText, []⟩
  | version => ⟨0, versionText, []⟩
  | misuse error => ⟨2, [], "error: ".toList ++ error.message ++ "\n\n".toList ++ usageText⟩

/-- The notices of a command, and its output or the failure that ended it. -/
structure Report where
  notices : List Notice
  result : Except Failure Text

namespace Report

/-- The outcome of a command: a failure leaves no output. -/
def outcome (verbose : Bool) (report : Report) : Outcome :=
  let told := Notice.lines verbose report.notices
  match report.result with
  | .ok output => ⟨0, output, told⟩
  | .error failure => ⟨1, [], told ++ failure.text⟩

end Report

/-! ## Reading -/

/-- The notices where a dump is read. -/
def dumpNotices (dump : Text) : List Notice :=
  (Schema.empty.undeclared (Dump.events dump)).map .undeclared
    ++ [.parsed (Schema.ofDump dump).tables.length]

/-- The notices where the schemas of two dumps are compared. -/
def planNotices (old new : Text) : List Notice :=
  dumpNotices old ++ dumpNotices new
    ++ (Plan.between (Schema.ofDump old) (Schema.ofDump new)).steps.map .found

/-- The notice of the numbers of statements of a script. -/
def countNotice (script : Script) : Notice :=
  .counted script.creates.length script.adds.length script.modifies.length

/-- What is shown of a script. -/
def shownText (printCreate : Bool) (script : Script) : Text :=
  script.report ++ ['\n']
    ++ (if printCreate then
          "--- CREATE STATEMENTS ---\n".toList ++ script.createText ++ ['\n']
        else [])

/-! ## Writing -/

section

variable {m : Type → Type} [Monad m]

/-- Writes files into a directory, one after another, up to the first that fails. -/
def writeFiles (disk : Disk m) (directory : Text) :
    List (Text × Text) → m (List Notice × Option Failure)
  | [] => return ([], none)
  | (name, contents) :: rest => do
    let path := Path.join directory name
    match ← disk.write path contents with
    | .error cause => return ([], some (.unwritable path cause))
    | .ok () =>
      let (notices, failure) ← writeFiles disk directory rest
      return (.wrote path :: notices, failure)

/-- Writes the files of a script, and makes the directory for them. -/
def writeScript (disk : Disk m) (directory : Text) (script : Script) :
    m (List Notice × Option Failure) := do
  match ← disk.makeDirectories directory with
  | .error cause => return ([], some (.unwritable directory cause))
  | .ok () => writeFiles disk directory script.artifacts

/-! ## Commands -/

/-- Carries out a `diff` of two dumps that are read. -/
def diffDumps (disk : Disk m) (options : DiffOptions) (old new : Text) : m Report := do
  let found := planNotices old new
  match Dump.migration old new with
  | .error error => return ⟨found, .error (.migration error)⟩
  | .ok script =>
    let (written, failure) ←
      if options.dryRun then pure ([.dryRun], none)
      else writeScript disk options.outputDirectory script
    let notices := found ++ countNotice script :: written
    match failure with
    | some failure => return ⟨notices, .error failure⟩
    | none => return ⟨notices, .ok (shownText options.printCreate script)⟩

/-- Carries out a `diff`. -/
def diff (disk : Disk m) (options : DiffOptions) : m Report := do
  match ← disk.read options.old with
  | .error cause => return ⟨[], .error (.unreadable options.old cause)⟩
  | .ok old =>
    match ← disk.read options.new with
    | .error cause => return ⟨[], .error (.unreadable options.new cause)⟩
    | .ok new => diffDumps disk options old new

/-- Carries out a `model`. -/
def model (disk : Disk m) (dump : Text) (pretty : Bool) : m Report := do
  match ← disk.read dump with
  | .error cause => return ⟨[], .error (.unreadable dump cause)⟩
  | .ok text =>
    let layout := if pretty then Json.pretty else Json.compact
    return ⟨dumpNotices text, .ok ((Schema.ofDump text).json layout ++ ['\n'])⟩

/-- Carries out a request. -/
def Request.run (disk : Disk m) (request : Request) : m Outcome := do
  let report ←
    match request.command with
    | .diff options => diff disk options
    | .model dump pretty => model disk dump pretty
  return report.outcome request.verbose

/-- Runs the program in an environment. -/
def run (disk : Disk m) (environment : Text → Option Text) (arguments : List Text) : m Outcome :=
  match Request.ofArguments environment arguments with
  | .error halt => return halt.outcome
  | .ok request => request.run disk

end

end SchemaGrowth.CommandLine
