import SchemaGrowth.CommandLine.Run

/-!
# The program

The command line on the files of the machine.
-/

namespace SchemaGrowth

open CommandLine

/-- The failure behind an error of the system. Some calls give the code of an error negated. -/
def FileError.ofSystem (error : IO.Error) : FileError :=
  match error with
  | .noFileOrDirectory .. => .noSuchFile
  | .alreadyExists .. => .fileExists
  | .inappropriateType _ code _ =>
    if code = 21 ∨ -code = 21 then .isDirectory else .notDirectory
  | .invalidArgument _ code _ =>
    if code = 36 ∨ -code = 36 then .nameTooLong else .other (toString error).toList
  | error => .other (toString error).toList

/-- Carries out an action on files. -/
def attempt {α : Type} (act : IO α) : IO (Except FileError α) := do
  try
    return .ok (← act)
  catch error =>
    return .error (.ofSystem error)

/-- The files of the machine. -/
def systemDisk : Disk IO where
  read path := do
    match ← attempt (IO.FS.readBinFile (String.ofList path)) with
    | .error cause => return .error cause
    | .ok bytes => return (String.fromUTF8? bytes).elim (.error .notText) (.ok ·.toList)
  write path contents :=
    attempt (IO.FS.writeFile (String.ofList path) (String.ofList contents))
  makeDirectory path := attempt (IO.FS.createDir (String.ofList path))
  isDirectory path := do
    match ← attempt (IO.FS.realPath (String.ofList path)) with
    | .ok place => place.isDir
    | .error _ => return false

/-- The variables of the environment that requests look at. -/
def systemEnvironment : IO (Text → Option Text) := do
  let found ← environmentNames.mapM fun name =>
    return (name, (← IO.getEnv (String.ofList name)).map String.toList)
  return fun name => (found.lookup name).join

end SchemaGrowth

open SchemaGrowth in
/-- Runs the program and ends with its status. -/
def main (arguments : List String) : IO UInt32 := do
  let outcome ← CommandLine.run systemDisk (← systemEnvironment) (arguments.map String.toList)
  IO.print (String.ofList outcome.output)
  IO.eprint (String.ofList outcome.errors)
  return UInt32.ofNat outcome.status
