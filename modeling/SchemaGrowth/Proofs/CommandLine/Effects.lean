import Mathlib.Data.List.Induction
import SchemaGrowth.CommandLine.Run
import SchemaGrowth.Proofs.FileTree

/-!
# The effects of a command

A `diff` reads both dumps before it writes anything, so all that it writes and shows follows from
the tree that it finds, even where it writes over a dump. `run_diff` follows every way through it to
the tree, the output and the status: no file is written unless the whole script is found, and then
the files of the script are written in their order up to the first that cannot be.
-/

namespace SchemaGrowth

open FileTree

/-! ## The files of a script -/

namespace Script

/-- The names of the files of every script. -/
def fileNames : List Text :=
  ["alter_statements.sql".toList, "create_statements.sql".toList, "modify_statements.sql".toList,
    "modify_statements_debug.txt".toList]

/-- The files that hold a script in a directory, in the order in which they are written: each is a
list of the script, one entry a line. -/
def savedIn (directory : Text) (script : Script) : List (Text × Text) :=
  [ (Path.join directory "alter_statements.sql".toList, ['\n'].intercalate script.adds),
    (Path.join directory "create_statements.sql".toList, ['\n'].intercalate script.creates),
    (Path.join directory "modify_statements.sql".toList, ['\n'].intercalate script.modifies),
    (Path.join directory "modify_statements_debug.txt".toList,
      ['\n'].intercalate script.comparisons) ]

/-- The text that shows what a script does to the tables that are there. -/
def shown (script : Script) : Text :=
  ['\n'].intercalate
    ([[], "--- ALTER STATEMENTS ---".toList] ++ script.adds
      ++ [[], "--- MODIFY STATEMENTS ---".toList] ++ script.modifies ++ [[]])

theorem filesIn_artifacts (directory : Text) (script : Script) :
    filesIn directory script.artifacts = script.savedIn directory := rfl

theorem map_fst_artifacts (script : Script) : script.artifacts.map Prod.fst = fileNames := rfl

theorem nodup_fileNames : fileNames.Nodup := by
  decide +kernel

theorem isFileName_of_mem_fileNames {name : Text} (h : name ∈ fileNames) : Path.IsFileName name := by
  have hall : ∀ name ∈ fileNames, name ≠ [] ∧ '/' ∉ name ∧ isRelativeName name = false := by
    decide +kernel
  obtain ⟨hne, hslash, hrelative⟩ := hall name h
  exact ⟨hne, hslash, hrelative⟩

end Script

namespace CommandLine

/-! ## Writing a script -/

theorem run_read (tree : FileTree) (path : Text) :
    (disk.read path).run tree = (tree.read path, tree) := rfl

theorem run_write (tree : FileTree) (path contents : Text) :
    (disk.write path contents).run tree
      = match tree.write path contents with
        | .ok after => (.ok (), after)
        | .error failure => (.error failure, tree) := rfl

/-- A first file that cannot be written ends the writing. -/
theorem run_writeFiles_error {tree : FileTree} {directory name contents : Text} {cause : FileError}
    (h : tree.write (Path.join directory name) contents = .error cause)
    (rest : List (Text × Text)) :
    (writeFiles disk directory ((name, contents) :: rest)).run tree
      = (([], some (.unwritable (Path.join directory name) cause)), tree) := by
  rw [writeFiles, StateT.run_bind, run_write, h]
  rfl

/-- Behind a first file that is written, the others follow. -/
theorem run_writeFiles_ok {tree next : FileTree} {directory name contents : Text}
    (h : tree.write (Path.join directory name) contents = .ok next) {rest : List (Text × Text)}
    {notices : List Notice} {failure : Option Failure} {after : FileTree}
    (hrest : (writeFiles disk directory rest).run next = ((notices, failure), after)) :
    (writeFiles disk directory ((name, contents) :: rest)).run tree
      = ((.wrote (Path.join directory name) :: notices, failure), after) := by
  rw [writeFiles, StateT.run_bind, run_write, h]
  show ((writeFiles disk directory rest) >>= _).run next = _
  rw [StateT.run_bind, hrest]
  rfl

/-- Files are written up to the first that cannot be. -/
theorem run_writeFiles (directory : Text) (files : List (Text × Text)) (tree : FileTree) :
    ∃ count notices failure after,
      (writeFiles disk directory files).run tree = ((notices, failure), after)
      ∧ Writes tree ((filesIn directory files).take count) after
      ∧ (count = files.length ∧ failure = none
        ∨ ∃ path contents cause, (filesIn directory files)[count]? = some (path, contents)
          ∧ after.write path contents = .error cause ∧ failure = some (.unwritable path cause)) := by
  induction files generalizing tree with
  | nil => exact ⟨0, [], none, tree, rfl, .nil tree, .inl ⟨rfl, rfl⟩⟩
  | cons file rest ih =>
    obtain ⟨name, contents⟩ := file
    cases hwrite : tree.write (Path.join directory name) contents with
    | error cause =>
      exact ⟨0, [], _, tree, run_writeFiles_error hwrite rest, .nil tree,
        .inr ⟨_, contents, cause, rfl, hwrite, rfl⟩⟩
    | ok next =>
      obtain ⟨count, notices, failure, after, hrun, hwrites, hend⟩ := ih next
      refine ⟨count + 1, _, failure, after, run_writeFiles_ok hwrite hrun, .cons hwrite hwrites, ?_⟩
      rcases hend with ⟨hcount, hnone⟩ | hfails
      · exact .inl ⟨congrArg (· + 1) hcount, hnone⟩
      · exact .inr hfails

/-- How far files were written into a directory, and what stopped them. -/
inductive Saved (directory : Text) (files : List (Text × Text)) (before after : FileTree) :
    Nat → Option Failure → Prop
  /-- The directory could not be made. -/
  | noDirectory {cause : FileError}
      (make : (disk.makeDirectories directory).run before = (.error cause, after)) :
      Saved directory files before after 0 (some (.unwritable directory cause))
  /-- Some files were written, but not the next one. -/
  | upTo {made : FileTree} {count : Nat} {path contents : Text} {cause : FileError}
      (make : (disk.makeDirectories directory).run before = (.ok (), made))
      (writes : Writes made (files.take count) after) (next : files[count]? = some (path, contents))
      (fails : after.write path contents = .error cause) :
      Saved directory files before after count (some (.unwritable path cause))
  /-- All files were written. -/
  | all {made : FileTree} (make : (disk.makeDirectories directory).run before = (.ok (), made))
      (writes : Writes made files after) :
      Saved directory files before after files.length none

theorem run_writeScript (directory : Text) (script : Script) (tree : FileTree) :
    ∃ count notices failure after,
      (writeScript disk directory script).run tree = ((notices, failure), after)
      ∧ Saved directory (filesIn directory script.artifacts) tree after count failure := by
  cases hmake : (disk.makeDirectories directory).run tree with
  | mk result made =>
    cases result with
    | error cause =>
      refine ⟨0, [], _, made, ?_, .noDirectory hmake⟩
      rw [writeScript, StateT.run_bind, hmake]
      rfl
    | ok =>
      obtain ⟨count, notices, failure, after, hrun, hwrites, hend⟩ :=
        run_writeFiles directory script.artifacts made
      have hscript : (writeScript disk directory script).run tree = ((notices, failure), after) := by
        rw [writeScript, StateT.run_bind, hmake]
        exact hrun
      rcases hend with ⟨hcount, rfl⟩ | ⟨path, contents, cause, hnext, hfails, rfl⟩
      · have hall : (filesIn directory script.artifacts).take count
            = filesIn directory script.artifacts := by
          rw [hcount]
          rfl
        rw [hall] at hwrites
        exact ⟨_, notices, none, after, hscript, .all hmake hwrites⟩
      · exact ⟨count, notices, _, after, hscript, .upTo hmake hwrites hnext hfails⟩

/-- The files that were written hold what they were to hold, and no other file was touched. -/
theorem Saved.wrote {directory : Text} {script : Script} {before after : FileTree} {count : Nat}
    {failure : Option Failure}
    (h : Saved directory (filesIn directory script.artifacts) before after count failure) :
    Wrote before after ((filesIn directory script.artifacts).take count) := by
  have hmade : ∀ {result made}, (disk.makeDirectories directory).run before = (result, made) →
      Wrote before made [] := by
    intro result made hmake
    have hnothing := WritesNothing.makeDirectories directory before
    rwa [hmake] at hnothing
  have hwrote : ∀ {made n}, Writes made ((filesIn directory script.artifacts).take n) after →
      Wrote made after ((filesIn directory script.artifacts).take n) := by
    intro made n hwrites
    have hnames : (script.artifacts.take n).map Prod.fst = Script.fileNames.take n := by
      rw [List.map_take, script.map_fst_artifacts]
    rw [filesIn, ← List.map_take] at hwrites ⊢
    refine Writes.wrote hwrites ?_ ?_
    · rw [hnames]
      exact Script.nodup_fileNames.sublist (List.take_sublist n _)
    · intro name hm
      rw [hnames] at hm
      exact Script.isFileName_of_mem_fileNames (List.mem_of_mem_take hm)
  cases h with
  | noDirectory make => exact hmade make
  | upTo make writes next fails => exact (hmade make).trans (hwrote writes) (by simp)
  | all make writes =>
    rw [← List.take_length (l := filesIn directory script.artifacts)] at writes
    exact (hmade make).trans (hwrote writes) (by simp)

/-! ## Runs of a diff -/

/-- Whether the dumps of a `diff` can be read in a tree, and give a script. -/
def Gives (options : DiffOptions) (tree : FileTree) (script : Script) : Prop :=
  ∃ old new, tree.read options.old = .ok old ∧ tree.read options.new = .ok new
    ∧ Dump.migration old new = .ok script

/-- The ways in which a `diff` can go: what it fails with or shows, and the tree behind it. -/
inductive DiffRun (options : DiffOptions) (before : FileTree) :
    Except Failure Text → FileTree → Prop
  | oldUnreadable {cause : FileError} (old : before.read options.old = .error cause) :
      DiffRun options before (.error (.unreadable options.old cause)) before
  | newUnreadable {text : Text} {cause : FileError} (old : before.read options.old = .ok text)
      (new : before.read options.new = .error cause) :
      DiffRun options before (.error (.unreadable options.new cause)) before
  | noMigration {first second : Text} {error : MigrationError}
      (old : before.read options.old = .ok first) (new : before.read options.new = .ok second)
      (migration : Dump.migration first second = .error error) :
      DiffRun options before (.error (.migration error)) before
  | dry {script : Script} (dry : options.dryRun = true) (gives : Gives options before script) :
      DiffRun options before (.ok (shownText options.printCreate script)) before
  | saved {script : Script} {after : FileTree} {count : Nat} {failure : Option Failure}
      (notDry : options.dryRun = false) (gives : Gives options before script)
      (saved : Saved options.outputDirectory (filesIn options.outputDirectory script.artifacts)
        before after count failure) :
      DiffRun options before
        (failure.elim (.ok (shownText options.printCreate script)) .error) after

/-- A `diff` of dumps that can be read goes one of these ways. -/
theorem run_diffDumps {options : DiffOptions} {tree : FileTree} {old new : Text}
    (hold : tree.read options.old = .ok old) (hnew : tree.read options.new = .ok new) :
    ∃ report after, (diffDumps disk options old new).run tree = (report, after)
      ∧ DiffRun options tree report.result after := by
  unfold diffDumps
  cases hmigration : Dump.migration old new with
  | error error => exact ⟨_, tree, rfl, .noMigration hold hnew hmigration⟩
  | ok script =>
    have hgives : Gives options tree script := ⟨old, new, hold, hnew, hmigration⟩
    cases hdry : options.dryRun with
    | true => exact ⟨_, tree, rfl, .dry hdry hgives⟩
    | false =>
      obtain ⟨count, notices, failure, after, hrun, hsaved⟩ :=
        run_writeScript options.outputDirectory script tree
      refine ⟨⟨planNotices old new ++ countNotice script :: notices,
        failure.elim (.ok (shownText options.printCreate script)) .error⟩, after, ?_,
        .saved hdry hgives hsaved⟩
      show ((writeScript disk options.outputDirectory script) >>= _).run tree = _
      rw [StateT.run_bind, hrun]
      cases failure <;> rfl

/-- Every `diff` goes one of these ways. -/
theorem run_diff (options : DiffOptions) (tree : FileTree) :
    ∃ report after, (diff disk options).run tree = (report, after)
      ∧ DiffRun options tree report.result after := by
  cases hold : tree.read options.old with
  | error cause =>
    refine ⟨⟨[], .error (.unreadable options.old cause)⟩, tree, ?_, .oldUnreadable hold⟩
    rw [diff, StateT.run_bind, run_read, hold]
    rfl
  | ok old =>
    cases hnew : tree.read options.new with
    | error cause =>
      refine ⟨⟨[], .error (.unreadable options.new cause)⟩, tree, ?_, .newUnreadable hold hnew⟩
      rw [diff, StateT.run_bind, run_read, hold]
      show ((disk.read options.new) >>= _).run tree = _
      rw [StateT.run_bind, run_read, hnew]
      rfl
    | ok new =>
      obtain ⟨report, after, hrun, hway⟩ := run_diffDumps hold hnew
      refine ⟨report, after, ?_, hway⟩
      rw [diff, StateT.run_bind, run_read, hold]
      show ((disk.read options.new) >>= _).run tree = _
      rw [StateT.run_bind, run_read, hnew]
      exact hrun

/-! ## Effects -/

/-- Whether a command failed: it shows nothing. -/
def Outcome.Failed (outcome : Outcome) : Prop :=
  outcome.status = 1 ∧ outcome.output = []

/-- Whether a command succeeded and showed a script. -/
def Outcome.Shows (outcome : Outcome) (printCreate : Bool) (script : Script) : Prop :=
  outcome.status = 0 ∧ outcome.output = script.shown ++ ['\n']
    ++ (if printCreate then
          "--- CREATE STATEMENTS ---\n".toList ++ ['\n'].intercalate script.creates ++ ['\n']
        else [])

/-- What a `diff` does to a tree, and what it shows. All of it follows from the tree before. -/
structure DiffEffects (options : DiffOptions) (before after : FileTree) (outcome : Outcome) :
    Prop where
  /-- Without a script, the command fails and changes nothing. -/
  refused : (∀ script, ¬ Gives options before script) → outcome.Failed ∧ after = before
  /-- A dry run changes nothing, and shows the script. -/
  dry : options.dryRun = true → after = before
    ∧ ∀ script, Gives options before script → outcome.Shows options.printCreate script
  /-- Otherwise the first files of the script are written and no other file is touched. If these are
  all files the script is shown, and if the next one or the directory cannot be written the command
  fails. -/
  saved : options.dryRun = false → ∀ script, Gives options before script →
    ∃ count failure,
      Saved options.outputDirectory (script.savedIn options.outputDirectory)
        before after count failure
      ∧ Wrote before after ((script.savedIn options.outputDirectory).take count)
      ∧ (failure = none → count = 4 ∧ outcome.Shows options.printCreate script)
      ∧ (failure ≠ none → outcome.Failed)

theorem Gives.unique {options : DiffOptions} {tree : FileTree} {script other : Script}
    (h : Gives options tree script) (h' : Gives options tree other) : script = other := by
  obtain ⟨old, new, hold, hnew, hscript⟩ := h
  obtain ⟨old', new', hold', hnew', hother⟩ := h'
  obtain rfl := Except.ok.inj (hold.symm.trans hold')
  obtain rfl := Except.ok.inj (hnew.symm.trans hnew')
  exact Except.ok.inj (hscript.symm.trans hother)

theorem outcome_failed (verbose : Bool) (notices : List Notice) (failure : Failure) :
    (Report.outcome verbose ⟨notices, .error failure⟩).Failed :=
  ⟨rfl, rfl⟩

theorem outcome_shows (verbose : Bool) (notices : List Notice) (printCreate : Bool)
    (script : Script) :
    (Report.outcome verbose ⟨notices, .ok (shownText printCreate script)⟩).Shows printCreate
      script :=
  ⟨rfl, rfl⟩

/-- A `diff` that finds no script changes nothing, dry or not. -/
theorem DiffEffects.of_refused {options : DiffOptions} {tree : FileTree} {outcome : Outcome}
    (hnone : ∀ script, ¬ Gives options tree script) (hfailed : outcome.Failed) :
    DiffEffects options tree tree outcome :=
  ⟨fun _ => ⟨hfailed, rfl⟩, fun _ => ⟨rfl, fun script h => absurd h (hnone script)⟩,
    fun _ script h => absurd h (hnone script)⟩

/-- What the way of a `diff` means for its outcome. -/
theorem DiffRun.effects {options : DiffOptions} {before after : FileTree} {report : Report}
    (h : DiffRun options before report.result after) (verbose : Bool) :
    DiffEffects options before after (report.outcome verbose) := by
  obtain ⟨notices, result⟩ := report
  cases h with
  | oldUnreadable old =>
    refine .of_refused ?_ (outcome_failed verbose notices _)
    rintro script ⟨_, _, hold, -⟩
    cases old.symm.trans hold
  | newUnreadable old new =>
    refine .of_refused ?_ (outcome_failed verbose notices _)
    rintro script ⟨_, _, -, hnew, -⟩
    cases new.symm.trans hnew
  | noMigration old new migration =>
    refine .of_refused ?_ (outcome_failed verbose notices _)
    rintro script ⟨_, _, hold, hnew, hscript⟩
    obtain rfl := Except.ok.inj (old.symm.trans hold)
    obtain rfl := Except.ok.inj (new.symm.trans hnew)
    cases migration.symm.trans hscript
  | @dry script dry gives =>
    refine ⟨fun hnone => absurd gives (hnone script), fun _ => ⟨rfl, ?_⟩, ?_⟩
    · intro other hother
      obtain rfl := gives.unique hother
      exact outcome_shows verbose notices options.printCreate script
    · intro hdry
      cases dry.symm.trans hdry
  | @saved script _ count failure notDry gives saved =>
    refine ⟨fun hnone => absurd gives (hnone script), ?_, ?_⟩
    · intro hdry
      cases notDry.symm.trans hdry
    · intro _ other hother
      obtain rfl := gives.unique hother
      rw [← script.filesIn_artifacts]
      refine ⟨count, failure, saved, saved.wrote, ?_, ?_⟩
      · rintro rfl
        cases saved with
        | all make writes =>
          exact ⟨rfl, outcome_shows verbose notices options.printCreate script⟩
      · intro hfailure
        obtain ⟨failure, rfl⟩ := Option.ne_none_iff_exists'.mp hfailure
        exact outcome_failed verbose notices failure

/-- **A `diff` has all of its effects or a first part of them**, and they follow from the tree that
it finds. -/
theorem run_effects {environment : Text → Option Text} {arguments : List Text} {verbose : Bool}
    {options : DiffOptions}
    (h : Request.ofArguments environment arguments = .ok ⟨verbose, .diff options⟩)
    (tree : FileTree) :
    ∃ outcome after, (run disk environment arguments).run tree = (outcome, after)
      ∧ DiffEffects options tree after outcome := by
  obtain ⟨report, after, hrun, hway⟩ := run_diff options tree
  refine ⟨report.outcome verbose, after, ?_, hway.effects verbose⟩
  rw [run, h]
  show ((diff disk options) >>= _).run tree = _
  rw [StateT.run_bind, hrun]
  rfl

/-- The arguments of a `diff` that writes over both of its dumps. -/
def overwriting : List Text :=
  ["diff".toList, "--old".toList, "d/alter_statements.sql".toList,
    "--new=d/modify_statements.sql".toList, "-od".toList, "--print-create".toList]

/-- What those arguments ask for. -/
def overwritingOptions : DiffOptions :=
  ⟨"d/alter_statements.sql".toList, "d/modify_statements.sql".toList, "d".toList, false, true⟩

/-- A tree with the two dumps, and with a directory at the place of the last file. -/
def overwrittenTree : FileTree :=
  ⟨[ (["d".toList], .directory),
     (["d".toList, "alter_statements.sql".toList],
       .file (some "CREATE TABLE `t` (\n  `a` int\n) ENGINE\n".toList)),
     (["d".toList, "modify_statements.sql".toList],
       .file (some "CREATE TABLE `t` (\n  `a` text,\n  `b` int\n) ENGINE\n".toList)),
     (["d".toList, "modify_statements_debug.txt".toList], .directory) ], []⟩

/-- Both dumps are overwritten before the last file is found to be unwritable. -/
theorem run_effects_overwriting :
    ∃ outcome after,
      (run disk (fun _ => none) overwriting).run overwrittenTree = (outcome, after)
      ∧ DiffEffects overwritingOptions overwrittenTree after outcome :=
  @run_effects (fun _ => none) overwriting false overwritingOptions (by decide +kernel)
    overwrittenTree

end CommandLine

end SchemaGrowth
