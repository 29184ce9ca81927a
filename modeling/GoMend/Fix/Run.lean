import GoMend.Fix.Pass
import GoMend.Settings

/-!
# Runs

A run repeats passes until the checker finds nothing or the passes are used up.  It fails when the
last pass leaves something.  The files are always those after the last edit, also when a check
could not be finished.
-/

namespace GoMend

/-- How a run ends. -/
inductive RunEnd where
  /-- A pass found nothing. -/
  | clean
  /-- All passes were used, and the last one mended everything that it found. -/
  | exhausted
  /-- All passes were used, and the last one left problems. -/
  | gaveUp (problems : List Problem)
  /-- A check could not be finished. -/
  | failed (error : CheckError)
  deriving DecidableEq, Repr

/-- A finished run. -/
structure Run where
  /-- The number of passes that the run was given. -/
  tries : Nat
  files : List File
  ending : RunEnd
  log : Log

namespace Run

/-- The run with more entries before its log. -/
def after (log : Log) (run : Run) : Run :=
  { run with log := log ++ run.log }

/-- The end of a run whose passes are used up, given what the last one left. -/
def outOfTries (tries : Nat) (files : List File) (unhandled : List Problem) : Run :=
  if unhandled.isEmpty then
    { tries
      files
      ending := .exhausted
      log := [.warning (s!"quick fix used all {tries} passes; " ++
        "the last pass fixed every diagnostic it saw")] }
  else
    { tries
      files
      ending := .gaveUp unhandled
      log := [.info (s!"quick fix gave up after {tries} pass(es): " ++
        s!"{unhandled.length} unresolved")] }

/-- What is logged about a pass. -/
def logPass (attempt tries : Nat) (result : PassResult) : Log :=
  let found := if result.foundError then "True" else "False"
  result.log ++
    [.debug (s!"pass {attempt}/{tries}: found_error={found} " ++
      s!"unhandled={result.unhandled.length}")]

/-- The passes that remain after some were made, the last of which left some problems. -/
def passes (checker : Checker) (registry : FixerRegistry) (set : FileSet) (tries : Nat) :
    (remaining made : Nat) → List File → List Problem → Run
  | 0, _, files, unhandled => outOfTries tries files unhandled
  | remaining + 1, made, files, _ =>
      match runPass checker registry set made files with
      | .error error => { tries, files, ending := .failed error, log := [] }
      | .ok result =>
          let run :=
            if result.foundError then
              passes checker registry set tries remaining (made + 1) result.files result.unhandled
            else
              { tries
                files := result.files
                ending := .clean
                log := [.info s!"quick fix finished after {made + 1} pass(es)"] }
          run.after (logPass (made + 1) tries result)

end Run

/-- Mend the files of a package in at most the given number of passes. -/
def quickFix (checker : Checker) (registry : FixerRegistry) (set : FileSet) (tries : Int)
    (files : List File) : Except SettingsError Run :=
  if tries < 1 then
    .error .triesTooSmall
  else
    .ok (Run.passes checker registry set tries.toNat tries.toNat 0 files [])

end GoMend
