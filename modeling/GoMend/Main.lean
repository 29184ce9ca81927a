import GoMend.CommandLine.Program

/-!
# The executable

The part of the disk that a run can look at is read first.  Then the run is computed, and the files
that have changed are written back.
-/

namespace GoMend

namespace CommandLine

/-- The text of a place. -/
def placeText (place : Place) : String :=
  "/" ++ "/".intercalate place

/-- Read a file, if there is one at a place. -/
def readPlace (disk : Disk) (place : Place) : IO Disk := do
  try
    let content ← IO.FS.readBinFile (placeText place)
    return disk.write place content.toList
  catch _ =>
    return disk

/-- Read the directory at a place with the files in it, if there is one. -/
def readDirectory (disk : Disk) (place : Place) : IO Disk := do
  let target := (← IO.currentDir) / placeText place
  if ← target.isDir then
    let names := (← target.readDir).toList.map (·.fileName)
    let disk := { disk with directories := disk.directories ++ [place] }
    (names.filter isSourceName).foldlM (fun disk name => readPlace disk (place ++ [name])) disk
  else
    return disk

/-- Read what a path leads to, the directories on its way, and the files with settings for it. -/
def readPath (disk : Disk) (path : Path) : IO Disk := do
  let way := (List.range (path.parts.length + 1)).map fun count =>
    disk.resolve { path with parts := path.parts.take count }
  let disk ← way.foldlM readDirectory disk
  let place := disk.resolve path
  let above := (List.range (place.length + 1)).flatMap fun count =>
    [Settings.settingsFile, Settings.projectFile].map fun name => place.take count ++ [name]
  (place :: above).foldlM readPlace disk

/-- The paths that a command line names. -/
def namedPaths (arguments : List String) : List Path :=
  match parse arguments with
  | .ok (.run options) => options.paths.map Path.ofText
  | _ => []

/-- Read everything that a run can look at. -/
def readDisk (arguments : List String) : IO Disk := do
  let workingDirectory := (Path.ofText (← IO.currentDir).toString).parts
  (namedPaths arguments).foldlM readPath { workingDirectory }

/-- The variables from which settings are read. -/
def readEnvironment : IO Environment :=
  return {
    maxTries := ← IO.getEnv "GOQUICKFIX_MAX_TRIES"
    sideEffectImports := ← IO.getEnv "GOQUICKFIX_SIDE_EFFECT_IMPORTS" }

/-- Write the files that differ between two states of the disk. -/
def writeChanges (before after : Disk) : IO Unit :=
  after.files.forM fun (place, content) => do
    if before.file? place ≠ some content then
      IO.FS.writeBinFile (placeText place) ⟨content.toArray⟩

end CommandLine

end GoMend

/-- Run the program on the real disk. -/
def main (arguments : List String) : IO UInt32 := do
  let disk ← GoMend.CommandLine.readDisk arguments
  let environment ← GoMend.CommandLine.readEnvironment
  let outcome := GoMend.CommandLine.execute disk environment arguments
  GoMend.CommandLine.writeChanges disk outcome.disk
  IO.print (outcome.shownOutput (← (← IO.getStdout).isTty))
  outcome.log.forM fun entry => IO.eprintln entry.render
  IO.eprint (outcome.shownError (← (← IO.getStderr).isTty))
  return outcome.ending.exitCode.toUInt32
