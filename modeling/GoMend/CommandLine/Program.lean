import GoMend.CommandLine.Options
import GoMend.Fix.Revert
import GoMend.Fix.Run
import GoMend.Grammar.SourceFile
import GoMend.Lexeme.Wording
import GoMend.Settings.Layers
import GoMend.Text.Style

/-!
# The program

A run of the program reads files, mends or reverts the packages in them, and writes or prints the
files that have changed.  Nothing is written or printed unless every package could be mended.
-/

namespace GoMend

namespace CommandLine

/-- Why a run was broken off without a message for the user. -/
inductive Fault where
  | settings (error : LoadError)
  | check (error : CheckError)
  | print (error : PrintError)
  deriving DecidableEq, Repr

/-- How a run ends. -/
inductive Ending where
  | success
  /-- A message for the user. -/
  | failure (message : String)
  | usage (error : UsageError)
  | fault (fault : Fault)
  deriving DecidableEq, Repr

/-- The exit code of an ending. -/
def Ending.exitCode : Ending → Nat
  | .success => 0
  | .failure _ | .fault _ => 1
  | .usage _ => 2

/-- What is written to the standard error stream at the end. -/
def Ending.errorText : Ending → String
  | .success => ""
  | .failure message => "Error: " ++ message ++ "\n"
  | .usage error => "Error: " ++ error.message ++ "\n"
  | .fault _ => "Error: the run was broken off\n"

/-- What a run leaves behind. -/
structure Outcome where
  ending : Ending
  output : String := ""
  disk : Disk
  log : Log := []

namespace Outcome

/-- What the standard output receives.  Styles are for a terminal only. -/
def shownOutput (outcome : Outcome) (terminal : Bool) : String :=
  if terminal then outcome.output else Text.plain outcome.output

/-- What the standard error stream receives at the end.  Styles are for a terminal only. -/
def shownError (outcome : Outcome) (terminal : Bool) : String :=
  if terminal then outcome.ending.errorText else Text.plain outcome.ending.errorText

end Outcome

/-- A step of a run, which may say something and may end the run. -/
abbrev Step := ExceptT Ending (StateM Log)

/-- End a run with a message for the user. -/
def fail {α : Type} (message : String) : Step α :=
  throw (.failure message)

/-- Add entries to the log. -/
def say (entries : Log) : Step Unit :=
  modify (· ++ entries)

/-! ### Files -/

/-- A source file with its tree. -/
structure LoadedFile where
  path : Path
  /-- The text as it was read, with single line feeds. -/
  source : String
  file : File

/-- The name of the package that a file belongs to. -/
def LoadedFile.package (item : LoadedFile) : String :=
  item.file.package.name

/-- Whether a file of a directory belongs to its package. -/
def isSourceName (name : String) : Bool :=
  match name.toList with
  | [] | '_' :: _ | '.' :: _ => false
  | chars => ".go".toList.isSuffixOf chars

/-- The source files of a directory in the order of their names. -/
def directoryFiles (disk : Disk) (path : Path) (directory : Place) : List Path :=
  (((disk.fileNames directory).filter isSourceName).mergeSort fun first second =>
    first ≤ second).map path.child

/-- The places of paths, all of which have to exist. -/
def locate (disk : Disk) (paths : List Path) : Step (List (Path × Place)) :=
  paths.mapM fun path =>
    match disk.find? path with
    | none => fail s!"path does not exist: {path.render}"
    | some place => return (path, place)

/-- The source files that paths stand for: files, or one directory. -/
def sourceFiles (disk : Disk) (paths : List Path) : Step (List Path) := do
  let located ← locate disk paths
  match located.find? fun (_, place) => disk.isDirectory place with
  | none => return paths
  | some (path, directory) =>
      if 1 < paths.length then
        fail "you can only specify exact one directory"
      else
        match directoryFiles disk path directory with
        | [] => fail s!"no Go files found in {path.render}"
        | files => return files

/-- The text of a file. -/
def readText (disk : Disk) (path : Path) : Step String :=
  match Text.decodeUtf8 (((disk.find? path).bind disk.file?).getD []) with
  | .error error => fail s!"cannot read {path.render}: {error.message}"
  | .ok text => return String.ofList (Text.unifyNewlines text.toList)

/-- Read and parse files into one set. -/
def loadFiles (disk : Disk) : FileSet → List Path → Step (FileSet × List LoadedFile)
  | set, [] => return (set, [])
  | set, path :: rest => do
      let source ← readText disk path
      match File.parse set path.render source with
      | (_, .error error) => fail error.message
      | (set, .ok file) =>
          let (set, others) ← loadFiles disk set rest
          return (set, { path, source, file } :: others)

/-! ### Packages -/

/-- The packages of files in the order in which they are met. -/
def packages (items : List LoadedFile) : List String :=
  (items.map (·.package)).eraseDups

/-- The files of a package. -/
def packageFiles (package : String) (items : List LoadedFile) : List File :=
  (items.filter (·.package = package)).map (·.file)

/-- Put the trees of a package back among all files. -/
def replaceFiles (package : String) : List LoadedFile → List File → List LoadedFile
  | [], _ => []
  | item :: items, [] => item :: items
  | item :: items, file :: files =>
      if item.package = package then
        { item with file } :: replaceFiles package items files
      else
        item :: replaceFiles package items (file :: files)

/-- The files after some packages were mended, and the problems of those that could not be. -/
structure Mended where
  items : List LoadedFile
  failures : List (String × List Problem) := []

/-- Mend one package. -/
def mendPackage (settings : Settings) (set : FileSet) (mended : Mended) (package : String) :
    Step Mended := do
  let run := Run.passes (.scopeCheck settings.importNames) .standard set settings.maxTries
    settings.maxTries 0 (packageFiles package mended.items) []
  let items := replaceFiles package mended.items run.files
  say run.log
  match run.ending with
  | .clean | .exhausted => return { mended with items }
  | .gaveUp problems =>
      say [.debug s!"package {package}: gave up after {run.tries} pass(es)"]
      return { items, failures := mended.failures ++ [(package, problems)] }
  | .failed error => throw (.fault (.check error))

/-- Revert one package. -/
def revertPackage (settings : Settings) (items : List LoadedFile) (package : String) :
    Step (List LoadedFile) := do
  let reverted := revertFixes settings.keptImports (packageFiles package items)
  say reverted.log
  return replaceFiles package items reverted.files

/-- The report on packages that could not be mended.  A single one is not named. -/
def failureReport (set : FileSet) : List (String × List Problem) → String
  | [(_, problems)] => Problem.listReport set problems
  | failures =>
      "\n".intercalate (failures.map fun (package, problems) =>
        s!"package {package}: {Problem.listReport set problems}")

/-- Mend or revert all packages. -/
def changePackages (options : Options) (settings : Settings) (set : FileSet)
    (items : List LoadedFile) : Step (List LoadedFile) := do
  if options.revert then
    (packages items).foldlM (revertPackage settings) items
  else
    let mended ← (packages items).foldlM (mendPackage settings set) { items }
    if mended.failures.isEmpty then
      return mended.items
    else
      fail (failureReport set mended.failures)

/-! ### Results -/

/-- Print a file, or write it to the disk, if its text has changed. -/
def writeFile (write : Bool) (set : FileSet) (outcome : Outcome) (item : LoadedFile) : Outcome :=
  match outcome.ending, item.file.print (some set) with
  | .success, .error error => { outcome with ending := .fault (.print error) }
  | .success, .ok text =>
      if text = item.source then
        { outcome with log := outcome.log ++ [.debug s!"{item.path.render}: unchanged"] }
      else if write then
        { outcome with
          disk := outcome.disk.write (outcome.disk.resolve item.path) text.toUTF8.toList
          log := outcome.log ++ [.info s!"{item.path.render}: rewritten"] }
      else
        { outcome with output := outcome.output ++ text }
  | _, _ => outcome

/-- The settings for files in a directory. -/
def loadSettings (decode : Settings.Decoder) (disk : Disk) (environment : Environment)
    (options : Options) (directory : Place) : Step Settings := do
  let overrides := options.maxTries.toList.map fun tries => ("max_tries", .int tries)
  let (result, ignored) := Settings.loadWith decode disk environment overrides directory
  say (ignored.map fun place =>
    .warning ("Ignoring unreadable config file /" ++ "/".intercalate place))
  match result with
  | .ok settings => return settings
  | .error (.invalid error) => fail s!"Invalid configuration: {error.message}"
  | .error error => throw (.fault (.settings error))

/-- Everything that a run does before it writes anything. -/
def prepare (decode : Settings.Decoder) (disk : Disk) (environment : Environment)
    (options : Options) : Step (FileSet × List LoadedFile) := do
  let paths ← sourceFiles disk (options.paths.map Path.ofText)
  let start := ((paths.head?).map fun path => disk.resolve path.parent).getD disk.workingDirectory
  let settings ← loadSettings decode disk environment options start
  let (set, items) ← loadFiles disk {} paths
  return (set, ← changePackages options settings set items)

/-- Mend or revert files.  Nothing is written before everything is prepared. -/
def runFiles (decode : Settings.Decoder) (disk : Disk) (environment : Environment)
    (options : Options) : Outcome :=
  match (prepare decode disk environment options).run.run [] with
  | (.error ending, log) => { ending, disk, log }
  | (.ok (set, items), log) =>
      items.foldl (writeFile options.write set) { ending := .success, disk, log }

/-- The part of a log that is shown. -/
def shownLog (verbose : Bool) (log : Log) : Log :=
  if verbose then log else log.filter (·.level = .warning)

/-- Mend or revert files, and keep of the log what the user wants to see. -/
def runOptions (decode : Settings.Decoder) (disk : Disk) (environment : Environment)
    (options : Options) : Outcome :=
  let outcome := runFiles decode disk environment options
  { outcome with log := shownLog options.verbose outcome.log }

/-- The version of the program. -/
def versionText : String :=
  "goquickfix version 0.1.0\n"

/-- The description of the command line. -/
def helpText : String :=
  "Usage: goquickfix [OPTIONS] PATHS...\n\n" ++
  "  Fix unused variables, unused imports and redundant := in Go sources.\n\n" ++
  "Options:\n" ++
  "  -w, --write          Write results to the source files instead of stdout.\n" ++
  "  --revert             Remove quick fixes instead of applying them.\n" ++
  "  --max-tries INTEGER  Maximum number of fix passes per package.\n" ++
  "  -v, --verbose        Log every pass and fix.\n" ++
  "  --version            Show version and exit.\n" ++
  "  --help               Show this message and exit.\n"

/-- Run the program, whose settings are decoded in a given way. -/
def executeWith (decode : Settings.Decoder) (disk : Disk) (environment : Environment)
    (arguments : List String) : Outcome :=
  match parse arguments with
  | .error error => { ending := .usage error, disk }
  | .ok .version => { ending := .success, output := versionText, disk }
  | .ok .help => { ending := .success, output := helpText, disk }
  | .ok (.run options) => runOptions decode disk environment options

/-- Run the program. -/
def execute : Disk → Environment → List String → Outcome :=
  executeWith Toml.parse?

end CommandLine

end GoMend
