import GoMend.Disk
import GoMend.Settings
import GoMend.Text.Blank
import GoMend.Text.Integer
import GoMend.Text.Split
import GoMend.Text.Utf8
import GoMend.Toml.Document

/-!
# Where settings come from

Settings are collected in four layers: the project file, the settings file, the environment and the
command line.  Every setting has the value of the highest layer that gives one, or its default.
Files that a decoder does not take for documents are passed over.  Nothing else depends on the
decoder, which is that of TOML when the program runs.
-/

namespace GoMend

/-- The variables of the environment from which settings are read. -/
structure Environment where
  maxTries : Option String := none
  sideEffectImports : Option String := none
  deriving DecidableEq, Repr, Inhabited

/-- Why there are no settings. -/
inductive LoadError where
  | invalid (error : SettingsError)
  /-- The section for settings, or what holds it, is not a table. -/
  | notATable
  /-- A file is not UTF-8. -/
  | notText (error : Text.Utf8Error)
  deriving DecidableEq, Repr

namespace Settings

/-- The name of the settings file. -/
def settingsFile : String :=
  ".goquickfixrc"

/-- The name of the project file. -/
def projectFile : String :=
  "pyproject.toml"

/-- What finds the values that a text defines, if it takes the text for a document. -/
abbrev Decoder := String → Option Value.Entries

/-- A step of loading, which notes the files that were passed over. -/
abbrev Load := ExceptT LoadError (StateM (List Place))

/-- The entries that are settings. -/
def known (entries : Value.Entries) : Value.Entries :=
  entries.filter fun (name, _) => names.contains name

/-- The values in the nearest file of a name, from a directory upwards.  There are none when there
is no such file or when it is passed over. -/
def fileEntries (decode : Decoder) (disk : Disk) (directory : Place) (name : String) :
    Load Value.Entries := do
  match disk.findUpward? name directory with
  | none => return []
  | some place =>
      match Text.decodeUtf8 ((disk.file? place).getD []) with
      | .error error => throw (.notText error)
      | .ok text =>
          match decode text with
          | some entries => return entries
          | none =>
              modify (· ++ [place])
              return []

/-- The table of a name, which is empty when it is missing. -/
def table (entries : Value.Entries) (name : String) : Load Value.Entries :=
  match entries.lookup name with
  | none => return []
  | some (.table inner) => return inner
  | some _ => throw .notATable

/-- The layer of the project file. -/
def projectLayer (decode : Decoder) (disk : Disk) (directory : Place) : Load Value.Entries := do
  let tools ← table (← fileEntries decode disk directory projectFile) "tool"
  return known (← table tools "goquickfix")

/-- The layer of the settings file. -/
def settingsLayer (decode : Decoder) (disk : Disk) (directory : Place) : Load Value.Entries := do
  return known (← fileEntries decode disk directory settingsFile)

/-- The import paths in a text with commas between them. -/
def pathList (text : String) : List String :=
  ((Text.split ',' text).map Text.trim).filter (· ≠ "")

/-- The layer of the environment. -/
def environmentLayer (environment : Environment) : Except SettingsError Value.Entries := do
  let tries ←
    match environment.maxTries with
    | none => .ok []
    | some text =>
        match Text.integer? text with
        | none => .error (.variableNotInteger text)
        | some number => .ok [("max_tries", .int number)]
  let imports := environment.sideEffectImports.toList.map fun text =>
    ("side_effect_imports", .list ((pathList text).map .text))
  return tries ++ imports

/-- The layer of the command line, in which some settings may have no value. -/
def commandLayer (entries : Value.Entries) : Value.Entries :=
  (known entries).filter fun (_, value) =>
    match value with
    | .none => false
    | _ => true

/-- The entries of layers, the lowest layer first, such that the first entry of a name counts. -/
def merge (layers : List Value.Entries) : Value.Entries :=
  layers.reverse.flatten

/-- Collect the settings that hold in a directory. -/
def collect (decode : Decoder) (disk : Disk) (environment : Environment)
    (overrides : Value.Entries) (directory : Place) : Load Settings := do
  let project ← projectLayer decode disk directory
  let settings ← settingsLayer decode disk directory
  let fromEnvironment ← liftExcept (environmentLayer environment)
  liftExcept (ofValues (merge [project, settings, fromEnvironment, commandLayer overrides]))
where
  /-- A step that finds settings invalid or not. -/
  liftExcept {α : Type} : Except SettingsError α → Load α
    | .ok value => return value
    | .error error => throw (.invalid error)

/-- The settings that hold in a directory, and the files that were passed over. -/
def loadWith (decode : Decoder) (disk : Disk) (environment : Environment)
    (overrides : Value.Entries) (directory : Place) : Except LoadError Settings × List Place :=
  (collect decode disk environment overrides directory).run.run []

/-- The settings that hold in a directory when the files are TOML. -/
def load : Disk → Environment → Value.Entries → Place → Except LoadError Settings × List Place :=
  loadWith Toml.parse?

end Settings

end GoMend
