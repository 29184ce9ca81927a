import GoMend.Settings.Value
import GoMend.Unicode.Identifier
import GoMend.Text.Quoted

/-!
# Settings

Three settings govern a run.  They are made from values that may be of any kind, and a value of the
wrong kind is reported by name.
-/

namespace GoMend

/-- Why values are no settings. -/
inductive SettingsError where
  | triesNotInteger
  | triesTooSmall
  | invalidKeptImports
  | invalidImportNames
  /-- A variable of the environment that should hold the number of tries. -/
  | variableNotInteger (value : String)
  deriving DecidableEq, Repr

/-- The wording of an error. -/
def SettingsError.message : SettingsError → String
  | .triesNotInteger => "max_tries must be an integer"
  | .triesTooSmall => "max_tries must be at least 1"
  | .invalidKeptImports => "side_effect_imports must be a list of import paths"
  | .invalidImportNames => "import_names must map import paths to package names"
  | .variableNotInteger value =>
      "GOQUICKFIX_MAX_TRIES must be an integer, got " ++ Text.quoted value

/-- The packages that are usually imported for their side effects only. -/
def sideEffectImports : List String :=
  ["embed", "expvar", "image/gif", "image/jpeg", "image/png", "net/http/pprof", "time/tzdata",
    "github.com/go-sql-driver/mysql", "github.com/jackc/pgx/v5/stdlib", "github.com/lib/pq",
    "github.com/mattn/go-sqlite3", "modernc.org/sqlite"]

/-- The settings of a run. -/
structure Settings where
  /-- How many passes a run may take. -/
  maxTries : Nat := 10
  /-- The paths whose blank imports are kept when fixes are taken back. -/
  keptImports : List String := sideEffectImports
  /-- The package names of paths from which they cannot be guessed. -/
  importNames : List (String × String) := []
  maxTries_pos : 0 < maxTries := by decide

namespace Value

/-- The number of tries that a value is. -/
def tries? : Value → Except SettingsError { number : Nat // 0 < number }
  | .int number =>
      if positive : 1 ≤ number then
        .ok ⟨number.toNat, by omega⟩
      else
        .error .triesTooSmall
  | _ => .error .triesNotInteger

/-- The import path that a value is. -/
def path? : Value → Option String
  | .text path => if path.isEmpty then Option.none else some path
  | _ => Option.none

/-- The import paths that a value is. -/
def paths? : Value → Except SettingsError (List String)
  | .list items =>
      match items.mapM path? with
      | some paths => .ok paths
      | Option.none => .error .invalidKeptImports
  | _ => .error .invalidKeptImports

/-- The package name that a value is. -/
def packageName? : Value → Option String
  | .text name => if Text.isIdentifier name then some name else Option.none
  | _ => Option.none

/-- The table of package names that a value is. -/
def packageNames? : Value → Except SettingsError (List (String × String))
  | .table entries =>
      match entries.mapM fun (path, name) => name.packageName?.map (path, ·) with
      | some names => .ok names
      | Option.none => .error .invalidImportNames
  | _ => .error .invalidImportNames

end Value

namespace Settings

/-- The names of the settings. -/
def names : List String :=
  ["max_tries", "side_effect_imports", "import_names"]

/-- The setting of a name, which has a default. -/
def read {α : Type} (values : Value.Entries) (name : String)
    (convert : Value → Except SettingsError α) (default : α) : Except SettingsError α :=
  match values.lookup name with
  | none => .ok default
  | some value => convert value

/-- The settings that values describe.  The first setting that is wrong is reported. -/
def ofValues (values : Value.Entries) : Except SettingsError Settings := do
  let tries ← read values "max_tries" Value.tries? ⟨10, by decide⟩
  let keptImports ← read values "side_effect_imports" Value.paths? sideEffectImports
  let importNames ← read values "import_names" Value.packageNames? []
  return { maxTries := tries.val, keptImports, importNames, maxTries_pos := tries.property }

end Settings

end GoMend
