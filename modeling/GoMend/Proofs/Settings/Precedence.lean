import GoMend.Settings.Layers
import Mathlib

/-!
# Precedence of settings

Every setting has the value that the highest layer gives it: the command line stands over the
environment, the environment over the settings file, and the settings file over the project file.
Only the values that are left in the end are checked, so a wrong value does no harm when a higher
layer gives another one.
-/

namespace GoMend

/-! ### What values may be -/

namespace Value

/-- Whether a value is given at all. -/
def isGiven : Value → Bool
  | .none => false
  | _ => true

/-- A number of tries is a positive integer. -/
def IsTries : Value → Prop
  | .int number => 1 ≤ number
  | _ => False

/-- An import path is a text that is not empty. -/
def IsPath : Value → Prop
  | .text path => path ≠ ""
  | _ => False

/-- Import paths stand in a list. -/
def IsPaths : Value → Prop
  | .list items => ∀ item ∈ items, item.IsPath
  | _ => False

/-- A package name is an identifier. -/
def IsPackageName : Value → Prop
  | .text name => Text.isIdentifier name
  | _ => False

/-- Package names stand in a table. -/
def IsPackageNames : Value → Prop
  | .table entries => ∀ entry ∈ entries, entry.2.IsPackageName
  | _ => False

/-- The list of import paths as a value. -/
def ofPaths (paths : List String) : Value :=
  .list (paths.map .text)

/-- The table of package names as a value. -/
def ofPackageNames (names : List (String × String)) : Value :=
  .table (names.map fun (path, name) => (path, .text name))

theorem path?_eq_some {value : Value} {path : String} :
    value.path? = some path ↔ value = .text path ∧ value.IsPath := by
  unfold path? IsPath
  split
  next text =>
    by_cases empty : text = ""
    · simp [empty]
    · simp [empty]
  next => simp

theorem packageName?_eq_some {value : Value} {name : String} :
    value.packageName? = some name ↔ value = .text name ∧ value.IsPackageName := by
  unfold packageName? IsPackageName
  split
  next text =>
    by_cases isName : Text.isIdentifier text = true
    · simp [isName]
    · simp [isName]
  next => simp

end Value

/-- A conversion of all items succeeds when every item has the form that it reads, and gives what
the items were made of. -/
theorem mapM_option_cases {α β : Type} (convert : α → Option β) (back : β → α) (Fits : α → Prop)
    (converts : ∀ {item result}, convert item = some result ↔ item = back result ∧ Fits item)
    (fits : ∀ {item}, Fits item → ∃ result, item = back result) (items : List α) :
    (∃ results, items.mapM convert = some results ∧ items = results.map back ∧
        ∀ item ∈ items, Fits item) ∨
      items.mapM convert = none ∧ ¬∀ item ∈ items, Fits item := by
  induction items with
  | nil => exact .inl ⟨[], rfl, rfl, by simp⟩
  | cons item rest ih =>
      rw [List.mapM_cons]
      cases converted : convert item with
      | none =>
          refine .inr ⟨rfl, fun all => ?_⟩
          have itemFits := all item (by simp)
          obtain ⟨result, made⟩ := fits itemFits
          rw [converts.mpr ⟨made, itemFits⟩] at converted
          cases converted
      | some result =>
          obtain ⟨made, itemFits⟩ := converts.mp converted
          rcases ih with ⟨results, converted, restMade, restFits⟩ | ⟨failed, wrong⟩
          · refine .inl ⟨result :: results, by rw [converted]; rfl, ?_, ?_⟩
            · rw [List.map_cons, ← made, ← restMade]
            · exact List.forall_mem_cons.mpr ⟨itemFits, restFits⟩
          · refine .inr ⟨by rw [failed]; rfl, fun all => wrong ?_⟩
            exact (List.forall_mem_cons.mp all).2

/-! ### Reading one setting -/

namespace Settings

/-- A conversion accepts the values of a kind, each as what it was made of, and no others. -/
def Accepts {α : Type} (convert : Value → Except SettingsError α) (toValue : α → Value)
    (IsKind : Value → Prop) : Prop :=
  ∀ value, (∃ result, convert value = .ok result ∧ value = toValue result ∧ IsKind value) ∨
    ∃ error, convert value = .error error ∧ ¬IsKind value

theorem accepts_tries :
    Accepts Value.tries? (fun number => .int number.val) Value.IsTries := by
  intro value
  cases value with
  | int number =>
      by_cases positive : 1 ≤ number
      · have back : (number.toNat : Int) = number := Int.toNat_of_nonneg (by omega)
        exact .inl ⟨⟨number.toNat, by omega⟩, dif_pos positive, congrArg Value.int back.symm,
          positive⟩
      · exact .inr ⟨.triesTooSmall, dif_neg positive, positive⟩
  | _ => exact .inr ⟨.triesNotInteger, rfl, id⟩

theorem accepts_paths : Accepts Value.paths? Value.ofPaths Value.IsPaths := by
  intro value
  cases value with
  | list items =>
      have cases := mapM_option_cases Value.path? Value.text Value.IsPath Value.path?_eq_some
        (fun {item} isPath => by cases item <;> first | exact ⟨_, rfl⟩ | exact isPath.elim) items
      rw [Value.paths?]
      rcases cases with ⟨paths, converted, made, all⟩ | ⟨failed, wrong⟩
      · rw [converted]
        exact .inl ⟨paths, rfl, congrArg Value.list made, all⟩
      · rw [failed]
        exact .inr ⟨.invalidKeptImports, rfl, wrong⟩
  | _ => exact .inr ⟨.invalidKeptImports, rfl, id⟩

theorem accepts_packageNames :
    Accepts Value.packageNames? Value.ofPackageNames Value.IsPackageNames := by
  intro value
  cases value with
  | table entries =>
      have cases := mapM_option_cases
        (fun entry : String × Value => entry.2.packageName?.map (entry.1, ·))
        (fun entry => (entry.1, .text entry.2)) (fun entry => entry.2.IsPackageName)
        (by
          rintro ⟨path, value⟩ ⟨other, name⟩
          simp only [Option.map_eq_some_iff, Value.packageName?_eq_some, Prod.mk.injEq]
          constructor
          · rintro ⟨_, ⟨made, isName⟩, rfl, rfl⟩
            exact ⟨⟨rfl, made⟩, isName⟩
          · rintro ⟨⟨rfl, made⟩, isName⟩
            exact ⟨_, ⟨made, isName⟩, rfl, rfl⟩)
        (by
          rintro ⟨path, value⟩ isName
          cases value <;> first | exact ⟨(path, _), rfl⟩ | exact isName.elim)
        entries
      rw [Value.packageNames?]
      rcases cases with ⟨names, converted, made, all⟩ | ⟨failed, wrong⟩
      · rw [converted]
        exact .inl ⟨names, rfl, congrArg Value.table made, all⟩
      · rw [failed]
        exact .inr ⟨.invalidImportNames, rfl, wrong⟩
  | _ => exact .inr ⟨.invalidImportNames, rfl, id⟩

/-- A setting is read as the value of its name, or as its default. -/
theorem Accepts.read {α : Type} {convert : Value → Except SettingsError α} {toValue : α → Value}
    {IsKind : Value → Prop} (accepts : Accepts convert toValue IsKind) (values : Value.Entries)
    (name : String) (default : α) (defaultIsKind : IsKind (toValue default)) :
    (∃ result, read values name convert default = .ok result ∧
        (values.lookup name).getD (toValue default) = toValue result ∧
        IsKind (toValue result)) ∨
      ∃ error, read values name convert default = .error error ∧
        ¬IsKind ((values.lookup name).getD (toValue default)) := by
  unfold Settings.read
  cases values.lookup name with
  | none => exact .inl ⟨default, rfl, rfl, defaultIsKind⟩
  | some value =>
      rcases accepts value with ⟨result, converted, made, isKind⟩ | failed
      · exact .inl ⟨result, converted, made, made ▸ isKind⟩
      · exact .inr failed

/-! ### The final values -/

/-- The values of all settings, of any kind. -/
structure FinalValues where
  maxTries : Value
  keptImports : Value
  importNames : Value

/-- The values that entries give, with the defaults for what they leave open. -/
def FinalValues.of (value? : String → Option Value) : FinalValues where
  maxTries := (value? "max_tries").getD (.int 10)
  keptImports := (value? "side_effect_imports").getD (.ofPaths sideEffectImports)
  importNames := (value? "import_names").getD (.ofPackageNames [])

/-- Every setting has a value of its kind. -/
structure FinalValues.AreValid (values : FinalValues) : Prop where
  maxTries : values.maxTries.IsTries
  keptImports : values.keptImports.IsPaths
  importNames : values.importNames.IsPackageNames

/-- The defaults pass their own checks. -/
theorem FinalValues.defaults_areValid : (FinalValues.of fun _ => none).AreValid where
  maxTries := show (1 : Int) ≤ 10 by decide
  keptImports := show ∀ item ∈ sideEffectImports.map Value.text, item.IsPath by
    simp [sideEffectImports, Value.IsPath]
  importNames := fun _ mem => absurd mem List.not_mem_nil

/-- The values of settings. -/
def values (settings : Settings) : FinalValues where
  maxTries := .int settings.maxTries
  keptImports := .ofPaths settings.keptImports
  importNames := .ofPackageNames settings.importNames

/-- Settings are made of the final values if those are valid, and of nothing else. -/
theorem ofValues_cases (entries : Value.Entries) :
    (∃ settings, ofValues entries = .ok settings ∧
        settings.values = FinalValues.of (entries.lookup ·) ∧ settings.values.AreValid) ∨
      ∃ error, ofValues entries = .error error ∧
        ¬(FinalValues.of (entries.lookup ·)).AreValid := by
  unfold ofValues
  rcases accepts_tries.read entries "max_tries" ⟨10, by decide⟩
    FinalValues.defaults_areValid.maxTries with
    ⟨tries, isTries, triesEq, triesValid⟩ | ⟨error, failed, wrong⟩
  case inr =>
    rw [failed]
    exact .inr ⟨error, rfl, fun valid => wrong valid.maxTries⟩
  rw [isTries]
  rcases accepts_paths.read entries "side_effect_imports" sideEffectImports
    FinalValues.defaults_areValid.keptImports with
    ⟨paths, isPaths, pathsEq, pathsValid⟩ | ⟨error, failed, wrong⟩
  case inr =>
    rw [failed]
    exact .inr ⟨error, rfl, fun valid => wrong valid.keptImports⟩
  rw [isPaths]
  rcases accepts_packageNames.read entries "import_names" []
    FinalValues.defaults_areValid.importNames with
    ⟨names, isNames, namesEq, namesValid⟩ | ⟨error, failed, wrong⟩
  case inr =>
    rw [failed]
    exact .inr ⟨error, rfl, fun valid => wrong valid.importNames⟩
  rw [isNames]
  refine .inl ⟨_, rfl, ?_, triesValid, pathsValid, namesValid⟩
  unfold FinalValues.of
  rw [pathsEq, namesEq]
  exact congrArg (fun value => FinalValues.mk value _ _) triesEq.symm

/-- What holds of settings whose values are valid. -/
structure AreSound (settings : Settings) : Prop where
  maxTries : 1 ≤ settings.maxTries
  keptImports : ∀ path ∈ settings.keptImports, path ≠ ""
  importNames : ∀ entry ∈ settings.importNames, Text.isIdentifier entry.2

theorem FinalValues.AreValid.areSound {settings : Settings} (valid : settings.values.AreValid) :
    settings.AreSound where
  maxTries := settings.maxTries_pos
  keptImports _ mem := valid.keptImports _ (List.mem_map_of_mem mem)
  importNames entry mem := valid.importNames (entry.1, .text entry.2)
    (List.mem_map.mpr ⟨entry, mem, rfl⟩)

/-! ### The layers -/

/-- The content of the nearest file of a name, from a directory upwards. -/
def nearest? (disk : Disk) (directory : Place) (name : String) : Option (List UInt8) :=
  (disk.findUpward? name directory).map fun place => (disk.file? place).getD []

/-- The nearest file of a name is UTF-8 if there is one. -/
def IsText (disk : Disk) (directory : Place) (name : String) : Prop :=
  ∀ content, nearest? disk directory name = some content →
    ∃ text, Text.decodeUtf8 content = .ok text

/-- The values in the nearest file of a name.  There are none without a file, nor in a file that is
no document. -/
def given (decode : Decoder) (disk : Disk) (directory : Place) (name : String) : Value.Entries :=
  match nearest? disk directory name with
  | none => []
  | some content =>
      match Text.decodeUtf8 content with
      | .ok text => (decode text).getD []
      | .error _ => []

/-- The table of a name among values, which is empty when it is missing. -/
def table? (entries : Value.Entries) (name : String) : Option Value.Entries :=
  match entries.lookup name with
  | none => some []
  | some (.table inner) => some inner
  | some _ => none

/-- The section for settings in the project file, if it and what holds it are tables. -/
def section? (decode : Decoder) (disk : Disk) (directory : Place) : Option Value.Entries :=
  (table? (given decode disk directory projectFile) "tool").bind (table? · "goquickfix")

/-- The value that the command line gives a setting.  Settings without a value are not given. -/
def overridden? (overrides : Value.Entries) (name : String) : Option Value :=
  (overrides.find? fun entry => entry.1 == name && entry.2.isGiven).map Prod.snd

/-- The value that the environment gives a setting. -/
def environmentEntry? (environment : Environment) (name : String) : Option Value :=
  if name = "max_tries" then
    (environment.maxTries.bind Text.integer?).map .int
  else if name = "side_effect_imports" then
    environment.sideEffectImports.map fun text => .ofPaths (pathList text)
  else
    none

/-- The value that the highest layer gives a setting. -/
def highest? (decode : Decoder) (disk : Disk) (environment : Environment)
    (overrides : Value.Entries) (directory : Place) (project : Value.Entries) (name : String) :
    Option Value :=
  overridden? overrides name <|> environmentEntry? environment name <|>
    (given decode disk directory settingsFile).lookup name <|> project.lookup name

/-- The variable for the number of tries holds an integer if it is set. -/
def HoldsInteger (environment : Environment) : Prop :=
  ∀ text ∈ environment.maxTries, (Text.integer? text).isSome

/-- A step of loading gives a value, whatever was passed over before. -/
def Loads {α : Type} (step : Load α) (value : α) : Prop :=
  ∀ passed, ∃ more, step.run.run passed = (.ok value, more)

section

variable {α β : Type}

theorem Loads.pure (value : α) : Loads (pure value) value :=
  fun passed => ⟨passed, rfl⟩

theorem Loads.run_bind {step : Load α} {value : α} (loads : Loads step value)
    (next : α → Load β) (passed : List Place) :
    ∃ more, (step >>= next).run.run passed = (next value).run.run more := by
  obtain ⟨more, runs⟩ := loads passed
  refine ⟨more, ?_⟩
  change (do let outcome ← step.run; ExceptT.bindCont next outcome : StateM _ _).run passed = _
  rw [StateT.run_bind, runs]
  rfl

theorem Loads.bind {step : Load α} {value : α} {next : α → Load β} {result : β}
    (loads : Loads step value) (continues : Loads (next value) result) :
    Loads (step >>= next) result := by
  intro passed
  obtain ⟨between, runs⟩ := loads.run_bind next passed
  rw [runs]
  exact continues between

end

section

variable {decode : Decoder} {disk : Disk} {directory : Place} {name : String}

theorem fileEntries_loads (isText : IsText disk directory name) :
    Loads (fileEntries decode disk directory name) (given decode disk directory name) := by
  unfold fileEntries given
  cases found : disk.findUpward? name directory with
  | none =>
      rw [nearest?, found]
      exact .pure []
  | some place =>
      have isNearest : nearest? disk directory name = some ((disk.file? place).getD []) := by
        rw [nearest?, found]
        rfl
      obtain ⟨text, decoded⟩ := isText _ isNearest
      simp only [isNearest, decoded]
      cases decode text with
      | some entries => exact .pure entries
      | none => exact fun passed => ⟨passed ++ [place], rfl⟩

theorem table_loads {entries inner : Value.Entries} (isTable : table? entries name = some inner) :
    Loads (table entries name) inner := by
  unfold table? at isTable
  unfold table
  cases found : entries.lookup name with
  | none =>
      rw [found] at isTable
      obtain rfl := Option.some.inj isTable
      exact .pure []
  | some value =>
      rw [found] at isTable
      cases value with
      | table entries =>
          obtain rfl := Option.some.inj isTable
          exact .pure _
      | _ => cases isTable

theorem projectLayer_loads {project : Value.Entries} (isText : IsText disk directory projectFile)
    (isTable : section? decode disk directory = some project) :
    Loads (projectLayer decode disk directory) (known project) := by
  obtain ⟨tools, isTools, isProject⟩ := Option.bind_eq_some_iff.mp isTable
  exact (fileEntries_loads isText).bind
    ((table_loads isTools).bind ((table_loads isProject).bind (.pure _)))

theorem settingsLayer_loads (isText : IsText disk directory settingsFile) :
    Loads (settingsLayer decode disk directory) (known (given decode disk directory settingsFile)) :=
  (fileEntries_loads isText).bind (.pure _)

end

/-! ### The value of a setting in all layers -/

/-- The value of a name among entries that are kept. -/
theorem lookup_filter (keep : String × Value → Bool) (entries : Value.Entries) (name : String) :
    (entries.filter keep).lookup name =
      (entries.find? fun entry => entry.1 == name && keep entry).map Prod.snd := by
  induction entries with
  | nil => rfl
  | cons entry rest ih =>
      obtain ⟨key, value⟩ := entry
      rw [List.filter_cons, List.find?_cons]
      cases kept : keep (key, value)
      · simpa using ih
      · by_cases same : name = key
        · simp [same]
        · have differs : (name == key) = false := beq_false_of_ne same
          have differs' : (key == name) = false := beq_false_of_ne (Ne.symm same)
          simpa [List.lookup_cons, differs, differs'] using ih

section

variable {name : String} (isSetting : name ∈ names)

include isSetting

theorem lookup_known (entries : Value.Entries) :
    (known entries).lookup name = entries.lookup name := by
  have all := lookup_filter (fun _ => true) entries name
  rw [List.filter_eq_self.mpr fun _ _ => rfl] at all
  rw [known, lookup_filter, all]
  congr 2
  funext entry
  by_cases same : entry.1 = name
  · simp [same, isSetting]
  · simp [beq_false_of_ne same]

theorem lookup_commandLayer (overrides : Value.Entries) :
    (commandLayer overrides).lookup name = overridden? overrides name := by
  rw [commandLayer, known, List.filter_filter, lookup_filter, overridden?]
  congr 2
  funext entry
  by_cases same : entry.1 = name
  · simp [same, isSetting]
    rfl
  · simp [beq_false_of_ne same]

end

/-- The value of a name in a layer of one variable that may be set. -/
theorem lookup_toList {α : Type} (given? : Option α) (key : String) (toValue : α → Value)
    (name : String) :
    (given?.toList.map fun set => (key, toValue set)).lookup name =
      if name = key then given?.map toValue else none := by
  cases given? with
  | none => simp
  | some set =>
      by_cases same : name = key
      · simp [same]
      · simp [List.lookup_cons, same, beq_false_of_ne same]

/-- The layer of the environment when the number of tries is what was read of its variable. -/
theorem lookup_variables (environment : Environment) (name : String) :
    (((environment.maxTries.bind Text.integer?).toList.map fun number =>
        ("max_tries", Value.int number)) ++
      environment.sideEffectImports.toList.map fun text =>
        ("side_effect_imports", Value.ofPaths (pathList text))).lookup name =
      environmentEntry? environment name := by
  rw [List.lookup_append, lookup_toList, lookup_toList, environmentEntry?]
  by_cases isTries : name = "max_tries"
  · simp [isTries]
  · simp [isTries]

/-- The environment gives a layer if its variable for the number of tries holds an integer. -/
theorem environmentLayer_cases (environment : Environment) :
    (∃ layer, environmentLayer environment = .ok layer ∧ HoldsInteger environment ∧
        ∀ name, layer.lookup name = environmentEntry? environment name) ∨
      ∃ error, environmentLayer environment = .error error ∧ ¬HoldsInteger environment := by
  have lookup := lookup_variables environment
  unfold environmentLayer HoldsInteger
  cases set : environment.maxTries with
  | none =>
      rw [set] at lookup
      exact .inl ⟨_, rfl, by simp, lookup⟩
  | some text =>
      rw [set] at lookup
      cases read : Text.integer? text with
      | none => exact .inr ⟨.variableNotInteger text, by simp only [read]; rfl, by simp [read]⟩
      | some number =>
          rw [Option.bind_some, read] at lookup
          exact .inl ⟨_, by simp only [read]; rfl, by simp [read], lookup⟩

/-- The first layer that gives a setting is the highest one. -/
theorem lookup_merge (project settings environment command : Value.Entries) (name : String) :
    (merge [project, settings, environment, command]).lookup name =
      (command.lookup name <|> environment.lookup name <|> settings.lookup name <|>
        project.lookup name) := by
  simp [merge, List.lookup_append]

/-- The final values only depend on the values of the settings. -/
theorem FinalValues.of_congr {value? other? : String → Option Value}
    (same : ∀ name ∈ names, value? name = other? name) :
    FinalValues.of value? = FinalValues.of other? := by
  unfold FinalValues.of
  rw [same "max_tries" (by decide), same "side_effect_imports" (by decide),
    same "import_names" (by decide)]

/-! ### Loading -/

/-- Loading comes down to the values that the layers give together. -/
theorem loadWith_eq {decode : Decoder} {disk : Disk} {directory : Place} {project : Value.Entries}
    (environment : Environment) (overrides : Value.Entries)
    (projectIsText : IsText disk directory projectFile)
    (settingsIsText : IsText disk directory settingsFile)
    (hasSection : section? decode disk directory = some project) :
    (loadWith decode disk environment overrides directory).1 =
      (environmentLayer environment >>= fun layer =>
        ofValues (merge [known project, known (given decode disk directory settingsFile), layer,
          commandLayer overrides])).mapError .invalid := by
  unfold loadWith collect
  obtain ⟨passed, runs⟩ := (projectLayer_loads projectIsText hasSection).run_bind _ []
  rw [runs]
  obtain ⟨more, runs⟩ := (settingsLayer_loads settingsIsText).run_bind _ passed
  rw [runs]
  cases environmentLayer environment with
  | error error => rfl
  | ok layer =>
      change ((collect.liftExcept (ofValues (merge _))).run.run more).1 =
        (ofValues (merge _)).mapError .invalid
      cases ofValues (merge [known project, known (given decode disk directory settingsFile), layer,
        commandLayer overrides]) <;> rfl

/-- However files are decoded, loading fails when the variable for the number of tries holds no
integer, and when one of the final values is wrong.  Otherwise it gives the settings that have the
final values. -/
theorem loadWith_precedence {decode : Decoder} {disk : Disk} {directory : Place}
    {project : Value.Entries} (environment : Environment) (overrides : Value.Entries)
    (projectIsText : IsText disk directory projectFile)
    (settingsIsText : IsText disk directory settingsFile)
    (hasSection : section? decode disk directory = some project) :
    let final := FinalValues.of (highest? decode disk environment overrides directory project)
    match (loadWith decode disk environment overrides directory).1 with
    | .ok settings =>
        HoldsInteger environment ∧ final.AreValid ∧ settings.values = final ∧ settings.AreSound
    | .error error =>
        ¬(HoldsInteger environment ∧ final.AreValid) ∧ ∃ reason, error = .invalid reason := by
  intro final
  rw [loadWith_eq environment overrides projectIsText settingsIsText hasSection]
  rcases environmentLayer_cases environment with
    ⟨layer, isLayer, holdsInteger, lookup⟩ | ⟨error, failed, noInteger⟩
  case inr =>
    rw [failed]
    exact ⟨fun holds => noInteger holds.1, error, rfl⟩
  rw [isLayer]
  let entries := merge [known project, known (given decode disk directory settingsFile), layer,
    commandLayer overrides]
  have finalEq : FinalValues.of (entries.lookup ·) = final := by
    refine FinalValues.of_congr fun name isSetting => ?_
    rw [lookup_merge, lookup_commandLayer isSetting, lookup, lookup_known isSetting,
      lookup_known isSetting]
    rfl
  change match (ofValues entries).mapError LoadError.invalid with
    | .ok settings => _
    | .error error => _
  rcases ofValues_cases entries with ⟨settings, isSettings, valuesEq, valid⟩ | ⟨error, failed, wrong⟩
  · rw [isSettings]
    rw [finalEq] at valuesEq
    exact ⟨holdsInteger, valuesEq ▸ valid, valuesEq, valid.areSound⟩
  · rw [failed]
    rw [finalEq] at wrong
    exact ⟨fun holds => wrong holds.2, error, rfl⟩

/-- A disk with both files.  Neither gives a number of tries that is valid. -/
def layeredDisk : Disk where
  files :=
    [(["p", "pyproject.toml"],
        "[tool.goquickfix]\nmax_tries = 0\nother = 1979-05-27\n".toUTF8.toList),
      (["p", ".goquickfixrc"], "max_tries = true\nside_effect_imports = []\n".toUTF8.toList)]
  workingDirectory := ["p"]

/-- An environment with a list of import paths in it. -/
def layeredEnvironment : Environment where
  sideEffectImports := some "a, ,b"

theorem isText_of_decoded {disk : Disk} {directory : Place} {name text : String}
    (decoded : (nearest? disk directory name).map Text.decodeUtf8 = some (.ok text)) :
    IsText disk directory name := by
  intro content isNearest
  rw [isNearest] at decoded
  exact ⟨text, Option.some.inj decoded⟩

theorem given_of_decoded (decode : Decoder) {disk : Disk} {directory : Place} {name text : String}
    (decoded : (nearest? disk directory name).map Text.decodeUtf8 = some (.ok text)) :
    given decode disk directory name = (decode text).getD [] := by
  obtain ⟨content, isNearest, isText⟩ := Option.map_eq_some_iff.mp decoded
  rw [given, isNearest]
  dsimp only
  rw [isText]

theorem layeredDisk_decoded :
    (nearest? layeredDisk ["p"] projectFile).map Text.decodeUtf8 =
        some (.ok "[tool.goquickfix]\nmax_tries = 0\nother = 1979-05-27\n") ∧
      (nearest? layeredDisk ["p"] settingsFile).map Text.decodeUtf8 =
        some (.ok "max_tries = true\nside_effect_imports = []\n") := by
  decide +kernel

theorem parse_layeredTexts :
    Toml.parse? "[tool.goquickfix]\nmax_tries = 0\nother = 1979-05-27\n" =
        some [("tool",
          .table [("goquickfix", .table [("max_tries", .int 0), ("other", .moment)])])] ∧
      Toml.parse? "max_tries = true\nside_effect_imports = []\n" =
        some [("max_tries", .bool true), ("side_effect_imports", .list [])] := by
  constructor
  · cbv
  · cbv

theorem loadWith_precedence_layered :
    IsText layeredDisk ["p"] projectFile ∧ IsText layeredDisk ["p"] settingsFile ∧
      (section? Toml.parse? layeredDisk ["p"]) =
        some [("max_tries", .int 0), ("other", .moment)] ∧
      ∃ settings, (loadWith Toml.parse? layeredDisk layeredEnvironment [("max_tries", .int 3)]
          ["p"]).1 = .ok settings ∧
        settings.values =
          { maxTries := .int 3, keptImports := .ofPaths ["a", "b"],
            importNames := .ofPackageNames [] } := by
  have projectIsText := isText_of_decoded layeredDisk_decoded.1
  have settingsIsText := isText_of_decoded layeredDisk_decoded.2
  have hasSection :
      (section? Toml.parse? layeredDisk ["p"]) =
        some [("max_tries", .int 0), ("other", .moment)] := by
    rw [section?, given_of_decoded _ layeredDisk_decoded.1, parse_layeredTexts.1]
    rfl
  refine ⟨projectIsText, settingsIsText, hasSection, ?_⟩
  have outcome := loadWith_precedence layeredEnvironment [("max_tries", .int 3)]
    projectIsText settingsIsText hasSection
  have finalEq : FinalValues.of (highest? Toml.parse? layeredDisk layeredEnvironment
        [("max_tries", .int 3)] ["p"] [("max_tries", .int 0), ("other", .moment)]) =
      { maxTries := .int 3, keptImports := .ofPaths ["a", "b"],
        importNames := .ofPackageNames [] } := by
    have paths : pathList "a, ,b" = ["a", "b"] := by rfl
    unfold FinalValues.of highest?
    rw [given_of_decoded _ layeredDisk_decoded.2, parse_layeredTexts.2]
    simp [overridden?, environmentEntry?, layeredEnvironment, paths, Value.isGiven, List.lookup]
  rw [finalEq] at outcome
  cases loaded : (loadWith Toml.parse? layeredDisk layeredEnvironment [("max_tries", .int 3)]
      ["p"]).1 with
  | ok settings =>
      rw [loaded] at outcome
      exact ⟨settings, rfl, outcome.2.2.1⟩
  | error error =>
      rw [loaded] at outcome
      refine absurd ⟨?_, ?_, ?_, ?_⟩ outcome.1
      · exact fun _ none => by cases none
      · exact show (1 : Int) ≤ 3 by decide
      · exact show ∀ item ∈ ["a", "b"].map Value.text, item.IsPath by
          simp [Value.IsPath]
      · exact fun _ mem => absurd mem List.not_mem_nil

end Settings

end GoMend
