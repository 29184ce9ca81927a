import GoMend.Proofs.CommandLine.Prepare
import GoMend.Proofs.Fix.Removal

/-!
# Writing the results

A run that is prepared prints or writes every file, and cannot fail any more.  So a run either does
all of its work or leaves the disk and the standard output alone.
-/

namespace GoMend.CommandLine

/-- The text that is written for a file: what it is printed to, unless that is the text that was
read. -/
def LoadedFile.newText? (set : FileSet) (item : LoadedFile) : Option String :=
  match item.file.print (some set) with
  | .error _ => none
  | .ok text => if text = item.source then none else some text

/-- The last text that is written for one of the files at a place. -/
def lastText? (disk : Disk) (set : FileSet) (place : Place) (items : List LoadedFile) :
    Option String :=
  ((items.filter fun item => disk.resolve item.path = place).filterMap (·.newText? set)).getLast?

/-! ### Writing one file -/

section

variable {set : FileSet} {outcome : Outcome} {item : LoadedFile} {text : String}

/-- A file that can be printed lets a run go on. -/
theorem writeFile_ending (write : Bool) (success : outcome.ending = .success)
    (printed : item.file.print (some set) = .ok text) :
    (writeFile write set outcome item).ending = .success := by
  unfold writeFile
  rw [success, printed]
  dsimp only
  split
  · rfl
  · split <;> rfl

/-- A file is printed or written, but never both. -/
theorem writeFile_disk (success : outcome.ending = .success)
    (printed : item.file.print (some set) = .ok text) :
    (writeFile true set outcome item).disk =
      match item.newText? set with
      | none => outcome.disk
      | some text => outcome.disk.write (outcome.disk.resolve item.path) text.toUTF8.toList := by
  unfold writeFile LoadedFile.newText?
  rw [success, printed]
  dsimp only
  split <;> rfl

theorem writeFile_disk_of_not_write (set : FileSet) (outcome : Outcome) (item : LoadedFile) :
    (writeFile false set outcome item).disk = outcome.disk := by
  unfold writeFile
  split
  · rfl
  · split <;> rfl
  · rfl

end

/-! ### Writing all files -/

section

variable {set : FileSet} {items : List LoadedFile} {outcome : Outcome}

theorem foldl_writeFile_ending (write : Bool)
    (print : ∀ item ∈ items, ∃ text, item.file.print (some set) = .ok text)
    (success : outcome.ending = .success) :
    (items.foldl (writeFile write set) outcome).ending = .success := by
  induction items generalizing outcome with
  | nil => exact success
  | cons item items ih =>
      obtain ⟨⟨text, printed⟩, print⟩ := List.forall_mem_cons.mp print
      exact ih print (writeFile_ending write success printed)

theorem foldl_writeFile_disk_of_not_write (set : FileSet) (items : List LoadedFile)
    (outcome : Outcome) : (items.foldl (writeFile false set) outcome).disk = outcome.disk := by
  induction items generalizing outcome with
  | nil => rfl
  | cons item items ih => rw [List.foldl_cons, ih, writeFile_disk_of_not_write]

theorem lastText?_cons (disk : Disk) (set : FileSet) (place : Place) (item : LoadedFile)
    (items : List LoadedFile) :
    lastText? disk set place (item :: items) =
      (lastText? disk set place items).or
        (if disk.resolve item.path = place then item.newText? set else none) := by
  unfold lastText?
  by_cases isPlace : disk.resolve item.path = place
  · rw [if_pos isPlace, List.filter_cons_of_pos (by simpa using isPlace), List.filterMap_cons]
    cases item.newText? set with
    | none => rw [Option.or_none]
    | some text =>
        rw [List.getLast?_cons]
        cases (List.filterMap _ _).getLast? <;> rfl
  · rw [if_neg isPlace, List.filter_cons_of_neg (by simpa using isPlace), Option.or_none]

/-- Each place holds the last text that was written there, or what it held before. -/
theorem foldl_writeFile_file? (print : ∀ item ∈ items, ∃ text, item.file.print (some set) = .ok text)
    (success : outcome.ending = .success) {disk : Disk}
    (same : outcome.disk.workingDirectory = disk.workingDirectory) (place : Place) :
    (items.foldl (writeFile true set) outcome).disk.file? place =
      ((lastText? disk set place items).map fun text => text.toUTF8.toList).or
        (outcome.disk.file? place) := by
  induction items generalizing outcome with
  | nil => rfl
  | cons item items ih =>
      obtain ⟨⟨text, printed⟩, print⟩ := List.forall_mem_cons.mp print
      have success' := writeFile_ending true success printed
      have diskEq := writeFile_disk success printed
      have resolveEq := Disk.resolve_congr same item.path
      rw [List.foldl_cons, lastText?_cons]
      cases isNew : item.newText? set with
      | none =>
          rw [isNew] at diskEq
          rw [ih print success' (by rw [diskEq, same]), diskEq]
          simp
      | some new =>
          rw [isNew] at diskEq
          dsimp only at diskEq
          rw [ih print success' (by rw [diskEq, Disk.workingDirectory_write, same]), diskEq,
            Disk.file?_write, resolveEq]
          by_cases isPlace : disk.resolve item.path = place
          · rw [if_pos isPlace, if_pos isPlace.symm]
            cases lastText? disk set place items <;> rfl
          · rw [if_neg isPlace, if_neg (Ne.symm isPlace), Option.or_none]

end

/-! ### All or nothing -/

/-- The files that are left when a prepared run has written its results. -/
structure WrittenBack (disk after : Disk) (set : FileSet) (items : List LoadedFile) : Prop where
  /-- Each file holds what its tree is printed to, or is left alone when that is the text that was
  read.  Where several of the files are one on the disk, they have to agree on that. -/
  files : ∀ item ∈ items, ∃ text, item.file.print (some set) = .ok text ∧
    ((∀ other ∈ items, disk.resolve other.path = disk.resolve item.path →
        other.newText? set = item.newText? set) →
      after.file? (disk.resolve item.path) =
        if text = item.source then disk.file? (disk.resolve item.path)
        else some text.toUTF8.toList)
  /-- Each place holds the last text that was written there, or what it held before. -/
  places : ∀ place, after.file? place =
    ((lastText? disk set place items).map fun text => text.toUTF8.toList).or (disk.file? place)

/-- A run does all of its work, or changes nothing and prints nothing. -/
structure Outcome.IsAllOrNothing (decode : Settings.Decoder) (disk : Disk)
    (environment : Environment) (arguments : List String) (outcome : Outcome) : Prop where
  failed : outcome.ending.exitCode ≠ 0 → outcome.disk = disk ∧ outcome.output = ""
  readOnly : (∀ options, parse arguments = .ok (.run options) → options.write = false) →
    outcome.disk = disk
  written : ∀ options, parse arguments = .ok (.run options) → options.write = true →
    outcome.ending.exitCode = 0 →
      ∃ settings set loaded items,
        Prepared decode disk environment options settings set loaded items ∧
          WrittenBack disk outcome.disk set items

/-- When all files at a place have the same text to be written, the last of them has it. -/
theorem lastText?_eq_of_alike {disk : Disk} {set : FileSet} {items : List LoadedFile}
    {item : LoadedFile} (isItem : item ∈ items)
    (alike : ∀ other ∈ items, disk.resolve other.path = disk.resolve item.path →
      other.newText? set = item.newText? set) :
    lastText? disk set (disk.resolve item.path) items = item.newText? set := by
  unfold lastText?
  have isHere : item ∈ items.filter fun other => disk.resolve other.path = disk.resolve item.path :=
    List.mem_filter.mpr ⟨isItem, by simp⟩
  have here : ∀ other ∈ items.filter fun other => disk.resolve other.path = disk.resolve item.path,
      other.newText? set = item.newText? set := by
    intro other isOther
    obtain ⟨isOther, isPlace⟩ := List.mem_filter.mp isOther
    exact alike other isOther (by simpa using isPlace)
  generalize items.filter (fun other => disk.resolve other.path = disk.resolve item.path) = others
    at isHere here
  cases isNew : item.newText? set with
  | none =>
      rw [List.getLast?_eq_none_iff, List.filterMap_eq_nil_iff]
      exact fun other isOther => (here other isOther).trans isNew
  | some text =>
      have each : ∀ new ∈ others.filterMap (·.newText? set), new = text := by
        intro new isMem
        obtain ⟨other, isOther, same⟩ := List.mem_filterMap.mp isMem
        exact Option.some.inj (same.symm.trans ((here other isOther).trans isNew))
      have isMem : text ∈ others.filterMap (·.newText? set) :=
        List.mem_filterMap.mpr ⟨item, isHere, isNew⟩
      rw [List.getLast?_eq_some_getLast (List.ne_nil_of_mem isMem),
        each _ (List.getLast_mem _)]

section

variable {decode : Settings.Decoder} {disk : Disk} {environment : Environment} {options : Options}

theorem Prepared.writtenBack {settings : Settings} {set : FileSet} {loaded items : List LoadedFile}
    (prepared : Prepared decode disk environment options settings set loaded items) {outcome : Outcome}
    (success : outcome.ending = .success) (diskEq : outcome.disk = disk) :
    WrittenBack disk (items.foldl (writeFile true set) outcome).disk set items := by
  have print : ∀ item ∈ items, ∃ text, item.file.print (some set) = .ok text :=
    fun item isItem => prepared.exists_text isItem
  have places (place : Place) := foldl_writeFile_file? print success
    (congrArg Disk.workingDirectory diskEq) place
  rw [diskEq] at places
  refine ⟨fun item isItem => ?_, places⟩
  obtain ⟨text, printed⟩ := print item isItem
  refine ⟨text, printed, fun alike => ?_⟩
  rw [places, lastText?_eq_of_alike isItem alike, LoadedFile.newText?, printed]
  dsimp only
  split <;> rfl

/-- The cases of a run over files. -/
theorem runFiles_cases (decode : Settings.Decoder) (disk : Disk) (environment : Environment)
    (options : Options) :
    (∃ ending log, ending.exitCode ≠ 0 ∧
        runFiles decode disk environment options = { ending, disk, log }) ∨
      ∃ settings set loaded items log,
        Prepared decode disk environment options settings set loaded items ∧
          runFiles decode disk environment options =
            items.foldl (writeFile options.write set) { ending := .success, disk, log } := by
  unfold runFiles
  rcases outcome : (prepare decode disk environment options).run.run [] with ⟨ending | ⟨set, items⟩, log⟩
  · exact .inl ⟨ending, log, prepare_failsLoudly _ _ _ outcome, rfl⟩
  · obtain ⟨settings, loaded, prepared⟩ := exists_prepared outcome
    exact .inr ⟨settings, set, loaded, items, log, prepared, rfl⟩

end

/-- Whatever is on the disk and in the arguments, and however settings are decoded, a run is all or
nothing. -/
theorem executeWith_isAllOrNothing (decode : Settings.Decoder) (disk : Disk)
    (environment : Environment) (arguments : List String) :
    (executeWith decode disk environment arguments).IsAllOrNothing decode disk environment
      arguments := by
  unfold executeWith
  cases parsed : parse arguments with
  | error error =>
      exact ⟨fun _ => ⟨rfl, rfl⟩, fun _ => rfl, fun options isRun => by simp [parsed] at isRun⟩
  | ok command =>
      cases command with
      | version | help =>
          exact ⟨fun wrong => absurd rfl wrong, fun _ => rfl,
            fun options isRun => by simp [parsed] at isRun⟩
      | run options =>
          dsimp only
          rcases runFiles_cases decode disk environment options with
            ⟨ending, log, failed, outcomeEq⟩ | ⟨settings, set, loaded, items, log, prepared, outcomeEq⟩
          · simp only [runOptions, outcomeEq]
            exact ⟨fun _ => ⟨rfl, rfl⟩, fun _ => rfl, fun _ _ _ success => absurd success failed⟩
          · have success := @foldl_writeFile_ending set items { ending := .success, disk, log }
              options.write (fun item isItem => prepared.exists_text isItem) rfl
            simp only [runOptions, outcomeEq]
            refine ⟨fun wrong => ?_, fun readOnly => ?_, fun other isRun writes _ => ?_⟩
            · exact absurd (congrArg Ending.exitCode success) wrong
            · have notWrite := readOnly options parsed
              rw [notWrite]
              exact foldl_writeFile_disk_of_not_write set items _
            · obtain rfl : options = other := by
                simpa [parsed] using isRun
              rw [writes]
              exact ⟨settings, set, loaded, items, prepared, prepared.writtenBack rfl rfl⟩

/-! ### A run that rewrites a file -/

/-- Settings that are loaded are those of a run. -/
theorem gives_loadSettings {decode : Settings.Decoder} {disk : Disk} {environment : Environment}
    {options : Options} {directory : Place} {settings : Settings} {passed : List Place}
    (loaded : Settings.loadWith decode disk environment
      (options.maxTries.toList.map fun (tries : Nat) => ("max_tries", .int tries)) directory =
        (.ok settings, passed)) (log : Log) :
    ∃ after, Gives (loadSettings decode disk environment options directory) log settings after := by
  unfold loadSettings
  dsimp only
  rw [loaded]
  exact ⟨_, rfl⟩

/-- A disk with one file, in which a run finds something to mend. -/
def blankDisk : Disk where
  files := [(["p", "a.go"], blankText.toUTF8.toList)]
  workingDirectory := ["p"]

/-- The options of a run that mends the file. -/
def blankOptions : Options where
  paths := ["a.go"]
  write := true
  maxTries := some 2

/-- What the run writes. -/
def blankMended : String :=
  "package p\n\nfunc f(x int) \x7b\n\t_ = x\n\x7d\n"

theorem parse_blankOptions :
    parse ["--write", "--max-tries", "2", "a.go"] = .ok (.run blankOptions) := by
  rfl

theorem loadWith_blankDisk (decode : Settings.Decoder) :
    Settings.loadWith decode blankDisk {} [("max_tries", .int 2)] ["p"] =
      (.ok { maxTries := 2 }, []) := by
  obtain ⟨noProject, noSettings⟩ : blankDisk.findUpward? Settings.projectFile ["p"] = none ∧
      blankDisk.findUpward? Settings.settingsFile ["p"] = none := by
    decide +kernel
  unfold Settings.loadWith Settings.collect Settings.projectLayer Settings.settingsLayer
    Settings.fileEntries
  rw [noProject, noSettings]
  rfl

theorem readText_blankDisk : readText blankDisk (.ofText "a.go") = pure blankText := by
  have isText : Text.decodeUtf8
      (((blankDisk.find? (.ofText "a.go")).bind blankDisk.file?).getD []) = .ok blankText := by
    decide +kernel
  have unified : String.ofList (Text.unifyNewlines blankText.toList) = blankText := by rfl
  rw [readText, isText]
  dsimp only
  rw [unified]

/-- The set that holds the file. -/
def blankSet : FileSet :=
  (FileSet.empty.add "a.go" blankText).1

/-- The file with the given token in the place of `:=`. -/
def blankItem (tok : Token) : LoadedFile where
  path := .ofText "a.go"
  source := blankText
  file := blankFile tok

theorem loadFiles_blankDisk :
    loadFiles blankDisk {} [.ofText "a.go"] = pure (blankSet, [blankItem .define]) := by
  have parsed : (File.parse .empty (Path.ofText "a.go").render blankText).2 =
      .ok (blankFile .define) :=
    File.parse_of_scan scan_blankText rfl
  exact loadFiles_cons_eq_pure.mpr ⟨_, _, [], readText_blankDisk, parsed, rfl, rfl⟩

/-- A package that a run mends without a failure is mended. -/
theorem gives_mendPackage {settings : Settings} {set : FileSet} {mended : Mended} {package : String}
    {run : Run} (isRun : quickFix (.scopeCheck settings.importNames) .standard set settings.maxTries
      (packageFiles package mended.items) = .ok run) (isClean : run.ending = .clean) (log : Log) :
    ∃ after, Gives (mendPackage settings set mended package) log
      { mended with items := replaceFiles package mended.items run.files } after := by
  have runEq := Except.ok.inj ((quickFix_maxTries settings set _).symm.trans isRun)
  unfold mendPackage
  dsimp only
  rw [runEq, isClean]
  exact ⟨_, rfl⟩

theorem gives_changePackages_blankDisk (log : Log) :
    ∃ after, Gives (changePackages blankOptions { maxTries := 2 } blankSet [blankItem .define]) log
      [blankItem .assign] after := by
  obtain ⟨run, isRun, isClean, filesEq⟩ := quickFix_blankFile blankSet
  obtain ⟨after, isMended⟩ := @gives_mendPackage { maxTries := 2 } blankSet
    { items := [blankItem .define] } "p" run isRun isClean log
  rw [filesEq] at isMended
  have isPackage : packages [blankItem .define] = ["p"] := by rfl
  unfold changePackages
  rw [if_neg (by decide), isPackage]
  have folded := gives_bind.mpr ⟨_, after, isMended, gives_pure.mpr ⟨rfl, rfl⟩⟩
  exact ⟨after, gives_bind.mpr ⟨_, after, folded, gives_pure.mpr ⟨rfl, rfl⟩⟩⟩

theorem gives_prepare_blankDisk (decode : Settings.Decoder) :
    ∃ after, Gives (prepare decode blankDisk {} blankOptions) [] (blankSet, [blankItem .assign])
      after := by
  have isFound : Gives (sourceFiles blankDisk [.ofText "a.go"]) [] [.ofText "a.go"] [] := rfl
  obtain ⟨configured, isConfigured⟩ :=
    @gives_loadSettings decode blankDisk {} blankOptions ["p"] _ _ (loadWith_blankDisk decode) []
  have isLoaded : Gives (loadFiles blankDisk {} [.ofText "a.go"]) configured
      (blankSet, [blankItem .define]) configured := by
    rw [loadFiles_blankDisk]
    exact gives_pure.mpr ⟨rfl, rfl⟩
  obtain ⟨after, isChanged⟩ := gives_changePackages_blankDisk configured
  exact ⟨after, gives_bind.mpr ⟨_, _, isFound, gives_bind.mpr ⟨_, _, isConfigured,
    gives_bind.mpr ⟨_, _, isLoaded, gives_bind.mpr ⟨_, _, isChanged, gives_pure.mpr ⟨rfl, rfl⟩⟩⟩⟩⟩⟩

theorem print_blankItem : (blankItem .assign).file.print (some blankSet) = .ok blankMended := by
  decide +kernel

/-- The run ends well, and the file holds what its mended tree is printed to. -/
theorem executeWith_isAllOrNothing_rewritten :
    let arguments := ["--write", "--max-tries", "2", "a.go"]
    let outcome := executeWith Toml.parse? blankDisk {} arguments
    outcome.ending.exitCode = 0 ∧
      outcome.disk.file? ["p", "a.go"] = some blankMended.toUTF8.toList ∧
      blankMended ≠ blankText ∧
      outcome.IsAllOrNothing Toml.parse? blankDisk {} arguments := by
  intro arguments outcome
  have differs : blankMended ≠ blankText := by decide
  obtain ⟨log, isPrepared⟩ := gives_prepare_blankDisk Toml.parse?
  have isRun : (prepare Toml.parse? blankDisk {} blankOptions).run.run [] = (.ok _, log) := isPrepared
  have outcomeEq : outcome = runOptions Toml.parse? blankDisk {} blankOptions := by
    show executeWith _ _ _ arguments = _
    rw [executeWith, show parse arguments = _ from parse_blankOptions]
  have written : outcome.ending = .success ∧
      outcome.disk = blankDisk.write ["p", "a.go"] blankMended.toUTF8.toList := by
    rw [outcomeEq, runOptions, runFiles, isRun]
    simp only [List.foldl_cons, List.foldl_nil, writeFile, print_blankItem]
    rw [if_neg (show blankMended ≠ (blankItem .assign).source from differs)]
    exact ⟨rfl, rfl⟩
  obtain ⟨success, diskEq⟩ := written
  refine ⟨?_, ?_, differs, executeWith_isAllOrNothing Toml.parse? blankDisk {} arguments⟩
  · rw [success]
    rfl
  · rw [diskEq, Disk.file?_write]
    rfl

end GoMend.CommandLine
