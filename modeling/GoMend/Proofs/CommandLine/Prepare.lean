import GoMend.Proofs.CommandLine.Packages
import GoMend.Proofs.Disk
import GoMend.Proofs.Fix.Atomic

/-!
# Preparing a run

Before anything is written, the files of a run are found, read and parsed, and each package of them
is mended or reverted.  A run that gets through this holds every file that it was given, with the
tree that its package has made of it, and such a tree can be printed.
-/

namespace GoMend

open Node

/-! ### Packages keep their names -/

/-- An identifier is not changed. -/
theorem Node.ChangedOnce.not_ident {shape : Shape} {new : Node} {name : Ident}
    (changed : ChangedOnce shape new (ident name)) : False := by
  cases changed with
  | here change => cases change
  | inside resembles before after oldChildren newChildren changed =>
      exact absurd oldChildren.symm (by simp [ident, children, exprChildren])

theorem Node.ChangedOnce.package_eq {shape : Shape} {new old : File}
    (changed : ChangedOnce shape (.file new) (.file old)) : new.package = old.package := by
  cases changed with
  | here change => cases change
  | inside resembles before after oldChildren newChildren changed =>
      cases before with
      | nil =>
          obtain ⟨rfl, -⟩ := List.cons.inj oldChildren
          exact changed.not_ident.elim
      | cons first before =>
          have oldFirst := (List.cons.inj oldChildren).1
          have newFirst := (List.cons.inj newChildren).1
          simpa [ident] using newFirst.trans oldFirst.symm

theorem Mended.package_eq {file edited : File} (mended : Mended file edited) :
    edited.package = file.package := by
  induction mended with
  | nothing => rfl
  | mend before isShape outcome ih => exact (Shape.mend_changedOnce outcome).package_eq.trans ih

/-- Some of the files that were read into a set were read into it, and the others too. -/
theorem ReadInto.filter {set : FileSet} {files : List File} (isRead : ReadInto set files)
    (keep : File → Bool) : ReadInto set (files.filter keep) := by
  induction isRead with
  | nothing => exact .nothing
  | @file set files name text file before outcome ih =>
      rw [List.filter_append]
      by_cases isKept : keep file
      · rw [List.filter_cons_of_pos isKept, List.filter_nil]
        exact .file ih outcome
      · rw [List.filter_cons_of_neg isKept, List.filter_nil, List.append_nil]
        exact ReadInto.other name text ih
  | other name text before ih => exact .other name text ih

namespace CommandLine

/-! ### Steps -/

/-- A step that begins with a log gives a value, and leaves a log. -/
def Gives {α : Type} (step : Step α) (log : Log) (value : α) (after : Log) : Prop :=
  step.run.run log = (.ok value, after)

/-- Where a step ends the run, the exit code says that something is wrong. -/
def FailsLoudly {α : Type} (step : Step α) : Prop :=
  ∀ log ending after, step.run.run log = (.error ending, after) → ending.exitCode ≠ 0

section

variable {α β : Type} {step : Step α} {next : α → Step β} {log after : Log}

theorem run_bind (step : Step α) (next : α → Step β) (log : Log) :
    (step >>= next).run.run log =
      match step.run.run log with
      | (.ok value, middle) => (next value).run.run middle
      | (.error ending, middle) => (.error ending, middle) := by
  change (do let outcome ← step.run; ExceptT.bindCont next outcome : StateM _ _).run log = _
  rw [StateT.run_bind]
  rcases step.run.run log with ⟨_ | _, middle⟩ <;> rfl

theorem gives_bind {result : β} :
    Gives (step >>= next) log result after ↔
      ∃ value middle, Gives step log value middle ∧ Gives (next value) middle result after := by
  unfold Gives
  rw [run_bind]
  rcases step.run.run log with ⟨ending | first, middle⟩
  · constructor
    · intro failed
      cases failed
    · rintro ⟨_, _, failed, -⟩
      cases failed
  · constructor
    · exact fun runs => ⟨first, middle, rfl, runs⟩
    · rintro ⟨_, _, same, runs⟩
      cases same
      exact runs

theorem gives_pure {value result : α} :
    Gives (pure value) log result after ↔ value = result ∧ log = after := by
  change ((Except.ok value, log) : Except Ending α × Log) = (Except.ok result, after) ↔ _
  simp

theorem not_gives_throw {ending : Ending} {value : α} :
    ¬Gives (throw ending) log value after := by
  change ¬((Except.error ending, log) : Except Ending α × Log) = (Except.ok value, after)
  simp

theorem not_gives_fail {message : String} {value : α} : ¬Gives (fail message) log value after :=
  not_gives_throw

theorem FailsLoudly.pure (value : α) : FailsLoudly (pure value) := by
  intro log ending after failed
  cases failed

theorem FailsLoudly.throw {ending : Ending} (bad : ending.exitCode ≠ 0) :
    FailsLoudly (throw ending : Step α) := by
  intro log other after failed
  obtain ⟨same, -⟩ := Prod.mk.inj failed
  exact Except.error.inj same ▸ bad

theorem FailsLoudly.fail (message : String) : FailsLoudly (fail message : Step α) :=
  .throw Nat.one_ne_zero

theorem FailsLoudly.say (entries : Log) : FailsLoudly (say entries) := by
  intro log ending after failed
  cases failed

theorem FailsLoudly.bind (first : FailsLoudly step) (rest : ∀ value, FailsLoudly (next value)) :
    FailsLoudly (step >>= next) := by
  intro log ending after failed
  rw [run_bind] at failed
  cases outcome : step.run.run log with
  | mk result middle =>
      rw [outcome] at failed
      cases result with
      | error other =>
          obtain ⟨same, -⟩ := Prod.mk.inj failed
          exact Except.error.inj same ▸ first log other middle outcome
      | ok value => exact rest value middle ending after failed

theorem FailsLoudly.mapM {change : α → Step β} (each : ∀ value, FailsLoudly (change value))
    (values : List α) : FailsLoudly (values.mapM change) := by
  induction values with
  | nil => exact .pure []
  | cons value values ih =>
      rw [List.mapM_cons]
      exact (each value).bind fun _ => ih.bind fun _ => .pure _

theorem FailsLoudly.foldlM {change : β → α → Step β} (each : ∀ state value, FailsLoudly (change state value))
    (values : List α) (state : β) : FailsLoudly (values.foldlM change state) := by
  induction values generalizing state with
  | nil => exact .pure state
  | cons value values ih => exact (each state value).bind ih

end

/-! ### Finding and reading files -/

/-- A file was read from the disk: its path leads to a file, and its source is the text of that file
with single line feeds. -/
structure LoadedFile.IsRead (disk : Disk) (item : LoadedFile) : Prop where
  found : disk.find? item.path = some (disk.resolve item.path)
  decoded : ∃ content text, disk.file? (disk.resolve item.path) = some content ∧
    Text.decodeUtf8 content = .ok text ∧
    item.source = String.ofList (Text.unifyNewlines text.toList)

section

variable {disk : Disk} {paths files : List Path} {path : Path} {log after : Log}

/-- Paths that are located lead somewhere. -/
theorem gives_locate {located : List (Path × Place)}
    (gives : Gives (locate disk paths) log located after) :
    located.map Prod.fst = paths ∧ ∀ entry ∈ located, disk.find? entry.1 = some entry.2 := by
  induction paths generalizing log after located with
  | nil =>
      obtain ⟨rfl, -⟩ := gives_pure.mp gives
      exact ⟨rfl, by simp⟩
  | cons path paths ih =>
      rw [locate, List.mapM_cons, gives_bind] at gives
      obtain ⟨entry, middle, first, gives⟩ := gives
      obtain ⟨others, last, rest, gives⟩ := gives_bind.mp gives
      obtain ⟨rfl, -⟩ := gives_pure.mp gives
      obtain ⟨pathsEq, found⟩ := ih (show Gives (locate disk paths) _ _ _ from rest)
      split at first
      · exact absurd first not_gives_fail
      · next place isPlace =>
          obtain ⟨rfl, -⟩ := gives_pure.mp first
          exact ⟨by rw [List.map_cons, pathsEq], List.forall_mem_cons.mpr ⟨isPlace, found⟩⟩

/-- A path leads to a file. -/
def LeadsToFile (disk : Disk) (path : Path) : Prop :=
  ∃ place, disk.find? path = some place ∧ (disk.file? place).isSome

theorem leadsToFile_of_mem_directoryFiles {directory : Place}
    (found : disk.find? path = some directory) (isDirectory : disk.isDirectory directory)
    {file : Path} (isFile : file ∈ directoryFiles disk path directory) : LeadsToFile disk file := by
  obtain ⟨name, isName, rfl⟩ := List.mem_map.mp isFile
  rw [List.mem_mergeSort] at isName
  obtain ⟨isName, isSource⟩ := List.mem_filter.mp isName
  have isSome := Disk.isSome_file?_of_mem_fileNames isName
  refine ⟨_, Disk.find?_child found isDirectory ?_ isSome, isSome⟩
  rintro rfl
  exact absurd isSource (by decide)

/-- The source files of a run are files. -/
theorem gives_sourceFiles (gives : Gives (sourceFiles disk paths) log files after) :
    ∀ file ∈ files, LeadsToFile disk file := by
  obtain ⟨located, middle, isLocated, gives⟩ := gives_bind.mp gives
  obtain ⟨pathsEq, found⟩ := gives_locate isLocated
  split at gives
  · next noDirectory =>
      obtain ⟨rfl, -⟩ := gives_pure.mp gives
      rw [← pathsEq]
      intro file isFile
      obtain ⟨entry, isEntry, rfl⟩ := List.mem_map.mp isFile
      have notDirectory := List.find?_eq_none.mp noDirectory entry isEntry
      have isFound := found entry isEntry
      refine ⟨entry.2, isFound, ?_⟩
      have holds := (Option.filter_eq_some_iff.mp isFound).2
      simpa [Disk.holds, notDirectory] using holds
  · next path directory isFirst =>
      have isDirectory : disk.isDirectory directory := by simpa using List.find?_some isFirst
      split at gives
      · exact absurd gives not_gives_fail
      · split at gives
        · exact absurd gives not_gives_fail
        · obtain ⟨rfl, -⟩ := gives_pure.mp gives
          exact fun file isFile =>
            leadsToFile_of_mem_directoryFiles (found _ (List.mem_of_find?_eq_some isFirst))
              isDirectory isFile

/-- A file whose text is read was read from the disk. -/
theorem LoadedFile.isRead_of_readText {item : LoadedFile} (leads : LeadsToFile disk item.path)
    (isText : readText disk item.path = pure item.source) : item.IsRead disk := by
  obtain ⟨place, found, isFile⟩ := leads
  obtain ⟨content, isContent⟩ := Option.isSome_iff_exists.mp isFile
  have placeEq := Disk.resolve_eq_of_find? found
  refine ⟨by rw [placeEq, found], content, ?_⟩
  simp only [readText, found, Option.bind_some, isContent, Option.getD_some] at isText
  split at isText
  · exact absurd isText (fail_ne_pure _ _)
  · next text decoded =>
      exact ⟨text, by rw [placeEq, isContent], decoded, (pure_eq_pure.mp isText).symm⟩

/-- Files are loaded as they are read and parsed, one after the other. -/
theorem loadFiles_eq_pure {set final : FileSet} {items : List LoadedFile}
    (loaded : loadFiles disk set paths = pure (final, items)) :
    items.map (·.path) = paths ∧
      readSources set (items.map LoadedFile.origin) =
        .ok (final, items.map fun item => some item.file) ∧
      ∀ item ∈ items, readText disk item.path = pure item.source := by
  induction paths generalizing set items with
  | nil =>
      obtain ⟨rfl, rfl⟩ := loadFiles_nil_eq_pure.mp loaded
      exact ⟨rfl, rfl, by simp⟩
  | cons path paths ih =>
      obtain ⟨source, file, others, isText, parsed, rest, rfl⟩ := loadFiles_cons_eq_pure.mp loaded
      obtain ⟨pathsEq, read, texts⟩ := ih rest
      refine ⟨by rw [List.map_cons, pathsEq], ?_, List.forall_mem_cons.mpr ⟨isText, texts⟩⟩
      exact readSources_cons_eq_ok.mpr
        ⟨some file, _, Source.read_eq_some.mpr ⟨rfl, parsed⟩, read, rfl⟩

theorem gives_loadFiles {set : FileSet} {result : FileSet × List LoadedFile}
    (gives : Gives (loadFiles disk set paths) log result after) :
    loadFiles disk set paths = pure result := by
  rcases loadFiles_cases disk set paths with ⟨other, loaded⟩ | ⟨message, failed⟩
  · rw [loaded] at gives ⊢
    rw [(gives_pure.mp gives).1]
  · rw [failed] at gives
    exact absurd gives not_gives_fail

end

/-! ### Changing packages -/

section

variable {package other : String} {items : List LoadedFile} {files : List File}

/-- What is kept of a file when its tree is replaced: its path, its source and its package. -/
def LoadedFile.head (item : LoadedFile) : Path × String × String :=
  (item.path, item.source, item.package)

/-- Files that stand for others belong to the same packages. -/
def KeepPackages (old new : List File) : Prop :=
  List.Forall₂ (fun old new => new.package = old.package) old new

theorem map_head_replaceFiles (keep : KeepPackages (packageFiles package items) files) :
    (replaceFiles package items files).map LoadedFile.head = items.map LoadedFile.head := by
  induction items generalizing files with
  | nil => rfl
  | cons item items ih =>
      cases files with
      | nil => rfl
      | cons file files =>
          by_cases isOwn : item.package = package
          · simp only [packageFiles, List.filter_cons, isOwn, decide_true, if_true, List.map_cons,
              KeepPackages, List.forall₂_cons] at keep
            have headEq : LoadedFile.head { item with file } = item.head := by
              simp [LoadedFile.head, LoadedFile.package, keep.1]
            rw [replaceFiles, if_pos isOwn, List.map_cons, List.map_cons, ih keep.2, headEq]
          · simp only [packageFiles, List.filter_cons, isOwn, decide_false, Bool.false_eq_true,
              if_false] at keep
            rw [replaceFiles, if_neg isOwn, List.map_cons, List.map_cons, ih keep]

/-- The trees that are put back are those of the package. -/
theorem packageFiles_replaceFiles (keep : KeepPackages (packageFiles package items) files) :
    packageFiles package (replaceFiles package items files) = files := by
  induction items generalizing files with
  | nil =>
      obtain rfl := List.forall₂_nil_left_iff.mp keep
      rfl
  | cons item items ih =>
      by_cases isOwn : item.package = package
      · simp only [packageFiles, List.filter_cons, isOwn, decide_true, if_true, List.map_cons,
          KeepPackages, List.forall₂_cons_left_iff] at keep
        obtain ⟨file, rest, packageEq, keep, rfl⟩ := keep
        have isOwn' : (LoadedFile.mk item.path item.source file).package = package := by
          rw [← isOwn, LoadedFile.package, LoadedFile.package, packageEq]
        simp only [replaceFiles, isOwn, if_true, packageFiles, List.filter_cons, isOwn',
          decide_true, List.map_cons, List.cons.injEq, true_and]
        exact ih keep
      · cases files with
        | nil =>
            have nothing := List.forall₂_nil_right_iff.mp keep
            exact nothing
        | cons file files =>
            simp only [packageFiles, List.filter_cons, isOwn, decide_false, Bool.false_eq_true,
              if_false] at keep
            simp only [replaceFiles, isOwn, if_false, packageFiles, List.filter_cons, decide_false,
              Bool.false_eq_true]
            exact ih keep

/-- The other packages keep their trees. -/
theorem packageFiles_replaceFiles_of_ne (keep : KeepPackages (packageFiles package items) files)
    (isOther : other ≠ package) :
    packageFiles other (replaceFiles package items files) = packageFiles other items := by
  induction items generalizing files with
  | nil => rfl
  | cons item items ih =>
      cases files with
      | nil => rfl
      | cons file files =>
          by_cases isOwn : item.package = package
          · simp only [packageFiles, List.filter_cons, isOwn, decide_true, if_true, List.map_cons,
              KeepPackages, List.forall₂_cons] at keep
            have isOwn' : (LoadedFile.mk item.path item.source file).package = package := by
              rw [← isOwn, LoadedFile.package, LoadedFile.package, keep.1]
            simp only [replaceFiles, isOwn, if_true, packageFiles, List.filter_cons, isOwn',
              isOther.symm, decide_false, Bool.false_eq_true, if_false]
            exact ih keep.2
          · simp only [packageFiles, List.filter_cons, isOwn, decide_false, Bool.false_eq_true,
              if_false] at keep
            have rest := ih keep
            simp only [packageFiles] at rest
            simp only [replaceFiles, isOwn, if_false, packageFiles, List.filter_cons]
            split <;> simp [rest]

/-- What the program makes of the files of a package unless it fails: it takes their fixes back, or
mends them in a run whose last pass leaves nothing. -/
inductive Changes (options : Options) (settings : Settings) (set : FileSet) (old new : List File) :
    Prop
  | reverted (asked : options.revert = true)
      (filesEq : new = (revertFixes settings.keptImports old).files)
  | mended (run : Run) (asked : options.revert = false)
      (isRun : quickFix (.scopeCheck settings.importNames) .standard set settings.maxTries old =
        .ok run)
      (isFinished : run.ending = .clean ∨ run.ending = .exhausted) (filesEq : new = run.files)

theorem Changes.keepPackages {options : Options} {settings : Settings} {set : FileSet}
    {old new : List File} (changes : Changes options settings set old new) :
    KeepPackages old new := by
  cases changes with
  | reverted asked filesEq =>
      rw [filesEq, revertFixes, KeepPackages, List.forall₂_map_right_iff]
      exact List.forall₂_same.mpr fun file _ => by rw [File.reverted_eq]
  | mended run asked isRun isFinished filesEq =>
      exact filesEq ▸ (quickFix_mended isRun).imp fun _ _ mended => mended.package_eq

/-- A step that puts the changed trees of a package back among all files.  It tells what became of
them only if all is well after it, and then all was well before. -/
def ChangesPackage {α : Type} (view : α → List LoadedFile) (IsWell : α → Prop)
    (Change : List File → List File → Prop) (step : α → String → Step α) : Prop :=
  ∀ ⦃state package log next after⦄, Gives (step state package) log next after → IsWell next →
    IsWell state ∧ ∃ files, Change (packageFiles package (view state)) files ∧
      view next = replaceFiles package (view state) files

/-- Steps that change one package after the other. -/
theorem ChangesPackage.foldlM {α : Type} {view : α → List LoadedFile} {IsWell : α → Prop}
    {Change : List File → List File → Prop} {step : α → String → Step α}
    (changes : ChangesPackage view IsWell Change step)
    (keep : ∀ {old new}, Change old new → KeepPackages old new)
    {packages : List String} (nodup : packages.Nodup) {state final : α} {log after : Log}
    (gives : Gives (packages.foldlM step state) log final after) (isWell : IsWell final) :
    IsWell state ∧ (view final).map LoadedFile.head = (view state).map LoadedFile.head ∧
      (∀ package ∈ packages,
        Change (packageFiles package (view state)) (packageFiles package (view final))) ∧
      ∀ package ∉ packages, packageFiles package (view final) = packageFiles package (view state) := by
  induction packages generalizing state log with
  | nil =>
      obtain ⟨rfl, -⟩ := gives_pure.mp gives
      exact ⟨isWell, rfl, by simp, fun _ _ => rfl⟩
  | cons first packages ih =>
      obtain ⟨isNew, nodup⟩ := List.nodup_cons.mp nodup
      obtain ⟨next, middle, stepGives, rest⟩ := gives_bind.mp gives
      obtain ⟨nextIsWell, headsEq, changed, unchanged⟩ := ih nodup rest
      obtain ⟨stateIsWell, files, change, viewEq⟩ := changes stepGives nextIsWell
      have firstFiles : packageFiles first (view next) = files := by
        rw [viewEq, packageFiles_replaceFiles (keep change)]
      have otherFiles {package : String} (isOther : package ≠ first) :
          packageFiles package (view next) = packageFiles package (view state) := by
        rw [viewEq, packageFiles_replaceFiles_of_ne (keep change) isOther]
      refine ⟨stateIsWell, ?_, fun package isPackage => ?_, fun package notPackage => ?_⟩
      · rw [headsEq, viewEq, map_head_replaceFiles (keep change)]
      · rcases List.mem_cons.mp isPackage with rfl | isLater
        · rw [unchanged _ isNew, firstFiles]
          exact change
        · rw [← otherFiles (ne_of_mem_of_not_mem isLater isNew)]
          exact changed package isLater
      · obtain ⟨isOther, notLater⟩ := not_or.mp (mt List.mem_cons.mpr notPackage)
        rw [unchanged package notLater, otherFiles isOther]

theorem revertPackage_changesPackage {options : Options} (asked : options.revert = true)
    (settings : Settings) (set : FileSet) :
    ChangesPackage id (fun _ => True) (Changes options settings set) (revertPackage settings) := by
  intro items package log result after gives _
  obtain ⟨_, _, -, gives⟩ := gives_bind.mp gives
  exact ⟨trivial, _, .reverted asked rfl, (gives_pure.mp gives).1.symm⟩

/-- Settings allow a pass, so a run over the files of a package is made. -/
theorem quickFix_maxTries (settings : Settings) (set : FileSet) (files : List File) :
    quickFix (.scopeCheck settings.importNames) .standard set settings.maxTries files =
      .ok (Run.passes (.scopeCheck settings.importNames) .standard set settings.maxTries
        settings.maxTries 0 files []) :=
  if_neg (by have positive := settings.maxTries_pos; omega)

/-- A package that is mended without a failure is mended in a run that leaves nothing. -/
theorem mendPackage_changesPackage {options : Options} (asked : options.revert = false)
    (settings : Settings) (set : FileSet) :
    ChangesPackage Mended.items (·.failures = []) (Changes options settings set)
      (mendPackage settings set) := by
  intro mended package log result after gives isWell
  have isRun := quickFix_maxTries settings set (packageFiles package mended.items)
  obtain ⟨_, _, -, gives⟩ := gives_bind.mp gives
  split at gives
  · next isClean =>
      obtain ⟨rfl, -⟩ := gives_pure.mp gives
      exact ⟨isWell, _, .mended _ asked isRun (.inl isClean) rfl, rfl⟩
  · next isExhausted =>
      obtain ⟨rfl, -⟩ := gives_pure.mp gives
      exact ⟨isWell, _, .mended _ asked isRun (.inr isExhausted) rfl, rfl⟩
  · obtain ⟨_, _, -, gives⟩ := gives_bind.mp gives
    obtain ⟨rfl, -⟩ := gives_pure.mp gives
    exact absurd isWell (List.concat_ne_nil _ _)
  · exact absurd gives not_gives_throw

theorem nodup_eraseDups (names : List String) : names.eraseDups.Nodup := by
  generalize lengthEq : names.length = length
  induction length using Nat.strong_induction_on generalizing names with
  | _ length ih =>
    subst lengthEq
    cases names with
    | nil => exact List.nodup_nil
    | cons name names =>
        rw [List.eraseDups_cons]
        have shorter := List.length_filter_le (fun other => !other == name) names
        refine List.nodup_cons.mpr ⟨?_, ih _ (Nat.lt_succ_of_le shorter) _ rfl⟩
        simp

/-- Every package is changed by itself. -/
theorem gives_changePackages {options : Options} {settings : Settings} {set : FileSet}
    {result : List LoadedFile} {log after : Log}
    (gives : Gives (changePackages options settings set items) log result after) :
    result.map LoadedFile.head = items.map LoadedFile.head ∧
      ∀ package ∈ packages items, Changes options settings set (packageFiles package items)
        (packageFiles package result) := by
  have nodup : (packages items).Nodup := nodup_eraseDups _
  unfold changePackages at gives
  split at gives
  · next reverts =>
      obtain ⟨-, headsEq, changed, -⟩ := (revertPackage_changesPackage reverts settings set).foldlM
        Changes.keepPackages nodup gives trivial
      exact ⟨headsEq, changed⟩
  · next mends =>
      obtain ⟨mended, middle, folded, gives⟩ := gives_bind.mp gives
      split at gives
      · next noFailures =>
          obtain ⟨rfl, -⟩ := gives_pure.mp gives
          obtain ⟨-, headsEq, changed, -⟩ :=
            (mendPackage_changesPackage (Bool.not_eq_true _ ▸ mends) settings set).foldlM
              Changes.keepPackages nodup folded (List.isEmpty_iff.mp noFailures)
          exact ⟨headsEq, changed⟩
      · exact absurd gives not_gives_fail

end

/-! ### Prepared runs -/

/-- What a run has done before it writes anything. -/
structure Prepared (decode : Settings.Decoder) (disk : Disk) (environment : Environment)
    (options : Options) (settings : Settings) (set : FileSet) (loaded items : List LoadedFile) :
    Prop where
  /-- The files are those that were asked for. -/
  paths : ∃ log, Gives (sourceFiles disk (options.paths.map .ofText)) [] (loaded.map (·.path)) log
  /-- The settings are those of the directory of the first file. -/
  configured : ∃ log log', Gives (loadSettings decode disk environment options
    ((loaded.head?.map fun item => disk.resolve item.path.parent).getD disk.workingDirectory)) log
    settings log'
  read : ∀ item ∈ loaded, item.IsRead disk
  parsed : readSources .empty (loaded.map LoadedFile.origin) =
    .ok (set, loaded.map fun item => some item.file)
  /-- The files stay in their order, with their paths, sources and packages. -/
  heads : items.map LoadedFile.head = loaded.map LoadedFile.head
  /-- Every package was reverted, or mended without a failure, by itself. -/
  changed : ∀ package ∈ packages loaded, Changes options settings set (packageFiles package loaded)
    (packageFiles package items)

section

variable {decode : Settings.Decoder} {disk : Disk} {environment : Environment} {options : Options}

/-- A run that gets through its preparation has done all of this. -/
theorem exists_prepared {set : FileSet} {items : List LoadedFile} {log : Log}
    (gives : Gives (prepare decode disk environment options) [] (set, items) log) :
    ∃ settings loaded, Prepared decode disk environment options settings set loaded items := by
  obtain ⟨paths, _, isPaths, gives⟩ := gives_bind.mp gives
  obtain ⟨settings, _, isSettings, gives⟩ := gives_bind.mp gives
  obtain ⟨⟨last, loaded⟩, _, isLoaded, gives⟩ := gives_bind.mp gives
  obtain ⟨changed, _, isChanged, gives⟩ := gives_bind.mp gives
  obtain ⟨same, -⟩ := gives_pure.mp gives
  obtain ⟨rfl, rfl⟩ := Prod.mk.inj same
  obtain ⟨rfl, parsed, texts⟩ := loadFiles_eq_pure (gives_loadFiles isLoaded)
  have leads := gives_sourceFiles isPaths
  obtain ⟨heads, changed⟩ := gives_changePackages isChanged
  rw [List.head?_map, Option.map_map] at isSettings
  refine ⟨settings, loaded, ⟨_, isPaths⟩, ⟨_, _, isSettings⟩, fun item isItem => ?_, parsed, heads,
    changed⟩
  exact LoadedFile.isRead_of_readText (leads _ (List.mem_map_of_mem isItem)) (texts item isItem)

/-- A preparation that fails says so. -/
theorem prepare_failsLoudly : FailsLoudly (prepare decode disk environment options) := by
  have locates (paths : List Path) : FailsLoudly (locate disk paths) := by
    refine .mapM (fun path => ?_) _
    split
    · exact .fail _
    · exact .pure _
  have finds (paths : List Path) : FailsLoudly (sourceFiles disk paths) := by
    refine (locates paths).bind fun located => ?_
    split
    · exact .pure _
    · split
      · exact .fail _
      · split
        · exact .fail _
        · exact .pure _
  have configures (start : Place) : FailsLoudly (loadSettings decode disk environment options start) := by
    unfold loadSettings
    dsimp only
    split
    · exact (FailsLoudly.say _).bind fun _ => .pure _
    · exact (FailsLoudly.say _).bind fun _ => .fail _
    · exact (FailsLoudly.say _).bind fun _ => .throw Nat.one_ne_zero
  have loads (paths : List Path) : FailsLoudly (loadFiles disk {} paths) := by
    rcases loadFiles_cases disk {} paths with ⟨result, loaded⟩ | ⟨message, failed⟩
    · rw [loaded]
      exact .pure _
    · rw [failed]
      exact .fail _
  have mends (settings : Settings) (set : FileSet) (mended : Mended) (package : String) :
      FailsLoudly (mendPackage settings set mended package) := by
    refine (FailsLoudly.say _).bind fun _ => ?_
    split
    · exact .pure _
    · exact .pure _
    · exact (FailsLoudly.say _).bind fun _ => .pure _
    · exact .throw Nat.one_ne_zero
  have changes (settings : Settings) (set : FileSet) (items : List LoadedFile) :
      FailsLoudly (changePackages options settings set items) := by
    unfold changePackages
    split
    · exact .foldlM (fun _ _ => (FailsLoudly.say _).bind fun _ => .pure _) _ _
    · refine (FailsLoudly.foldlM (mends settings set) _ _).bind fun mended => ?_
      split
      · exact .pure _
      · exact .fail _
  exact (finds _).bind fun paths => (configures _).bind fun settings => (loads _).bind fun loaded =>
    (changes _ _ _).bind fun items => .pure _

namespace Prepared

variable {settings : Settings} {set : FileSet} {loaded items : List LoadedFile}
  (prepared : Prepared decode disk environment options settings set loaded items)

include prepared

theorem exists_loaded {item : LoadedFile} (isItem : item ∈ items) :
    ∃ other ∈ loaded, other.head = item.head := by
  have isHead : item.head ∈ loaded.map LoadedFile.head := by
    rw [← prepared.heads]
    exact List.mem_map_of_mem isItem
  exact List.mem_map.mp isHead

/-- Every file can be printed. -/
theorem exists_text {item : LoadedFile} (isItem : item ∈ items) :
    ∃ text, item.file.print (some set) = .ok text := by
  have isRead : ReadInto set (loaded.map (·.file)) := by
    have read := ReadInto.nothing.of_readSources prepared.parsed
    simpa [List.reduceOption, List.filterMap_map] using read
  have isRead : ReadInto set (packageFiles item.package loaded) := by
    have filterEq : packageFiles item.package loaded =
        (loaded.map (·.file)).filter fun file => file.package.name = item.package := by
      rw [packageFiles, List.filter_map]
      rfl
    exact filterEq ▸ isRead.filter _
  have isPackage : item.package ∈ packages loaded := by
    obtain ⟨other, isLoaded, same⟩ := prepared.exists_loaded isItem
    have packageEq : other.package = item.package := congrArg (·.2.2) same
    exact List.mem_eraseDups.mpr (List.mem_map.mpr ⟨other, isLoaded, packageEq⟩)
  have reachable : Reachable set (packageFiles item.package items) := by
    cases prepared.changed _ isPackage with
    | reverted asked filesEq =>
        rw [filesEq]
        exact .reverted _ (.read isRead)
    | mended run asked isRun isFinished filesEq =>
        rw [filesEq]
        exact (Reachable.read isRead).of_quickFix isRun
  have isOwn : item.file ∈ packageFiles item.package items :=
    List.mem_map_of_mem (List.mem_filter.mpr ⟨isItem, by simp⟩)
  exact File.print_of_sound (reachable.soundPackage.sound _ isOwn) _

end Prepared

end

end CommandLine

end GoMend
