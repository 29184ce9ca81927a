import GoMend.Fix.Run
import GoMend.Grammar.SourceFile
import GoMend.Proofs.Fix.Mending
import GoMend.Proofs.Fix.Revert
import GoMend.Proofs.Grammar.SourceFile
import GoMend.Proofs.Lexeme.Evaluation
import Mathlib

/-!
# Sessions

A session reads the files of a package and then mends them and takes fixes back as often as it
likes.  All files that it comes to are sound.  So every check of a session is finished, every
problem that a run leaves is a diagnostic, and the files can always be printed.
-/

namespace GoMend

/-! ### Reachable files -/

/-- Files that were read one after the other into a set, which may get other files too. -/
inductive ReadInto : FileSet → List File → Prop
  | nothing : ReadInto .empty []
  | file {set : FileSet} {files : List File} {name text : String} {file : File}
      (before : ReadInto set files) (outcome : (File.parse set name text).2 = .ok file) :
      ReadInto (File.parse set name text).1 (files ++ [file])
  | other {set : FileSet} {files : List File} (name text : String) (before : ReadInto set files) :
      ReadInto (set.add name text).1 files

/-- A function that defines a variable twice and never reads it. -/
def sampleText : String :=
  "package p\nfunc f() \x7b\n\tx := 1\n\tx := 2\n\x7d\n"

/-- What is read from the sample. -/
def sampleFile : File where
  span := ⟨1, 41⟩
  name := "a.go"
  package := ⟨⟨9, 10⟩, "p"⟩
  decls := [.func {
    span := ⟨11, 39⟩
    recv := none
    name := ⟨⟨16, 17⟩, "f"⟩
    type := ⟨⟨11, 19⟩, ⟨⟨17, 19⟩, []⟩, none⟩
    body := some ⟨⟨20, 39⟩, [
      .assign ⟨23, 29⟩ [.ident ⟨⟨23, 24⟩, "x"⟩] .define [.lit ⟨⟨28, 29⟩, .int, "1"⟩] 25,
      .assign ⟨31, 37⟩ [.ident ⟨⟨31, 32⟩, "x"⟩] .define [.lit ⟨⟨36, 37⟩, .int, "2"⟩] 33]⟩ }]
  comments := []

/-- The lexemes of the sample. -/
def sampleLexemes : List Lexeme := [
  ⟨.kwPackage, "package", 1⟩, ⟨.ident, "p", 9⟩, ⟨.semicolon, "\n", 10⟩, ⟨.kwFunc, "func", 11⟩,
  ⟨.ident, "f", 16⟩, ⟨.leftParen, "(", 17⟩, ⟨.rightParen, ")", 18⟩, ⟨.leftBrace, "\x7b", 20⟩,
  ⟨.ident, "x", 23⟩, ⟨.define, ":=", 25⟩, ⟨.int, "1", 28⟩, ⟨.semicolon, "\n", 29⟩,
  ⟨.ident, "x", 31⟩, ⟨.define, ":=", 33⟩, ⟨.int, "2", 36⟩, ⟨.semicolon, "\n", 37⟩,
  ⟨.rightBrace, "\x7d", 38⟩, ⟨.semicolon, "\n", 39⟩, ⟨.endOfFile, "", 40⟩]

theorem scan_sampleText : Scan.ofTextIn 1 sampleText = .ok ⟨sampleLexemes, []⟩ := by
  decide +kernel

theorem parse_sampleText : (File.parse .empty "a.go" sampleText).2 = .ok sampleFile :=
  File.parse_of_scan scan_sampleText rfl

theorem readInto_sampleFile :
    ReadInto (File.parse .empty "a.go" sampleText).1 [sampleFile] :=
  .file .nothing parse_sampleText

/-- Files that can be come to from files that were read.  Fixes that were found for the diagnostics
of one check may be applied in any order, and all fixes can be taken back. -/
inductive Reachable (set : FileSet) : List File → Prop
  | read {files : List File} (isRead : ReadInto set files) : Reachable set files
  | fixed {packageName : String → String} {diagnostics : List Diagnostic} {fixes : List PendingFix}
      (progress : Progress) (before : Reachable set progress.files)
      (checked : checkPackage packageName progress.files = .ok diagnostics)
      (pending : ∀ fix ∈ fixes, ∃ diagnostic ∈ diagnostics,
        Triage.of .standard set progress.files diagnostic = .pending fix) :
      Reachable set (fixes.foldl PendingFix.apply progress).files
  | reverted {files : List File} (keep : List String) (before : Reachable set files) :
      Reachable set (revertFixes keep files).files

theorem FileSet.nextBase_add (set : FileSet) (name text : String) :
    (set.add name text).1.nextBase = set.nextBase + text.length + 1 := by
  simp [add, nextBase, SourceFile.ofText, SourceFile.stop]

/-- Files that were read are sound, and stand before the next file of their set. -/
theorem ReadInto.soundPackage {set : FileSet} {files : List File} (isRead : ReadInto set files) :
    SoundPackage files ∧ 0 < set.nextBase ∧ ∀ file ∈ files, file.span.stop ≤ set.nextBase := by
  induction isRead with
  | nothing => exact ⟨⟨by simp, .nil⟩, Nat.one_pos, by simp⟩
  | @file set files name text file before outcome ih =>
      obtain ⟨package, positive, bounds⟩ := ih
      obtain ⟨sound, spanEq, -⟩ := @File.ofText_sound (.ofText name set.nextBase text) text file
        positive rfl outcome
      have nextEq : (File.parse set name text).1.nextBase = set.nextBase + text.length + 1 :=
        set.nextBase_add name text
      refine ⟨⟨?_, ?_⟩, by omega, ?_⟩
      · exact List.forall_mem_append.mpr ⟨package.sound, by simpa using sound⟩
      · refine List.pairwise_append.mpr ⟨package.apart, List.pairwise_singleton .., ?_⟩
        intro first isFirst second isSecond
        obtain rfl := List.mem_singleton.mp isSecond
        rw [spanEq]
        exact bounds first isFirst
      · rw [nextEq]
        refine List.forall_mem_append.mpr ⟨fun other isOther => ?_, ?_⟩
        · have bound := bounds other isOther
          push_cast
          lia
        · simp [spanEq, SourceFile.stop, SourceFile.ofText]
  | @other set files name text before ih =>
      obtain ⟨package, positive, bounds⟩ := ih
      rw [FileSet.nextBase_add]
      refine ⟨package, by omega, fun file isFile => ?_⟩
      have bound := bounds file isFile
      push_cast
      lia

namespace Reachable

variable {set : FileSet} {files : List File}

theorem soundPackage (reachable : Reachable set files) : SoundPackage files := by
  induction reachable with
  | read isRead => exact isRead.soundPackage.1
  | fixed progress before checked pending package =>
      refine (PendingFix.foldl_replaces package (fun fix isFix => ?_) (.refl package)).soundPackage
        package
      obtain ⟨diagnostic, isDiagnostic, isPending⟩ := pending fix isFix
      obtain unhandled | ⟨other, isOther, fits⟩ := package.triage set checked isDiagnostic
      · rw [unhandled] at isPending
        cases isPending
      · rw [isOther] at isPending
        exact Triage.pending.inj isPending ▸ fits
  | reverted keep before package =>
      refine package.of_shrinks ?_
      rw [revertFixes, List.forall₂_map_left_iff]
      exact List.forall₂_same.mpr fun file isFile =>
        File.reverted_sound keep (package.sound file isFile)

/-- The scope check of reachable files is finished. -/
theorem exists_diagnostics (reachable : Reachable set files) (packageName : String → String) :
    ∃ diagnostics, checkPackage packageName files = .ok diagnostics := by
  obtain ⟨after, outcome⟩ := reachable.soundPackage.exists_run packageName {}
  exact ⟨_, by rw [checkPackage, packageFindings_eq, outcome]; rfl⟩

/-- The files after a pass are reachable. -/
theorem mendAll (reachable : Reachable set files) {packageName : String → String}
    {diagnostics : List Diagnostic} (checked : checkPackage packageName files = .ok diagnostics) :
    Reachable set (mendAll .standard set files diagnostics).files := by
  refine .fixed { files, unhandled := _ } reachable checked fun fix isFix => ?_
  obtain ⟨triaged, isTriaged, isPending⟩ := List.mem_filterMap.mp isFix
  obtain ⟨diagnostic, isDiagnostic, rfl⟩ := List.mem_map.mp isTriaged
  refine ⟨diagnostic, isDiagnostic, ?_⟩
  cases triaged : Triage.of .standard set files diagnostic with
  | unhandled problem => simp [triaged, Triage.fix?] at isPending
  | pending other =>
      rw [triaged] at isPending
      rw [Option.some.inj isPending]

end Reachable

/-! ### Runs -/

/-- Whether a run ended because nothing was left or because its passes were used up, and left only
diagnostics. -/
def RunEnd.isOrderly : RunEnd → Bool
  | .clean | .exhausted => true
  | .gaveUp problems => problems.all fun
      | .unmended _ => true
      | .unlocated .. => false
  | .failed _ => false

theorem Run.isOrderly_outOfTries (tries : Nat) (files : List File) {unhandled : List Problem}
    (allUnmended : ∀ problem ∈ unhandled, ∃ diagnostic, problem = .unmended diagnostic) :
    (outOfTries tries files unhandled).files = files ∧
      (outOfTries tries files unhandled).ending.isOrderly := by
  unfold outOfTries
  split
  · exact ⟨rfl, rfl⟩
  · refine ⟨rfl, List.all_eq_true.mpr fun problem isProblem => ?_⟩
    obtain ⟨diagnostic, rfl⟩ := allUnmended problem isProblem
    rfl

/-- The passes of a run over reachable files end orderly, at as many reachable files. -/
theorem Reachable.passes {set : FileSet} (importNames : List (String × String))
    (tries remaining made : Nat) {files : List File} {unhandled : List Problem}
    (reachable : Reachable set files)
    (allUnmended : ∀ problem ∈ unhandled, ∃ diagnostic, problem = .unmended diagnostic) :
    let run :=
      Run.passes (.scopeCheck importNames) .standard set tries remaining made files unhandled
    run.ending.isOrderly ∧ Reachable set run.files ∧ run.files.length = files.length := by
  induction remaining generalizing made files unhandled with
  | zero =>
      obtain ⟨filesEq, orderly⟩ := Run.isOrderly_outOfTries tries files allUnmended
      refine ⟨orderly, ?_, congrArg List.length filesEq⟩
      show Reachable set (Run.outOfTries tries files unhandled).files
      rwa [filesEq]
  | succ remaining ih =>
      obtain ⟨diagnostics, checked⟩ :=
        reachable.exists_diagnostics (ImportPath.packageName importNames)
      have answered : (Checker.scopeCheck importNames).check made files = .ok diagnostics := checked
      have mended := reachable.mendAll checked
      obtain ⟨replaced, leftUnmended⟩ := reachable.soundPackage.mendAll set checked
      rw [Run.passes, runPass, answered]
      -- A pass that finds nothing is the last one; the others leave reachable files to the rest.
      cases diagnostics with
      | nil => exact ⟨rfl, mended, replaced.length_eq⟩
      | cons first others =>
          obtain ⟨orderly, isReachable, lengthEq⟩ := ih (made + 1) mended leftUnmended
          exact ⟨orderly, isReachable, lengthEq.trans replaced.length_eq⟩

/-- A run over reachable files leaves reachable files. -/
theorem Reachable.of_quickFix {set : FileSet} {files : List File}
    {importNames : List (String × String)} {tries : Int} {run : Run} (reachable : Reachable set files)
    (outcome : quickFix (.scopeCheck importNames) .standard set tries files = .ok run) :
    Reachable set run.files := by
  unfold quickFix at outcome
  split at outcome
  · cases outcome
  · obtain rfl := Except.ok.inj outcome
    exact (reachable.passes _ _ _ _ (by simp)).2.1

/-! ### Sessions -/

/-- A step of a session. -/
inductive SessionStep where
  /-- Mend the files in so many passes, given the package names of import paths. -/
  | mend (importNames : List (String × String)) (tries : Int)
  /-- Take fixes back, but keep some blank imports. -/
  | revert (keep : List String)

/-- What a step leaves. -/
structure SessionResult where
  files : List File
  /-- The run, where the step was one. -/
  run? : Option Run

namespace SessionStep

/-- Whether a step asks for a run of at least one pass, or for none. -/
def isAllowed : SessionStep → Bool
  | .mend _ tries => 1 ≤ tries
  | .revert _ => true

/-- Take a step. -/
def take (set : FileSet) (files : List File) : SessionStep → Except SettingsError SessionResult
  | .mend importNames tries => do
      let run ← quickFix (.scopeCheck importNames) .standard set tries files
      return { files := run.files, run? := some run }
  | .revert keep => .ok { files := (revertFixes keep files).files, run? := none }

/-- Take steps one after the other, each with the files that the one before it left. -/
def takeAll (set : FileSet) (files : List File) :
    List SessionStep → Except SettingsError (List SessionResult)
  | [] => .ok []
  | step :: steps => do
      let result ← step.take set files
      let results ← takeAll set result.files steps
      return result :: results

/-- One step leads to as many reachable files, and its run ends orderly. -/
theorem exists_take {set : FileSet} {files : List File} {step : SessionStep}
    (reachable : Reachable set files) (isAllowed : step.isAllowed) :
    ∃ result, step.take set files = .ok result ∧ (∀ run ∈ result.run?, run.ending.isOrderly) ∧
      Reachable set result.files ∧ result.files.length = files.length := by
  cases step with
  | mend importNames tries =>
      have atLeastOne : ¬tries < 1 := by simpa [SessionStep.isAllowed] using isAllowed
      have nothing : ∀ problem ∈ ([] : List Problem),
          ∃ diagnostic, problem = .unmended diagnostic := by
        simp
      obtain ⟨orderly, isReachable, lengthEq⟩ :=
        reachable.passes importNames tries.toNat tries.toNat 0 nothing
      refine ⟨_, by rw [take, quickFix, if_neg atLeastOne]; rfl, ?_, isReachable, lengthEq⟩
      rintro run ⟨⟩
      exact orderly
  | revert keep =>
      exact ⟨_, rfl, by simp, .reverted keep reachable, by simp [revertFixes]⟩

/-- All steps lead to reachable files. -/
theorem exists_takeAll {set : FileSet} {files : List File} {steps : List SessionStep}
    (reachable : Reachable set files) (areAllowed : ∀ step ∈ steps, step.isAllowed) :
    ∃ results, takeAll set files steps = .ok results ∧ results.length = steps.length ∧
      ∀ result ∈ results, (∀ run ∈ result.run?, run.ending.isOrderly) ∧
        Reachable set result.files ∧ result.files.length = files.length := by
  induction steps generalizing files with
  | nil => exact ⟨[], rfl, rfl, by simp⟩
  | cons step steps ih =>
      obtain ⟨firstAllowed, othersAllowed⟩ := List.forall_mem_cons.mp areAllowed
      obtain ⟨result, taken, orderly, isReachable, lengthEq⟩ := exists_take reachable firstAllowed
      obtain ⟨results, allTaken, countEq, others⟩ := ih isReachable othersAllowed
      refine ⟨result :: results, ?_, congrArg (· + 1) countEq, ?_⟩
      · simp only [takeAll, taken, bind, Except.bind, allTaken, pure, Except.pure]
      · refine List.forall_mem_cons.mpr ⟨⟨orderly, isReachable, lengthEq⟩, fun other isOther => ?_⟩
        obtain ⟨otherOrderly, otherReachable, otherLength⟩ := others other isOther
        exact ⟨otherOrderly, otherReachable, otherLength.trans lengthEq⟩

/-- Every step of a session over files that were read is taken: its run is clean, or uses up its
passes, or gives up with diagnostics alone, and then every file can be printed. -/
theorem takeAll_orderly {set : FileSet} {files : List File} {steps : List SessionStep}
    (isRead : ReadInto set files) (areAllowed : ∀ step ∈ steps, step.isAllowed) :
    ∃ results, takeAll set files steps = .ok results ∧ results.length = steps.length ∧
      ∀ result ∈ results, (∀ run ∈ result.run?, run.ending.isOrderly) ∧
        result.files.length = files.length ∧
        ∀ file ∈ result.files, ∀ shown, ∃ text, file.print shown = .ok text := by
  obtain ⟨results, taken, countEq, each⟩ := exists_takeAll (.read isRead) areAllowed
  refine ⟨results, taken, countEq, fun result isResult => ?_⟩
  obtain ⟨orderly, reachable, lengthEq⟩ := each result isResult
  exact ⟨orderly, lengthEq, fun file isFile shown =>
    File.print_of_sound (reachable.soundPackage.sound file isFile) shown⟩

theorem takeAll_orderly_sample :
    let set := (File.parse .empty "a.go" sampleText).1
    ReadInto set [sampleFile] ∧
      ∃ results,
        takeAll set [sampleFile] [.mend [] 1, .revert ["embed"], .mend [] 3] = .ok results ∧
        results.length = 3 ∧
        ∀ result ∈ results, (∀ run ∈ result.run?, run.ending.isOrderly) ∧
          result.files.length = 1 ∧
          ∀ file ∈ result.files, ∀ shown, ∃ text, file.print shown = .ok text :=
  ⟨readInto_sampleFile, takeAll_orderly readInto_sampleFile (by decide)⟩

end SessionStep

end GoMend
