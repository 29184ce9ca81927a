import GoMend.Proofs.Fix.Account
import GoMend.Proofs.Fix.Moved
import GoMend.Proofs.Fix.Sources
import GoMend.Proofs.Position

/-!
# Runs in larger sets of files

A set of files can hold files of other packages too.  Then the files of a package stand at other
positions, but nothing that is seen of a run over them changes: not the printed files, not how the
run ends, not what is reported.
-/

namespace GoMend

/-! ### Files of a set -/

/-- A file that is settled in the range of one of the files of a set. -/
structure File.IsPlaced (set : FileSet) (file : File) : Prop where
  settled : file.IsSettled
  inSet : ∃ source ∈ set.files, file.span = ⟨source.base, source.stop + 1⟩

theorem File.IsPlaced.add {set : FileSet} {file : File} (placed : file.IsPlaced set)
    (name text : String) : file.IsPlaced (set.add name text).1 := by
  obtain ⟨source, isSource, spanEq⟩ := placed.inSet
  exact ⟨placed.settled, source, List.mem_append_left _ isSource, spanEq⟩

/-- A file that is read is placed in its set. -/
theorem File.isPlaced_of_parse {set : FileSet} {name text : String} {file : File}
    (parsed : (File.parse set name text).2 = .ok file) : file.IsPlaced (set.add name text).1 := by
  refine ⟨File.isSettled_of_parse parsed, _, List.mem_append_right _ List.mem_cons_self, ?_⟩
  rw [File.span_of_parse parsed]
  simp only [SourceFile.stop, SourceFile.ofText]
  push_cast
  rfl

/-- Files that were read into a set are placed in it. -/
theorem ReadInto.isPlaced {set : FileSet} {files : List File} (isRead : ReadInto set files) :
    ∀ file ∈ files, file.IsPlaced set := by
  induction isRead with
  | nothing => exact List.forall_mem_nil _
  | @file set files name text file before outcome ih =>
      exact List.forall_mem_append.mpr ⟨fun other isOther => (ih other isOther).add name text,
        List.forall_mem_singleton.mpr (File.isPlaced_of_parse outcome)⟩
  | other name text before ih => exact fun file isFile => (ih file isFile).add name text

/-- Fixes leave a file where it is. -/
theorem Mended.isPlaced {set : FileSet} {file edited : File} (mended : Mended file edited)
    (placed : file.IsPlaced set) : edited.IsPlaced set := by
  induction mended with
  | nothing => exact placed
  | mend before isShape outcome ih =>
      have spanEq := congrArg File.span (File.withTree_of_mend outcome)
      exact ⟨ih.settled.of_mend outcome, spanEq ▸ ih.inSet⟩

theorem File.IsPlaced.reverted {set : FileSet} {file : File} (placed : file.IsPlaced set)
    (keep : List String) : (file.reverted keep).IsPlaced set := by
  refine ⟨placed.settled.reverted keep, ?_⟩
  rw [File.reverted_eq]
  exact placed.inSet

theorem isPlaced_of_forall₂ {set : FileSet} {files new : List File}
    (mended : List.Forall₂ Mended files new) (placed : ∀ file ∈ files, file.IsPlaced set) :
    ∀ file ∈ new, file.IsPlaced set := by
  induction mended with
  | nil => exact List.forall_mem_nil _
  | cons first others ih =>
      obtain ⟨firstPlaced, othersPlaced⟩ := List.forall_mem_cons.mp placed
      exact List.forall_mem_cons.mpr ⟨first.isPlaced firstPlaced, ih othersPlaced⟩

/-! ### Where diagnostics stand -/

theorem comp_clamp {place : Pos → Pos} {low high low' high' : Pos} (absent : place noPos = noPos)
    (fixed : ∀ pos, low ≤ pos → pos ≤ high → place pos = pos) (hasRoom : low' ≤ high')
    (lowLe : low ≤ low') (leHigh : high' ≤ high) :
    place ∘ clamp low' high' = clamp low' high' := by
  funext pos
  rw [Function.comp_apply, clamp]
  split
  · exact absent
  · exact fixed _ (by lia) (by lia)

/-- A settled file stays where it is, if the positions of its range do. -/
theorem File.IsSettled.relocated_of_fixed {file : File} (settled : file.IsSettled)
    {place : Pos → Pos} (absent : place noPos = noPos)
    (fixed : ∀ pos, file.span.start ≤ pos → pos ≤ file.span.stop - 1 → place pos = pos) :
    file.relocated place = file := by
  have hasRoom := settled.hasRoom
  have ofNode := @comp_clamp place _ _ (file.span.start + 1) (file.span.stop - 1) absent fixed hasRoom
    (by lia) (Int.le_refl _)
  have ofFile := @comp_clamp place _ _ file.span.start (file.span.stop - 1) absent fixed (by lia)
    (Int.le_refl _) (Int.le_refl _)
  have startEq := fixed file.span.start (Int.le_refl _) (by lia)
  have stopEq := fixed (file.span.stop - 1) (by lia) (Int.le_refl _)
  have packageEq : file.package.relocated place = file.package := by
    rw [← settled.package, Ident.relocated_relocated, ofNode]
  have declsEq : file.decls.map (Decl.relocated place) = file.decls := by
    conv_lhs => rw [← settled.decls, List.map_map]
    conv_rhs => rw [← settled.decls]
    refine List.map_congr_left fun item _ => ?_
    rw [Function.comp_apply, Decl.relocated_relocated, ofNode]
  have commentsEq : file.comments.map (Comment.relocated place) = file.comments := by
    conv_lhs => rw [← settled.comments, List.map_map]
    conv_rhs => rw [← settled.comments]
    exact List.map_congr_left fun comment _ => congrArg (Comment.relocated · comment) ofFile
  rw [File.relocated, startEq, stopEq, packageEq, declsEq, commentsEq, Int.sub_add_cancel]

/-- The diagnostics of files that stay where they are stay there too. -/
theorem pos_fixed_of_checked {place : Pos → Pos} (absent : place noPos = noPos)
    {packageName : String → String} {files : List File} {diagnostics : List Diagnostic}
    (fixed : ∀ file ∈ files, file.relocated place = file)
    (checked : checkPackage packageName files = .ok diagnostics) :
    ∀ diagnostic ∈ diagnostics, place diagnostic.pos = diagnostic.pos := by
  have filesEq : files.map (File.relocated place) = files :=
    (List.map_congr_left fixed).trans (List.map_id _)
  have found := packageFindings_relocated absent packageName files
  rw [filesEq] at found
  rw [checkPackage] at checked
  cases outcome : packageFindings packageName files with
  | error error =>
      rw [outcome] at checked
      cases checked
  | ok findings =>
      rw [outcome] at checked found
      obtain rfl := Except.ok.inj checked
      have same : findings = relocatedFindings place findings := Except.ok.inj found
      intro diagnostic isDiagnostic
      obtain ⟨finding, isFinding, rfl⟩ := List.mem_map.mp (Diagnostic.mem_sorted.mp isDiagnostic)
      have findingEq := List.map_inj_left.mp ((List.map_id _).trans same).symm finding isFinding
      exact congrArg Prod.snd findingEq

/-- The diagnostics of files of a set stand before the next file of the set. -/
theorem pos_lt_of_checked {set : FileSet} (tidy : set.IsTidy) {packageName : String → String}
    {files : List File} {diagnostics : List Diagnostic}
    (placed : ∀ file ∈ files, file.IsPlaced set)
    (checked : checkPackage packageName files = .ok diagnostics) :
    ∀ diagnostic ∈ diagnostics, diagnostic.pos < set.nextBase := by
  have positive := set.nextBase_pos
  let place := fun pos : Pos => min pos (set.nextBase - 1)
  have absent : place noPos = noPos := by
    simp only [place, noPos]
    lia
  have fixed : ∀ file ∈ files, file.relocated place = file := by
    intro file isFile
    obtain ⟨source, isSource, spanEq⟩ := (placed file isFile).inSet
    have before := tidy source isSource
    refine (placed file isFile).settled.relocated_of_fixed absent fun pos _ stops => ?_
    rw [spanEq] at stops
    simp only [place] at stops ⊢
    lia
  intro diagnostic isDiagnostic
  have posEq := pos_fixed_of_checked absent fixed checked diagnostic isDiagnostic
  simp only [place] at posEq
  lia

/-- What a pass leaves are diagnostics that it was given. -/
theorem diagnostic_of_mem_unhandled (registry : FixerRegistry) (set : FileSet) (files : List File)
    (diagnostics : List Diagnostic) :
    ∀ problem ∈ (mendAll registry set files diagnostics).unhandled,
      problem.diagnostic ∈ diagnostics := by
  have parted := parted_triage registry set files diagnostics
  obtain ⟨turns, areFixes, -, left⟩ := @foldl_apply_turns _ { files, unhandled :=
    (diagnostics.map (Triage.of registry set files)).filterMap Triage.problem? } parted.unit_lt
  intro problem isProblem
  rw [mendAll, left] at isProblem
  refine parted.perm.subset ?_
  rcases List.mem_append.mp isProblem with isUntried | isFailed
  · exact List.mem_append_left _ (List.mem_map_of_mem isUntried)
  · obtain ⟨diagnostic, isDiagnostic, rfl⟩ := List.mem_map.mp isFailed
    obtain ⟨turn, isTurn, rfl⟩ := List.mem_map.mp isDiagnostic
    refine List.mem_append_right _ (List.mem_map_of_mem ?_)
    rw [← areFixes]
    exact List.mem_map_of_mem (List.mem_filter.mp isTurn).1

/-! ### What is seen of a run -/

/-- What is seen of the end of a run: the problems are shown with their places. -/
inductive ShownEnd where
  | clean
  | exhausted
  | gaveUp (report : String)
  | failed (error : CheckError)
  deriving DecidableEq, Repr

/-- What is seen of a run: how it ends, what it says, and the texts of its files. -/
structure ShownRun where
  tries : Nat
  ending : ShownEnd
  log : Log
  texts : List (Except PrintError String)

/-- What is seen of fixes that were taken back. -/
structure ShownReverted where
  count : Nat
  log : Log
  texts : List (Except PrintError String)

/-- The texts of files, as a set of files prints them. -/
def printAll (set : FileSet) (files : List File) : List (Except PrintError String) :=
  files.map fun file => file.print (some set)

def RunEnd.shown (set : FileSet) : RunEnd → ShownEnd
  | .clean => .clean
  | .exhausted => .exhausted
  | .gaveUp problems => .gaveUp (Problem.listReport set problems)
  | .failed error => .failed error

def Run.shown (set : FileSet) (run : Run) : ShownRun where
  tries := run.tries
  ending := run.ending.shown set
  log := run.log
  texts := printAll set run.files

def Reverted.shown (set : FileSet) (reverted : Reverted) : ShownReverted where
  count := reverted.count
  log := reverted.log
  texts := printAll set reverted.files

/-- A diagnostic that is left of files of a set. -/
def Problem.IsPlaced (set : FileSet) (problem : Problem) : Prop :=
  ∃ diagnostic, problem = .unmended diagnostic ∧ diagnostic.pos < set.nextBase

/-- The problems that a run leaves. -/
def RunEnd.problems : RunEnd → List Problem
  | .gaveUp problems => problems
  | .clean | .exhausted | .failed _ => []

/-- The passes of a run over files of a set leave diagnostics of these files, and the files where
they are. -/
theorem Reachable.passes_isPlaced {set : FileSet} (tidy : set.IsTidy)
    (importNames : List (String × String)) (tries remaining made : Nat) {files : List File}
    {unhandled : List Problem} (reachable : Reachable set files)
    (placed : ∀ file ∈ files, file.IsPlaced set)
    (unhandledPlaced : ∀ problem ∈ unhandled, problem.IsPlaced set) :
    ∀ problem ∈ (Run.passes (.scopeCheck importNames) .standard set tries remaining made files
      unhandled).ending.problems, problem.IsPlaced set := by
  induction remaining generalizing made files unhandled with
  | zero =>
      unfold Run.passes Run.outOfTries
      split
      · exact List.forall_mem_nil _
      · exact unhandledPlaced
  | succ remaining ih =>
      obtain ⟨diagnostics, checked⟩ :=
        reachable.exists_diagnostics (ImportPath.packageName importNames)
      have answered : (Checker.scopeCheck importNames).check made files = .ok diagnostics := checked
      have mended : List.Forall₂ Mended files (GoMend.mendAll .standard set files diagnostics).files :=
        mendAll_mended set diagnostics (List.forall₂_same.mpr fun _ _ => .nothing)
      have leftPlaced : ∀ problem ∈ (GoMend.mendAll .standard set files diagnostics).unhandled,
          problem.IsPlaced set := by
        intro problem isProblem
        obtain ⟨diagnostic, rfl⟩ := (reachable.soundPackage.mendAll set checked).2 problem isProblem
        exact ⟨diagnostic, rfl, pos_lt_of_checked tidy placed checked diagnostic
          (diagnostic_of_mem_unhandled .standard set files diagnostics _ isProblem)⟩
      rw [Run.passes, runPass, answered]
      simp only [bind, Except.bind, pure, Except.pure, Run.after]
      split
      · exact ih (made + 1) (reachable.mendAll checked) (isPlaced_of_forall₂ mended placed) leftPlaced
      · exact List.forall_mem_nil _

namespace FileSet.Embeds

variable {place : Pos → Pos} {small large : FileSet} (embeds : Embeds place small large)

include embeds

/-- A file of the small set is printed by the large one as it is by the small one. -/
theorem print_relocated {file : File} (placed : file.IsPlaced small) :
    (file.relocated place).print (some large) = file.print (some small) := by
  obtain ⟨source, isSource, spanEq⟩ := placed.inSet
  obtain ⟨distance, shifts⟩ := embeds.shifts source isSource
  have begins := placed.settled.begins
  have before := embeds.smallTidy source isSource
  have stopEq : file.span.stop - 1 = source.stop := by
    rw [spanEq]
    lia
  have startEq : file.span.start = source.base := by rw [spanEq]
  rw [← startEq, ← stopEq] at shifts
  have hasRoom := placed.settled.hasRoom
  have startPlace := shifts file.span.start (Int.le_refl _) (by lia)
  refine File.print_moved placed.settled embeds.order.absent shifts ⟨begins, ?_, fun pos starts stops => ?_⟩
  · have positive := embeds.order.strict begins
    rw [startPlace, show place 0 = 0 from embeds.order.absent] at positive
    exact positive
  · rw [← shifts pos starts stops, embeds.places pos (by lia)]

theorem printAll_relocated {files : List File} (placed : ∀ file ∈ files, file.IsPlaced small) :
    printAll large (files.map (File.relocated place)) = printAll small files := by
  rw [printAll, List.map_map]
  exact List.map_congr_left fun file isFile => embeds.print_relocated (placed file isFile)

theorem shown_relocated {ending : RunEnd}
    (placed : ∀ problem ∈ ending.problems, problem.IsPlaced small) :
    (ending.relocated place).shown large = ending.shown small := by
  cases ending with
  | gaveUp problems =>
      have rendered : (problems.map (Problem.relocated place)).map (Problem.render large) =
          problems.map (Problem.render small) := by
        rw [List.map_map]
        refine List.map_congr_left fun problem isProblem => ?_
        obtain ⟨diagnostic, rfl, before⟩ := placed problem isProblem
        simp only [Function.comp_apply, Problem.relocated, Problem.render, Diagnostic.relocated,
          embeds.places _ before]
      rw [RunEnd.relocated, RunEnd.shown, RunEnd.shown, Problem.listReport, Problem.listReport,
        rendered]
  | _ => rfl

/-- The same is seen of a run over files of the small set when they stand in the large one. -/
theorem quickFix_shown (importNames : List (String × String)) (tries : Int) {files : List File}
    (reachable : Reachable small files) (placed : ∀ file ∈ files, file.IsPlaced small) :
    (quickFix (.scopeCheck importNames) .standard large tries
        (files.map (File.relocated place))).map (Run.shown large) =
      (quickFix (.scopeCheck importNames) .standard small tries files).map (Run.shown small) := by
  rw [embeds.order.quickFix_relocated importNames large tries reachable]
  cases outcome : quickFix (.scopeCheck importNames) .standard small tries files with
  | error error => simp only [Except.map]
  | ok run =>
      have mended := isPlaced_of_forall₂ (quickFix_mended outcome) placed
      have problemsPlaced : ∀ problem ∈ run.ending.problems, problem.IsPlaced small := by
        unfold quickFix at outcome
        split at outcome
        · cases outcome
        · obtain rfl := Except.ok.inj outcome
          exact reachable.passes_isPlaced embeds.smallTidy importNames _ _ 0 placed
            (List.forall_mem_nil _)
      refine congrArg Except.ok ?_
      simp only [Run.shown, Run.relocated, embeds.printAll_relocated mended,
        embeds.shown_relocated problemsPlaced]

/-- The same is seen of fixes that are taken back in files of the small set when they stand in the
large one. -/
theorem revertFixes_shown (keep : List String) {files : List File}
    (placed : ∀ file ∈ files, file.IsPlaced small) :
    (revertFixes keep (files.map (File.relocated place))).shown large =
      (revertFixes keep files).shown small := by
  have reverted : ∀ file ∈ (revertFixes keep files).files, file.IsPlaced small := by
    intro file isFile
    obtain ⟨old, isOld, rfl⟩ := List.mem_map.mp isFile
    exact (placed old isOld).reverted keep
  rw [embeds.order.revertFixes_relocated keep files]
  simp only [Reverted.shown, embeds.printAll_relocated reverted]

end FileSet.Embeds

end GoMend
