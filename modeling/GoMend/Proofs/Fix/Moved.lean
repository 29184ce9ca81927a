import GoMend.Proofs.Fix.Local
import GoMend.Proofs.Fix.Normal
import GoMend.Proofs.Fix.Relocate
import GoMend.Proofs.Fix.Session
import GoMend.Proofs.Layout.Moved

/-!
# Runs over files at other positions

When the files of a package stand at other positions, in the same order, a run over them does what it
does over the files where they are: it reports the same diagnostics at the other positions, applies
the same fixes, and ends in the same way.
-/

namespace GoMend

variable {place : Pos → Pos}

/-! ### Diagnostics -/

/-- A diagnostic at another position. -/
def Diagnostic.relocated (place : Pos → Pos) (diagnostic : Diagnostic) : Diagnostic :=
  { diagnostic with pos := place diagnostic.pos }

@[simp]
theorem Diagnostic.shape?_relocated (diagnostic : Diagnostic) :
    (diagnostic.relocated place).shape? = diagnostic.shape? :=
  rfl

/-- The check of a package at other positions reports the same at these positions. -/
theorem KeepsOrder.checkPackage_relocated (keeps : KeepsOrder place) (packageName : String → String)
    (files : List File) :
    checkPackage packageName (files.map (File.relocated place)) =
      (checkPackage packageName files).map (List.map (Diagnostic.relocated place)) := by
  rw [checkPackage, checkPackage, packageFindings_relocated keeps.absent]
  cases packageFindings packageName files with
  | error error => rfl
  | ok findings =>
      have sorted := @Diagnostic.sorted_map (Diagnostic.relocated place)
        (findings.map fun finding => finding.1.diagnostic finding.2)
        fun first _ second _ => keeps.strict.le_iff_le
      refine congrArg Except.ok (Eq.trans ?_ sorted)
      rw [relocatedFindings, List.map_map, List.map_map]
      rfl

/-! ### Passes -/

/-- A problem at another position.  The set of files shows the place of what no file owns. -/
def Problem.relocated (place : Pos → Pos) : Problem → Problem
  | .unmended diagnostic => .unmended (diagnostic.relocated place)
  | .unlocated diagnostic text => .unlocated (diagnostic.relocated place) text

/-- A fix at another position. -/
def PendingFix.relocated (place : Pos → Pos) (fix : PendingFix) : PendingFix :=
  { fix with diagnostic := fix.diagnostic.relocated place }

/-- What becomes of a diagnostic at another position. -/
def Triage.relocated (place : Pos → Pos) : Triage → Triage
  | .unhandled problem => .unhandled (problem.relocated place)
  | .pending fix => .pending (fix.relocated place)

/-- A pass over files at other positions. -/
def Progress.relocated (place : Pos → Pos) (progress : Progress) : Progress where
  files := progress.files.map (File.relocated place)
  unhandled := progress.unhandled.map (Problem.relocated place)
  log := progress.log

namespace KeepsOrder

variable (keeps : KeepsOrder place)

include keeps

theorem findUnit?_relocated (files : List File) (pos : Pos) :
    findUnit? (files.map (File.relocated place)) (place pos) = findUnit? files pos := by
  have sameOwner : (fun file : File => file.owns (place pos)) ∘ File.relocated place =
      fun file => file.owns pos := funext fun file => keeps.owns_relocated file pos
  rw [findUnit?, findUnit?, List.findIdx?_map, sameOwner]

/-- What becomes of a diagnostic is the same at another position, if a file owns it as soon as it is
classified. -/
theorem triage_relocated (set set' : FileSet) {files : List File} {diagnostic : Diagnostic}
    (located : diagnostic.shape?.isSome → (findUnit? files diagnostic.pos).isSome) :
    Triage.of .standard set' (files.map (File.relocated place)) (diagnostic.relocated place) =
      (Triage.of .standard set files diagnostic).relocated place := by
  unfold Triage.of
  rw [Diagnostic.shape?_relocated]
  cases isShape : diagnostic.shape? with
  | none => rfl
  | some shape =>
      obtain ⟨unit, isUnit⟩ := Option.isSome_iff_exists.mp (located (by simp [isShape]))
      have isUnit' : findUnit? (files.map (File.relocated place)) (diagnostic.relocated place).pos =
          some unit := (keeps.findUnit?_relocated files diagnostic.pos).trans isUnit
      simp only [isUnit, isUnit', List.getElem?_map]
      cases files[unit]? with
      | none => rfl
      | some file =>
          cases FixerRegistry.standard.get? shape.fixId with
          | none => rfl
          | some fixer =>
              have chainEq := keeps.map_enclosing file diagnostic.pos
              simp only [Option.map_some, Diagnostic.relocated, chainEq]
              rfl

theorem apply_relocated {fix : PendingFix} (mendEq : fix.fixer.mend = Shape.mend)
    (progress : Progress) :
    (fix.relocated place).apply (progress.relocated place) =
      (fix.apply progress).relocated place := by
  simp only [PendingFix.apply, PendingFix.relocated, Progress.relocated, List.getElem?_map, mendEq]
  cases progress.files[fix.unit]? with
  | none => rfl
  | some file =>
      simp only [Option.map_some, Shape.mend_relocated keeps.absent]
      cases fix.shape.mend fix.chain file with
      | error failure => simp [Except.map, Problem.relocated, Diagnostic.relocated]
      | ok result => simp [Except.map, File.relocated, List.map_set]

theorem foldl_apply_relocated {fixes : List PendingFix}
    (mendEq : ∀ fix ∈ fixes, fix.fixer.mend = Shape.mend) (progress : Progress) :
    (fixes.map (PendingFix.relocated place)).foldl PendingFix.apply (progress.relocated place) =
      (fixes.foldl PendingFix.apply progress).relocated place := by
  induction fixes generalizing progress with
  | nil => rfl
  | cons fix fixes ih =>
      obtain ⟨first, others⟩ := List.forall_mem_cons.mp mendEq
      rw [List.map_cons, List.foldl_cons, List.foldl_cons, keeps.apply_relocated first, ih others]

/-- The diagnostics of a package are mended at other positions as they are here. -/
theorem mendAll_relocated (set set' : FileSet) {files : List File} (package : SoundPackage files)
    {packageName : String → String} {diagnostics : List Diagnostic}
    (checked : checkPackage packageName files = .ok diagnostics) :
    mendAll .standard set' (files.map (File.relocated place))
        (diagnostics.map (Diagnostic.relocated place)) =
      (mendAll .standard set files diagnostics).relocated place := by
  have triaged : (diagnostics.map (Diagnostic.relocated place)).map
        (Triage.of .standard set' (files.map (File.relocated place))) =
      (diagnostics.map (Triage.of .standard set files)).map (Triage.relocated place) := by
    rw [List.map_map, List.map_map]
    refine List.map_congr_left fun diagnostic isDiagnostic => keeps.triage_relocated set set' ?_
    intro isClassified
    obtain ⟨shape, isShape⟩ := Option.isSome_iff_exists.mp isClassified
    obtain ⟨-, unit, -, -, isUnit, -⟩ := package.exists_unit checked isDiagnostic isShape
    simp [isUnit]
  have mendEq : ∀ fix ∈ (diagnostics.map (Triage.of .standard set files)).filterMap Triage.fix?,
      fix.fixer.mend = Shape.mend := by
    intro fix isFix
    obtain ⟨triaged, isTriaged, isPending⟩ := List.mem_filterMap.mp isFix
    obtain ⟨diagnostic, -, rfl⟩ := List.mem_map.mp isTriaged
    cases outcome : Triage.of .standard set files diagnostic with
    | unhandled problem => simp [outcome, Triage.fix?] at isPending
    | pending other =>
        rw [outcome] at isPending
        exact Option.some.inj isPending ▸ (Triage.mends_of_pending outcome).mend_eq
  have fixesEq (triaged : List Triage) : (triaged.map (Triage.relocated place)).filterMap Triage.fix? =
      (triaged.filterMap Triage.fix?).map (PendingFix.relocated place) := by
    rw [List.filterMap_map, List.map_filterMap]
    refine List.filterMap_congr fun item _ => ?_
    cases item <;> rfl
  have problemsEq (triaged : List Triage) :
      (triaged.map (Triage.relocated place)).filterMap Triage.problem? =
        (triaged.filterMap Triage.problem?).map (Problem.relocated place) := by
    rw [List.filterMap_map, List.map_filterMap]
    refine List.filterMap_congr fun item _ => ?_
    cases item <;> rfl
  rw [mendAll, mendAll, triaged, fixesEq, problemsEq, ← keeps.foldl_apply_relocated mendEq]
  rfl

end KeepsOrder

/-! ### Runs -/

/-- What a pass over files at other positions did. -/
def PassResult.relocated (place : Pos → Pos) (result : PassResult) : PassResult :=
  { result with
    files := result.files.map (File.relocated place)
    unhandled := result.unhandled.map (Problem.relocated place) }

/-- The end of a run over files at other positions. -/
def RunEnd.relocated (place : Pos → Pos) : RunEnd → RunEnd
  | .clean => .clean
  | .exhausted => .exhausted
  | .gaveUp problems => .gaveUp (problems.map (Problem.relocated place))
  | .failed error => .failed error

/-- A run over files at other positions. -/
def Run.relocated (place : Pos → Pos) (run : Run) : Run :=
  { run with
    files := run.files.map (File.relocated place)
    ending := run.ending.relocated place }

theorem Run.relocated_outOfTries (tries : Nat) (files : List File) (unhandled : List Problem) :
    (outOfTries tries files unhandled).relocated place =
      outOfTries tries (files.map (File.relocated place)) (unhandled.map (Problem.relocated place)) := by
  unfold outOfTries
  rw [List.isEmpty_map, List.length_map]
  split <;> rfl

theorem Run.logPass_relocated (attempt tries : Nat) (result : PassResult) :
    logPass attempt tries (result.relocated place) = logPass attempt tries result := by
  simp only [logPass, PassResult.relocated, List.length_map]
  rfl

namespace KeepsOrder

variable (keeps : KeepsOrder place) (importNames : List (String × String)) (set' : FileSet)
  {set : FileSet} {files : List File}

include keeps

/-- A pass over reachable files does at other positions what it does here. -/
theorem runPass_relocated (call : Nat) (reachable : Reachable set files) :
    runPass (.scopeCheck importNames) .standard set' call (files.map (File.relocated place)) =
      (runPass (.scopeCheck importNames) .standard set call files).map
        (PassResult.relocated place) := by
  obtain ⟨diagnostics, checked⟩ := reachable.exists_diagnostics (ImportPath.packageName importNames)
  have answered : (Checker.scopeCheck importNames).check call files = .ok diagnostics := checked
  have answered' : (Checker.scopeCheck importNames).check call (files.map (File.relocated place)) =
      .ok (diagnostics.map (Diagnostic.relocated place)) := by
    refine (keeps.checkPackage_relocated _ files).trans ?_
    rw [checked]
    rfl
  have logged : (Checker.scopeCheck importNames).logAnswer (files.map (File.relocated place))
        (diagnostics.map (Diagnostic.relocated place)) =
      (Checker.scopeCheck importNames).logAnswer files diagnostics := by
    rw [Checker.logAnswer, Checker.logAnswer, List.length_map, List.length_map]
  rw [runPass, runPass, answered, answered']
  simp only [bind, Except.bind, pure, Except.pure, List.isEmpty_map, logged,
    keeps.mendAll_relocated set set' reachable.soundPackage checked]
  rfl

/-- The passes of a run over reachable files do at other positions what they do here. -/
theorem passes_relocated (tries remaining made : Nat) (reachable : Reachable set files)
    (unhandled : List Problem) :
    Run.passes (.scopeCheck importNames) .standard set' tries remaining made
        (files.map (File.relocated place)) (unhandled.map (Problem.relocated place)) =
      (Run.passes (.scopeCheck importNames) .standard set tries remaining made files
        unhandled).relocated place := by
  induction remaining generalizing made files unhandled with
  | zero => exact (Run.relocated_outOfTries tries files unhandled).symm
  | succ remaining ih =>
      obtain ⟨diagnostics, checked⟩ :=
        reachable.exists_diagnostics (ImportPath.packageName importNames)
      obtain ⟨result, ran, filesEq⟩ : ∃ result,
          runPass (.scopeCheck importNames) .standard set made files = .ok result ∧
            result.files = (mendAll .standard set files diagnostics).files := by
        have answered : (Checker.scopeCheck importNames).check made files = .ok diagnostics := checked
        rw [runPass, answered]
        exact ⟨_, rfl, rfl⟩
      have later := ih (made + 1) (filesEq ▸ reachable.mendAll checked) result.unhandled
      rw [Run.passes, Run.passes, keeps.runPass_relocated importNames set' made reachable, ran]
      simp only [Except.map, Run.logPass_relocated]
      cases foundError : result.foundError with
      | false => simp [PassResult.relocated, foundError, Run.relocated, Run.after, RunEnd.relocated]
      | true =>
          simp only [PassResult.relocated, foundError, if_true, later]
          rfl

/-- A run over reachable files does at other positions what it does here. -/
theorem quickFix_relocated (tries : Int) (reachable : Reachable set files) :
    quickFix (.scopeCheck importNames) .standard set' tries (files.map (File.relocated place)) =
      (quickFix (.scopeCheck importNames) .standard set tries files).map (Run.relocated place) := by
  unfold quickFix
  split
  · rfl
  · exact congrArg Except.ok (keeps.passes_relocated importNames set' tries.toNat tries.toNat 0
      reachable [])

end KeepsOrder

/-! ### Fixes taken back -/

theorem Node.lists_relocated (node : Node) :
    (node.relocated place).lists = node.lists.map (List.map (Stmt.relocated place)) := by
  induction node using induction_children with
  | step node ih =>
      have own : (node.relocated place).ownStmts? =
          node.ownStmts?.map (List.map (Stmt.relocated place)) := by
        cases node with
        | stmt step =>
            cases step with
            | block body =>
                obtain ⟨span, stmts⟩ := body
                simp [ownStmts?]
            | caseClause span exprs body colon => cases exprs <;> simp [ownStmts?]
            | _ => simp [ownStmts?]
        | _ => simp [ownStmts?]
      have below : (node.children.map (Node.relocated place)).flatMap lists =
          (node.children.flatMap lists).map (List.map (Stmt.relocated place)) := by
        rw [List.flatMap_map, List.map_flatMap]
        exact List.flatMap_congr ih
      rw [lists_eq, lists_eq, children_relocated, own, below, List.map_append]
      cases node.ownStmts? <;> rfl

namespace File

theorem readCount_relocated (file : File) : (file.relocated place).readCount = file.readCount := by
  have listsEq := @Node.lists_relocated place (.file file)
  rw [Node.relocated_file] at listsEq
  rw [readCount_eq, readCount_eq, Node.statements_eq_flatten, Node.statements_eq_flatten, listsEq,
    ← List.map_flatten, List.countP_map]
  exact List.countP_congr fun step _ => by simp [Stmt.isDiscardRead_relocated]

theorem imports_relocated (file : File) :
    (file.relocated place).imports = file.imports.map (ImportSpec.relocated place) := by
  rw [imports, imports, relocated, List.flatMap_map, List.map_flatMap]
  refine List.flatMap_congr fun item _ => ?_
  cases item with
  | func item => rfl
  | gen item =>
      obtain ⟨span, tok, specs, grouped⟩ := item
      simp only [Decl.relocated_gen, Decl.imports, GenDecl.specs_relocated, List.filterMap_map,
        List.map_filterMap]
      refine List.filterMap_congr fun item _ => ?_
      cases item <;> rfl

end File

namespace File

variable (keep : List String) (file : File)

theorem restoredCount_relocated :
    (file.relocated place).restoredCount keep = file.restoredCount keep := by
  rw [restoredCount, restoredCount, imports_relocated, List.countP_map]
  refine List.countP_congr fun spec _ => ?_
  rw [Function.comp_apply, ImportSpec.isRestored_relocated]

theorem logKept_relocated : (file.relocated place).logKept keep = file.logKept keep := by
  have sameFilter : (fun spec : ImportSpec => spec.isBlank && !spec.isRestored keep) ∘
      ImportSpec.relocated place = fun spec => spec.isBlank && !spec.isRestored keep := by
    funext spec
    rw [Function.comp_apply, ImportSpec.isBlank_relocated, ImportSpec.isRestored_relocated]
  rw [logKept, logKept, imports_relocated, List.filter_map, sameFilter, List.map_map]
  rfl

theorem reverted_relocated (keeps : KeepsOrder place) :
    (file.relocated place).reverted keep = (file.reverted keep).relocated place := by
  have nameEq : (file.reverted keep).name = file.name := by rw [reverted_eq]
  have same := reverted_elsewhere keeps keep file.name file
  refine same.trans ?_
  rw [elsewhere, ← nameEq]
  rfl

end File

/-- Fixes are taken back at other positions as they are here. -/
theorem KeepsOrder.revertFixes_relocated (keeps : KeepsOrder place) (keep : List String)
    (files : List File) :
    revertFixes keep (files.map (File.relocated place)) =
      { revertFixes keep files with
        files := (revertFixes keep files).files.map (File.relocated place) } := by
  have filesEq : (files.map (File.relocated place)).map (·.reverted keep) =
      (files.map (·.reverted keep)).map (File.relocated place) := by
    rw [List.map_map, List.map_map]
    exact List.map_congr_left fun file _ => file.reverted_relocated keep keeps
  simp only [revertFixes, filesEq, List.map_map, List.flatMap_map, Function.comp_def,
    List.length_map, File.readCount_relocated, File.restoredCount_relocated, File.logKept_relocated]

end GoMend
