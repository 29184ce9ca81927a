import GoMend.Proofs.Fix.InTurn

/-!
# The account of a pass

A pass takes every diagnostic that it was given exactly once.  Some are not tried at all and are
left at once.  The others are tried in the order of the report, each in the files as the fixes
before it have left them, and are either mended or left.
-/

namespace GoMend

/-- The diagnostic that a problem is about. -/
def Problem.diagnostic : Problem → Diagnostic
  | .unmended diagnostic | .unlocated diagnostic _ => diagnostic

section Located

variable (registry : FixerRegistry) (set : FileSet) (files : List File)

/-- A diagnostic that no fix is tried for, with the problem that is left of it. -/
inductive Untried (diagnostic : Diagnostic) : Problem → Prop where
  | unclassified (noShape : diagnostic.shape? = none) : Untried diagnostic (.unmended diagnostic)
  | unowned {shape : Shape} (isShape : diagnostic.shape? = some shape)
      (noOwner : ∀ file ∈ files, file.owns diagnostic.pos = false) :
      Untried diagnostic (.unlocated diagnostic (set.position diagnostic.pos).render)
  | unfixable {shape : Shape} (isShape : diagnostic.shape? = some shape)
      (isOwned : ∃ file ∈ files, file.owns diagnostic.pos = true)
      (noFixer : ∀ fixer ∈ registry.fixers, fixer.fixId ≠ shape.fixId) :
      Untried diagnostic (.unmended diagnostic)

/-- A fix for a diagnostic: that of a registered fixer for its shape, at the nodes around its
position in the first file that owns it. -/
structure PendingFix.Tries (diagnostic : Diagnostic) (fix : PendingFix) : Prop where
  diagnostic_eq : fix.diagnostic = diagnostic
  isShape : diagnostic.shape? = some fix.shape
  isOwner : ∃ file, files[fix.unit]? = some file ∧ file.owns diagnostic.pos = true ∧
    fix.chain = (file.enclosing diagnostic.pos).map (·.address)
  isFirst : ∀ file ∈ files.take fix.unit, file.owns diagnostic.pos = false
  isFixer : fix.fixer ∈ registry.fixers ∧ fix.fixer.fixId = fix.shape.fixId

/-- Diagnostics that are parted, in their order, into problems and fixes. -/
inductive Parted : List Diagnostic → List Problem → List PendingFix → Prop where
  | nil : Parted [] [] []
  | untried {diagnostic : Diagnostic} {problem : Problem} {rest : List Diagnostic}
      {problems : List Problem} {fixes : List PendingFix}
      (isUntried : Untried registry set files diagnostic problem)
      (others : Parted rest problems fixes) : Parted (diagnostic :: rest) (problem :: problems) fixes
  | tried {diagnostic : Diagnostic} {fix : PendingFix} {rest : List Diagnostic}
      {problems : List Problem} {fixes : List PendingFix}
      (isTried : fix.Tries registry files diagnostic)
      (others : Parted rest problems fixes) : Parted (diagnostic :: rest) problems (fix :: fixes)

end Located

/-- A fix that is applied to files: it mends its file, or it fails and leaves all of them alone. -/
inductive PendingFix.Turn (fix : PendingFix) (files : List File) : Bool → List File → Prop where
  | mended {file edited : File} {edit : Edit} (isFile : files[fix.unit]? = some file)
      (outcome : fix.fixer.mend fix.shape fix.chain file = .ok (edit, edited)) :
      Turn fix files true (files.set fix.unit edited)
  | failed {file : File} {failure : EditFailure} (isFile : files[fix.unit]? = some file)
      (outcome : fix.fixer.mend fix.shape fix.chain file = .error failure) :
      Turn fix files false files

/-- Fixes that are applied one after the other, each with whether it mended its file. -/
inductive Turns : List File → List (PendingFix × Bool) → List File → Prop where
  | nil (files : List File) : Turns files [] files
  | cons {fix : PendingFix} {mends : Bool} {files middle last : List File}
      {rest : List (PendingFix × Bool)} (turn : fix.Turn files mends middle)
      (others : Turns middle rest last) : Turns files ((fix, mends) :: rest) last

/-- The diagnostics of the fixes that mended their files. -/
def mendedDiagnostics (turns : List (PendingFix × Bool)) : List Diagnostic :=
  (turns.filter (·.2)).map (·.1.diagnostic)

/-- The diagnostics of the fixes that failed. -/
def failedDiagnostics (turns : List (PendingFix × Bool)) : List Diagnostic :=
  (turns.filter (!·.2)).map (·.1.diagnostic)

/-! ### Parting the diagnostics -/

theorem findUnit?_eq_none {files : List File} {pos : Pos} (noUnit : findUnit? files pos = none) :
    ∀ file ∈ files, file.owns pos = false := by
  simpa [findUnit?, List.findIdx?_eq_none_iff] using noUnit

theorem findUnit?_eq_some {files : List File} {pos : Pos} {unit : Nat}
    (isUnit : findUnit? files pos = some unit) :
    (∃ file, files[unit]? = some file ∧ file.owns pos = true) ∧
      ∀ file ∈ files.take unit, file.owns pos = false := by
  obtain ⟨inside, owns, isFirst⟩ := List.findIdx?_eq_some_iff_getElem.mp isUnit
  refine ⟨⟨files[unit], List.getElem?_eq_getElem inside, owns⟩, fun file mem => ?_⟩
  obtain ⟨index, before, rfl⟩ := List.getElem_of_mem mem
  rw [List.length_take] at before
  rw [List.getElem_take]
  exact Bool.eq_false_iff.mpr (isFirst index (by omega))

/-- Every diagnostic leaves a problem at once or has a fix. -/
theorem Triage.of_cases (registry : FixerRegistry) (set : FileSet) (files : List File)
    (diagnostic : Diagnostic) :
    (∃ problem, Triage.of registry set files diagnostic = .unhandled problem ∧
        Untried registry set files diagnostic problem) ∨
      ∃ fix, Triage.of registry set files diagnostic = .pending fix ∧
        fix.Tries registry files diagnostic := by
  unfold Triage.of
  cases isShape : diagnostic.shape? with
  | none => exact .inl ⟨_, rfl, .unclassified isShape⟩
  | some shape =>
      cases isUnit : findUnit? files diagnostic.pos with
      | none => exact .inl ⟨_, rfl, .unowned isShape (findUnit?_eq_none isUnit)⟩
      | some unit =>
          obtain ⟨⟨file, isFile, owns⟩, isFirst⟩ := findUnit?_eq_some isUnit
          dsimp only
          rw [isFile]
          cases isFixer : registry.get? shape.fixId with
          | none =>
              refine .inl ⟨_, rfl, .unfixable isShape ⟨file, List.mem_of_getElem? isFile, owns⟩ ?_⟩
              simpa [FixerRegistry.get?] using isFixer
          | some fixer =>
              refine .inr ⟨_, rfl, rfl, isShape, ⟨file, isFile, owns, rfl⟩, isFirst, ?_⟩
              exact ⟨List.mem_of_find?_eq_some isFixer, by simpa using List.find?_some isFixer⟩

/-- The diagnostics of a pass are parted before the first edit. -/
theorem parted_triage (registry : FixerRegistry) (set : FileSet) (files : List File)
    (diagnostics : List Diagnostic) :
    Parted registry set files diagnostics
      ((diagnostics.map (Triage.of registry set files)).filterMap Triage.problem?)
      ((diagnostics.map (Triage.of registry set files)).filterMap Triage.fix?) := by
  induction diagnostics with
  | nil => exact .nil
  | cons diagnostic rest ih =>
      rcases Triage.of_cases registry set files diagnostic with
        ⟨problem, triaged, isUntried⟩ | ⟨fix, triaged, isTried⟩
      · rw [List.map_cons, triaged]
        exact .untried isUntried ih
      · rw [List.map_cons, triaged]
        exact .tried isTried ih

section Parted

variable {registry : FixerRegistry} {set : FileSet} {files : List File}
  {diagnostics : List Diagnostic} {problems : List Problem} {fixes : List PendingFix}

theorem Untried.diagnostic_eq {diagnostic : Diagnostic} {problem : Problem}
    (isUntried : Untried registry set files diagnostic problem) :
    problem.diagnostic = diagnostic := by
  cases isUntried <;> rfl

/-- Nothing is lost and nothing is said twice when diagnostics are parted. -/
theorem Parted.perm (parted : Parted registry set files diagnostics problems fixes) :
    (problems.map (·.diagnostic) ++ fixes.map (·.diagnostic)).Perm diagnostics := by
  induction parted with
  | nil => exact .nil
  | untried isUntried others ih =>
      rw [List.map_cons, isUntried.diagnostic_eq]
      exact ih.cons _
  | tried isTried others ih =>
      rw [List.map_cons, isTried.diagnostic_eq]
      exact List.perm_middle.trans (ih.cons _)

/-- The file of every fix is one of the files. -/
theorem Parted.unit_lt (parted : Parted registry set files diagnostics problems fixes) :
    ∀ fix ∈ fixes, fix.unit < files.length := by
  induction parted with
  | nil => exact List.forall_mem_nil _
  | untried isUntried others ih => exact ih
  | tried isTried others ih =>
      obtain ⟨file, isFile, -⟩ := isTried.isOwner
      exact List.forall_mem_cons.mpr ⟨(List.getElem?_eq_some_iff.mp isFile).1, ih⟩

end Parted

/-! ### Applying the fixes -/

theorem mended_append_failed_perm (turns : List (PendingFix × Bool)) :
    (mendedDiagnostics turns ++ failedDiagnostics turns).Perm
      ((turns.map (·.1)).map (·.diagnostic)) := by
  rw [mendedDiagnostics, failedDiagnostics, ← List.map_append, List.map_map]
  exact (List.filter_append_perm _ turns).map _

/-- A fix whose file is there takes one turn, and leaves its diagnostic if it fails. -/
theorem PendingFix.apply_turn {fix : PendingFix} {progress : Progress}
    (inside : fix.unit < progress.files.length) :
    ∃ mends, fix.Turn progress.files mends (fix.apply progress).files ∧
      (fix.apply progress).unhandled = progress.unhandled ++
        (failedDiagnostics [(fix, mends)]).map .unmended := by
  have isFile := List.getElem?_eq_getElem inside
  unfold apply
  rw [isFile]
  dsimp only
  cases outcome : fix.fixer.mend fix.shape fix.chain progress.files[fix.unit] with
  | ok edited => exact ⟨true, .mended isFile outcome, (List.append_nil _).symm⟩
  | error failure => exact ⟨false, .failed isFile outcome, rfl⟩

theorem PendingFix.Turn.length_eq {fix : PendingFix} {files files' : List File} {mends : Bool}
    (turn : fix.Turn files mends files') : files'.length = files.length := by
  cases turn with
  | mended => exact List.length_set
  | failed => rfl

/-- Fixes whose files are there take their turns, and leave the diagnostics of those that fail. -/
theorem foldl_apply_turns {fixes : List PendingFix} {progress : Progress}
    (inside : ∀ fix ∈ fixes, fix.unit < progress.files.length) :
    ∃ turns, turns.map (·.1) = fixes ∧
      Turns progress.files turns (fixes.foldl PendingFix.apply progress).files ∧
      (fixes.foldl PendingFix.apply progress).unhandled =
        progress.unhandled ++ (failedDiagnostics turns).map .unmended := by
  induction fixes generalizing progress with
  | nil => exact ⟨[], rfl, .nil _, (List.append_nil _).symm⟩
  | cons fix fixes ih =>
      obtain ⟨first, later⟩ := List.forall_mem_cons.mp inside
      obtain ⟨mends, turn, left⟩ := PendingFix.apply_turn first
      obtain ⟨turns, areFixes, others, leftLater⟩ :=
        @ih (fix.apply progress) (turn.length_eq ▸ later)
      refine ⟨(fix, mends) :: turns, by rw [List.map_cons, areFixes], .cons turn others, ?_⟩
      rw [List.foldl_cons, leftLater, left, List.append_assoc, ← List.map_append]
      cases mends <;> rfl

/-! ### Passes -/

/-- A pass leaves, in the order of the report, the diagnostics that it does not try, and after them
those whose fix failed when its turn came.  Together with those that it mended these are all
diagnostics of the report, each of them once. -/
theorem runPass_account {checker : Checker} (registry : FixerRegistry) (set : FileSet) {call : Nat}
    {files : List File} {diagnostics : List Diagnostic}
    (answer : checker.check call files = .ok diagnostics) :
    ∃ result problems turns, runPass checker registry set call files = .ok result ∧
      Parted registry set files diagnostics problems (turns.map (·.1)) ∧
      Turns files turns result.files ∧
      result.unhandled = problems ++ (failedDiagnostics turns).map .unmended ∧
      (mendedDiagnostics turns ++ result.unhandled.map (·.diagnostic)).Perm diagnostics ∧
      (mendedDiagnostics turns).length + result.unhandled.length = diagnostics.length ∧
      (result.foundError = true ↔ 0 < diagnostics.length) := by
  have parted := parted_triage registry set files diagnostics
  generalize isProblems : (diagnostics.map (Triage.of registry set files)).filterMap
    Triage.problem? = problems at parted
  generalize isFixes : (diagnostics.map (Triage.of registry set files)).filterMap
    Triage.fix? = fixes at parted
  obtain ⟨turns, rfl, taken, left⟩ :=
    @foldl_apply_turns fixes { files, unhandled := problems } parted.unit_lt
  have isMendAll : mendAll registry set files diagnostics =
      (turns.map (·.1)).foldl PendingFix.apply { files, unhandled := problems } := by
    rw [mendAll, isProblems, isFixes]
  have areLeft : (problems ++ (failedDiagnostics turns).map Problem.unmended).map (·.diagnostic) =
      problems.map (·.diagnostic) ++ failedDiagnostics turns := by
    simp [Function.comp_def, Problem.diagnostic]
  have allTaken : (mendedDiagnostics turns ++
      (problems ++ (failedDiagnostics turns).map Problem.unmended).map (·.diagnostic)).Perm
        diagnostics := by
    rw [areLeft]
    refine (List.perm_append_comm_assoc _ _ _).trans (.trans ?_ parted.perm)
    exact (mended_append_failed_perm turns).append_left _
  rw [runPass, answer]
  refine ⟨_, problems, turns, rfl, parted, ?_, ?_, ?_, ?_, ?_⟩
  · rw [isMendAll]
    exact taken
  · rw [isMendAll]
    exact left
  · rw [isMendAll, left]
    exact allTaken
  · rw [isMendAll, left]
    have lengthEq := allTaken.length_eq
    rwa [List.length_append, List.length_map] at lengthEq
  · cases diagnostics <;> simp

/-- Three diagnostics are mended or left when their turn comes; there is no fix for the last one. -/
theorem runPass_account_sample :
    (Checker.mk none fun _ _ => .ok sampleReports).check 0 [sampleFile] = .ok sampleReports ∧
      ∃ result problems turns, runPass (Checker.mk none fun _ _ => .ok sampleReports) .standard
          .empty 0 [sampleFile] = .ok result ∧
        Parted .standard .empty [sampleFile] sampleReports problems (turns.map (·.1)) ∧
        Turns [sampleFile] turns result.files ∧
        result.unhandled = problems ++ (failedDiagnostics turns).map .unmended ∧
        (mendedDiagnostics turns ++ result.unhandled.map (·.diagnostic)).Perm sampleReports ∧
        (mendedDiagnostics turns).length + result.unhandled.length = sampleReports.length ∧
        (result.foundError = true ↔ 0 < sampleReports.length) :=
  ⟨rfl, runPass_account .standard .empty rfl⟩

end GoMend
