import GoMend.Proofs.Check.Define
import GoMend.Proofs.Fix.Session

/-!
# What fixes change in a check

A fix is precise: the check of the package with the fix reports what it reported before, in the
same order, and leaves out the one diagnostic that was mended.  A discard read is precise wherever
it is put in a list of statements, and `=` in the place of a `:=` is precise where only names stand
on its left.
-/

namespace GoMend

open Node PlanStep

/-! ### Discard reads -/

namespace Node

/-- A check that visits a node in some way goes through a list of statements. -/
inductive Lists : Mode → Node → List Stmt → Prop
  | block (body : Block) : Lists .stmt (.stmt (.block body)) body.stmts
  | function (body : Block) : Lists .function (.stmt (.block body)) body.stmts
  | caseClause (span : Span) (exprs : Option (List Expr)) (body : List Stmt) (colon : Pos) :
      Lists .caseClause (.stmt (.caseClause span exprs body colon)) body
  | commClause (span : Span) (comm : Option Stmt) (body : List Stmt) (colon : Pos) :
      Lists .commClause (.stmt (.commClause span comm body colon)) body

theorem Lists.exists_cut {mode : Mode} {owner : Node} {stmts : List Stmt} {index : Nat}
    (lists : Lists mode owner stmts) (inside : index ≤ stmts.length) :
    ∃ before rest, owner.cut? index mode = some (before, rest) := by
  cases lists <;> exact ⟨_, _, if_pos inside⟩

end Node

/-- A check of a package can be cut before every statement of a list that it comes to. -/
theorem exists_packageCut {files : List File} {unit index : Nat} {file : File}
    {address : Node.Address} {mode : Mode} {owner : Node} {stmts : List Stmt}
    (isFile : files[unit]? = some file)
    (visits : Visits .file (.file file) address mode owner) (lists : Lists mode owner stmts)
    (inside : index ≤ stmts.length) :
    ∃ before rest, packageCut? files unit address index = some (before, rest) := by
  have notSkim : mode.isSkim = false := by cases lists <;> rfl
  have notName : owner.sort ≠ .ident := by cases lists <;> simp [sort]
  obtain ⟨context, isContext, rfl⟩ := exists_packageContext isFile visits notSkim notName
  obtain ⟨before, rest, isCut⟩ := lists.exists_cut inside
  exact ⟨context.before ++ before, rest ++ context.after,
    by simp [packageCut?, isFile, visits.get?, isContext, isCut]⟩

/-- Wherever the check of reachable files comes to a list of statements, a discard read of any
variable that is seen there takes away the diagnostic that the variable is not read, and changes no
other one. -/
theorem Reachable.insertRead_precise {set : FileSet} {files : List File}
    (reachable : Reachable set files) (packageName : String → String) {unit index : Nat}
    {file : File} {address : Node.Address} {mode : Mode} {owner : Node} {stmts : List Stmt}
    (isFile : files[unit]? = some file)
    (visits : Visits .file (.file file) address mode owner) (lists : Lists mode owner stmts)
    (inside : index ≤ stmts.length) :
    ∃ before rest point, packageCut? files unit address index = some (before, rest) ∧
      Event.run packageName before {} = .ok point ∧
      ∀ name object, Scope.lookup? point.state.scopes name = some object → object.kind = .var →
        ∃ diagnostics, checkPackage packageName files = .ok diagnostics ∧
          checkPackage packageName (insertRead files unit address index name) =
            .ok (diagnostics.erase ((Finding.unusedVariable name).diagnostic object.pos)) := by
  obtain ⟨before, rest, isCut⟩ := exists_packageCut isFile visits lists inside
  obtain ⟨point, outcome, precise⟩ := reachable.soundPackage.check_insertRead isCut
  exact ⟨before, rest, point, isCut, outcome, precise⟩

/-- The events of the check of the sample up to its second `:=`. -/
def sampleEvents : List Event :=
  [.declare ⟨⟨16, 17⟩, "f"⟩ .func, .enter "file", .beginFile, .enter "function", .openLabels,
    .defineName ⟨⟨23, 24⟩, "x"⟩, .endDefine 25]

theorem packageCut?_sample :
    packageCut? [sampleFile] 0 [1, 2] 1 = some (sampleEvents,
      [.defineName ⟨⟨31, 32⟩, "x"⟩, .endDefine 33, .closeLabels, .leave, .leave]) := by
  with_unfolding_all rfl

theorem run_sampleEvents : ∃ point, Event.run id sampleEvents {} = .ok point ∧
    Scope.lookup? point.state.scopes "x" = some ⟨45, "x", .var, 23⟩ :=
  ⟨_, rfl, rfl⟩

/-- A discard read between the two statements of the sample. -/
theorem Reachable.insertRead_precise_sample :
    Reachable (File.parse .empty "a.go" sampleText).1 [sampleFile] ∧
      ∃ point, Event.run id sampleEvents {} = .ok point ∧
        Scope.lookup? point.state.scopes "x" = some ⟨45, "x", .var, 23⟩ ∧
        ∃ diagnostics, checkPackage id [sampleFile] = .ok diagnostics ∧
          checkPackage id (insertRead [sampleFile] 0 [1, 2] 1 "x") =
            .ok (diagnostics.erase ((Finding.unusedVariable "x").diagnostic 23)) := by
  have reachable := Reachable.read readInto_sampleFile
  have isTop : visit .top 1 ∈ (Node.file sampleFile).plan .file := by simp [plan, sampleFile]
  have isBody : visit .function 2 ∈ (Node.decl (sampleFile.decls.get ⟨0, by decide⟩)).plan .top :=
    by simp [plan, sampleFile]
  have visits : Visits .file (.file sampleFile) [1, 2] .function _ :=
    .step isTop rfl (.step isBody rfl (.here _ _))
  obtain ⟨before, rest, point, isCut, outcome, precise⟩ :=
    insertRead_precise reachable id (rfl : [sampleFile][0]? = some sampleFile) visits
      (.function _) (show 1 ≤ 2 by decide)
  rw [packageCut?_sample] at isCut
  obtain ⟨rfl, -⟩ := Prod.mk.inj (Option.some.inj isCut)
  obtain ⟨_, sampleRun, seen⟩ := run_sampleEvents
  obtain rfl := Except.ok.inj (outcome.symm.trans sampleRun)
  exact ⟨reachable, point, outcome, seen, precise "x" _ seen rfl⟩

/-! ### Defines -/

/-- The position of the token of an assignment or of the clause of a range. -/
def Stmt.tokenAt? (step : Stmt) : Option Pos :=
  (Node.stmt step).token?.map Prod.snd

/-- The statement at an address of one of the files has its token at a position. -/
def TokenStands (files : List File) (pos : Pos) (unit : Nat) (address : Node.Address)
    (step : Stmt) : Prop :=
  ∃ file, files[unit]? = some file ∧ (Node.file file).get? address = some (.stmt step) ∧
    step.tokenAt? = some pos

theorem Stmt.tokenAt?_of_defineAt? {step : Stmt} {pos : Pos} (defines : step.defineAt? = some pos) :
    step.tokenAt? = some pos := by
  unfold defineAt? at defines
  split at defines <;> first | exact defines | cases defines

theorem Stmt.exists_withoutDefine {step : Stmt} {pos : Pos} (defines : step.defineAt? = some pos) :
    ∃ changed, step.withoutDefine? = some changed := by
  unfold defineAt? at defines
  split at defines <;> first | exact ⟨_, rfl⟩ | cases defines

theorem exists_inits_reverse {α : Type} (items : List α) :
    ∃ shorter, items.inits.reverse = items :: shorter := by
  induction items with
  | nil => exact ⟨[], rfl⟩
  | cons item items ih =>
      obtain ⟨shorter, initsEq⟩ := ih
      exact ⟨shorter.map (item :: ·) ++ [[]], by simp [← List.map_reverse, initsEq]⟩

namespace SoundPackage

variable {files : List File} {pos : Pos} {unit other : Nat} {address otherAddress : Node.Address}
  {step otherStep : Stmt}

/-- A token that was read stands at one place of one file. -/
theorem exists_trail_of_token (package : SoundPackage files) (isRead : pos ≠ noPos)
    (stands : TokenStands files pos unit address step) :
    ∃ file, files[unit]? = some file ∧ Trail pos (.file file) address := by
  obtain ⟨file, isFile, found, isToken⟩ := stands
  obtain ⟨⟨count, _⟩, token, rfl⟩ := Option.map_eq_some_iff.mp isToken
  have sound := package.sound file (List.mem_of_getElem? isFile)
  exact ⟨file, isFile, .of_stmt sound found token isRead⟩

theorem token_unique (package : SoundPackage files) (isRead : pos ≠ noPos)
    (stands : TokenStands files pos unit address step)
    (otherStands : TokenStands files pos other otherAddress otherStep) :
    other = unit ∧ otherAddress = address := by
  obtain ⟨file, isFile, trail⟩ := package.exists_trail_of_token isRead stands
  obtain ⟨otherFile, isOther, otherTrail⟩ := package.exists_trail_of_token isRead otherStands
  obtain rfl := package.unit_unique isOther isFile otherTrail.mem_places trail.mem_places
  obtain rfl := Option.some.inj (isOther.symm.trans isFile)
  exact ⟨rfl, otherTrail.unique (package.sound _ (List.mem_of_getElem? isFile)) trail⟩

/-- The spot of an event was read. -/
theorem ne_noPos (package : SoundPackage files) {happens : Event}
    (isEvent : happens ∈ packageEvents files) (isSpot : happens.spot? = some pos) :
    pos ≠ noPos := by
  obtain ⟨file, isFile, address, trail⟩ := package.exists_trail isEvent isSpot
  have sound := package.sound file isFile
  obtain ⟨-, startLe, -⟩ := sound.holds trail.mem_places
  have positive := (sound.of_isPositioned sound.isPositioned_of_file).1.positive
  rintro rfl
  exact absurd (Int.lt_of_lt_of_le positive startLe) (Int.lt_irrefl _)

/-- A `:=` that is reported stands in a statement that the check comes to. -/
theorem exists_define (package : SoundPackage files) {packageName : String → String}
    {diagnostics : List Diagnostic} (checked : checkPackage packageName files = .ok diagnostics)
    (isDiagnostic : Finding.noNewVariables.diagnostic pos ∈ diagnostics) :
    ∃ (unit : Nat) (file : File) (address : Node.Address) (mode : Mode) (step : Stmt),
      files[unit]? = some file ∧ Visits .file (.file file) address mode (.stmt step) ∧
      event (.endDefine pos) ∈ (Node.stmt step).plan mode ∧ pos ≠ noPos := by
  obtain ⟨after, outcome⟩ := package.exists_run packageName {}
  obtain rfl := Except.ok.inj (checked.symm.trans (checkPackage_of_run outcome))
  have isFound := CheckState.mem_found_of_diagnostic isDiagnostic
  obtain passing | ⟨-, isEvent⟩ := FoundBy.of_run outcome _ isFound
  · cases passing
  · obtain ⟨unit, file, address, mode, step, isFile, visits, isEnd⟩ :=
      exists_visits_of_endDefine isEvent
    exact ⟨unit, file, address, mode, step, isFile, visits, isEnd, package.ne_noPos isEvent rfl⟩

end SoundPackage

/-- The fix of a `:=` that declares nothing finds the one statement that has its token there.  If
only names stand on the left of the `:=`, then the fix puts `=` in its place and nothing else, and
takes away the diagnostic about it and no other one. -/
theorem Reachable.replaceDefine_precise {set : FileSet} {files : List File}
    (reachable : Reachable set files) {packageName : String → String}
    {diagnostics : List Diagnostic} (checked : checkPackage packageName files = .ok diagnostics)
    {pos : Pos} (isDiagnostic : Finding.noNewVariables.diagnostic pos ∈ diagnostics) :
    ∃ unit file address step,
      findUnit? files pos = some unit ∧ files[unit]? = some file ∧
      (Node.file file).get? address = some (.stmt step) ∧ step.defineAt? = some pos ∧
      (∀ other otherAddress otherStep, TokenStands files pos other otherAddress otherStep →
        other = unit ∧ otherAddress = address) ∧
      ∀ names : List Ident, step.targets = names.map .ident →
        ∃ changed, step.withoutDefine? = some changed ∧
          let edited := file.modify (fun _ => .stmt changed) address
          Fixer.redundantDefine.mend .noNewVariables ((file.enclosing pos).map (·.address)) file =
              .ok (.defineReplaced (Node.stmt step).kind, edited) ∧
            checkPackage packageName (files.set unit edited) =
              .ok (diagnostics.erase (Finding.noNewVariables.diagnostic pos)) := by
  have package := reachable.soundPackage
  obtain ⟨unit, file, address, mode, step, isFile, visits, isEnd, isRead⟩ :=
    package.exists_define checked isDiagnostic
  obtain ⟨-, _, same, defines⟩ := (event_mem_plan isEnd).2 pos rfl
  obtain rfl := Node.stmt.inj same
  have stands : TokenStands files pos unit address step :=
    ⟨file, isFile, visits.get?, Stmt.tokenAt?_of_defineAt? defines⟩
  have sound := package.sound file (List.mem_of_getElem? isFile)
  obtain ⟨_, isSame, trail⟩ := package.exists_trail_of_token isRead stands
  obtain rfl := Option.some.inj (isFile.symm.trans isSame)
  -- The file that is found for the position may be no other than the one with the token.
  obtain ⟨found, isFound, isOwner⟩ :=
    package.findUnit?_of_owns (List.mem_of_getElem? isFile) (sound.owns trail.mem_places)
  obtain rfl := package.unit_unique isOwner isFile trail.mem_places trail.mem_places
  refine ⟨found, file, address, step, isFound, isFile, visits.get?, defines,
    fun _ _ _ => package.token_unique isRead stands, fun names areNames => ?_⟩
  obtain ⟨changed, replaced⟩ := Stmt.exists_withoutDefine defines
  refine ⟨changed, replaced, ?_,
    package.check_withoutDefine isFile visits isEnd replaced areNames checked isDiagnostic⟩
  -- The innermost node around the token is the statement itself, so no other `:=` is tried.
  obtain ⟨outer, chainEq⟩ := exists_inits_reverse address
  show file.replaceDefine _ = _
  rw [trail.map_enclosing sound, chainEq, File.replaceDefine]
  simp [visits.get?, Node.withoutDefine?, replaced]

/-- What is reported about the sample. -/
def sampleDiagnostics : List Diagnostic :=
  [(Finding.unusedVariable "x").diagnostic 23, Finding.noNewVariables.diagnostic 33]

/-- The sample with `=` in its second statement. -/
def mendedSample : File :=
  sampleFile.modify (fun _ => .stmt (.assign ⟨31, 37⟩ [.ident ⟨⟨31, 32⟩, "x"⟩] .assign
    [.lit ⟨⟨36, 37⟩, .int, "2"⟩] 33)) [1, 2, 1]

theorem check_sampleFile : checkPackage id [sampleFile] = .ok sampleDiagnostics := by
  have findingsEq : (Event.run id (packageEvents [sampleFile]) {}).map (·.state.findings) =
      .ok [(.noNewVariables, 33), (.unusedVariable "x", 23)] := by
    rw [(packageEvents_insertRead "" packageCut?_sample).1]
    decide +kernel
  obtain ⟨after, outcome⟩ := readInto_sampleFile.soundPackage.1.exists_run id {}
  rw [outcome] at findingsEq
  have isFound : after.state.findings = _ := Except.ok.inj findingsEq
  rw [checkPackage_of_run outcome, isFound]
  simp [Diagnostic.sorted, List.mergeSort, Finding.diagnostic, sampleDiagnostics]

theorem Reachable.replaceDefine_precise_sample :
    checkPackage id [sampleFile] = .ok sampleDiagnostics ∧
      Fixer.redundantDefine.mend .noNewVariables
          ((sampleFile.enclosing 33).map (·.address)) sampleFile =
        .ok (.defineReplaced "AssignStmt", mendedSample) ∧
      checkPackage id [mendedSample] = .ok [(Finding.unusedVariable "x").diagnostic 23] := by
  have isDiagnostic : Finding.noNewVariables.diagnostic 33 ∈ sampleDiagnostics := by
    simp [sampleDiagnostics]
  obtain ⟨unit, file, address, step, isUnit, isFile, found, defines, unique, precise⟩ :=
    replaceDefine_precise (.read readInto_sampleFile) check_sampleFile isDiagnostic
  obtain ⟨rfl, rfl⟩ := unique 0 [1, 2, 1] _ ⟨sampleFile, rfl, rfl, rfl⟩
  obtain rfl := Option.some.inj isFile
  obtain rfl := Node.stmt.inj (Option.some.inj found)
  obtain ⟨changed, replaced, mends, checked⟩ := precise [⟨⟨31, 32⟩, "x"⟩] rfl
  obtain rfl := Option.some.inj replaced
  exact ⟨check_sampleFile, mends, checked⟩

end GoMend
