import GoMend.Fix.Edit
import GoMend.Proofs.Check.DiscardRead
import GoMend.Proofs.Check.Visits

/-!
# What the token of a define changes

A `:=` that declares nothing leaves the scopes as they are and is reported.  With `=` in its place
the names on its left are looked up, and all of them are known.  The check of the package goes on
as before, and finds the same but for the report.
-/

namespace GoMend

open PlanStep

/-! ### The names on the left -/

theorem CheckState.isSome_lookup?_of_declares {state : CheckState} {name : String}
    (declared : state.declares name) : (Scope.lookup? state.scopes name).isSome := by
  rw [declares] at declared
  cases scopesEq : state.scopes with
  | nil => simp [scopesEq] at declared
  | cons scope scopes =>
      obtain ⟨object, isObject⟩ := Option.isSome_iff_exists.mp declared
      simp only [scopesEq, List.head?_cons, Option.bind_some] at isObject
      simp [Scope.lookup?, isObject]

namespace Event

variable {packageName : String → String} {names : List Ident} {point after : CheckPoint}

/-- A `:=` that declares nothing leaves everything as it is, and its names are known. -/
theorem known_of_run_defineNames
    (outcome : run packageName (names.map .defineName) point = .ok after)
    (notFresh : after.isFresh = false) :
    after = point ∧ ∀ name ∈ names, name.isBlank ∨ point.state.declares name.name := by
  induction names generalizing point with
  | nil => exact ⟨(Except.ok.inj outcome).symm, by simp⟩
  | cons name names ih =>
      rw [List.map_cons, run_cons] at outcome
      obtain ⟨afterEq, known⟩ := ih outcome
      by_cases isKnown : (name.isBlank || point.state.declares name.name) = true
      · rw [next, if_pos isKnown] at afterEq known
        exact ⟨afterEq, List.forall_mem_cons.mpr ⟨by simpa using isKnown, known⟩⟩
      · -- A name that is declared is noted, and the note stays until the end.
        rw [afterEq, next, if_neg isKnown] at notFresh
        cases notFresh

/-- An assignment to names that are known changes nothing. -/
theorem run_assigns (known : ∀ name ∈ names, name.isBlank ∨ point.state.declares name.name) :
    run packageName (names.map .assign) point = .ok point := by
  induction names with
  | nil => rfl
  | cons name names ih =>
      obtain ⟨isKnown, known⟩ := List.forall_mem_cons.mp known
      have unchanged : Check.assigned point.state name = point.state := by
        refine if_neg ?_
        obtain isBlank | declared := isKnown
        · simp [isBlank]
        · have isSome := CheckState.isSome_lookup?_of_declares declared
          simp [Option.isNone_eq_false_iff.mpr isSome]
      rw [List.map_cons, run_cons]
      simpa [failure?, next, unchanged] using ih known

end Event

/-- What stands on the left of an assignment or of the clause of a range. -/
def Stmt.targets : Stmt → List Expr
  | .assign _ lhs _ _ _ => lhs
  | .range _ key value _ _ _ _ => key.toList ++ value.toList
  | _ => []

namespace Node

/-- The events of a statement with `:=`, and those with `=` in its place. -/
theorem events_withoutDefine {mode : Mode} {step changed : Stmt} {tokPos : Pos}
    (isEnd : event (.endDefine tokPos) ∈ (Node.stmt step).plan mode)
    (replaced : step.withoutDefine? = some changed) :
    ∃ lead trail,
      (Node.stmt step).events mode =
        lead ++ (step.targets.flatMap (fun target => (Node.expr target).events .define) ++
          Event.endDefine tokPos :: trail) ∧
      (Node.stmt changed).events mode =
        lead ++ (step.targets.flatMap (fun target => (Node.expr target).events .target) ++
          trail) := by
  obtain ⟨isMode, -⟩ := (event_mem_plan isEnd).2 tokPos rfl
  unfold Stmt.withoutDefine? at replaced
  split at replaced
  · next span lhs rhs tokAt =>
      obtain rfl := Option.some.inj replaced
      obtain rfl | rfl := isMode
      · obtain rfl : tokPos = tokAt := by simpa [plan, stmtPlan] using isEnd
        refine ⟨rhs.flatMap fun value => (Node.expr value).events .value, [], ?_, ?_⟩
        · rw [events_eq]
          simp [plan, stmtPlan, children, stmtChildren, Stmt.targets, List.flatMap_map]
        · rw [events_eq]
          simp [plan, stmtPlan, children, stmtChildren, Stmt.targets, List.flatMap_map]
      · simp [plan] at isEnd
        grind -ring -linarith
  · next span key value operand body tokAt =>
      obtain rfl := Option.some.inj replaced
      have planEq (tok : Option Token) :
          (Node.stmt (.range span key value tok operand body tokAt)).plan mode =
            stmtPlan (.range span key value tok operand body tokAt) := by
        obtain rfl | rfl := isMode <;> rfl
      obtain rfl : tokPos = tokAt := by simpa [planEq, stmtPlan] using isEnd
      let lead := (Node.expr operand).events .value ++ [Event.enter "range"]
      let trail := body.toList.flatMap (fun body => (Node.block body).events .stmt) ++ [Event.leave]
      refine ⟨lead, trail, ?_, ?_⟩
      · rw [events_eq, planEq]
        cases key <;> cases value <;> cases body <;>
          simp [stmtPlan, children, stmtChildren, Stmt.targets, lead, trail]
      · rw [events_eq, planEq]
        cases key <;> cases value <;> cases body <;>
          simp [stmtPlan, children, stmtChildren, Stmt.targets, lead, trail]
  · cases replaced

theorem flatMap_events_names {mode : Mode} {occurs : Ident → Event}
    (planEq : ∀ name, namePlan mode name = [event (occurs name)]) (names : List Ident) :
    (names.map Expr.ident).flatMap (fun target => (Node.expr target).events mode) =
      names.map occurs := by
  induction names with
  | nil => rfl
  | cons name names ih => simp [planEq, ih]

theorem withoutDefine_alike {step changed : Stmt} (replaced : step.withoutDefine? = some changed) :
    Alike (.stmt changed) (.stmt step) := by
  unfold Stmt.withoutDefine? at replaced
  split at replaced
  case h_3 => cases replaced
  all_goals
    obtain rfl := Option.some.inj replaced
    refine alike_stmt rfl ?_
    rw [events_labels (by simp [isFuncLit]), events_labels (by simp [isFuncLit])]
    rfl

end Node

/-! ### The run without the report -/

namespace Event

variable {packageName : String → String}

/-- A check in which a `:=` that was reported is an assignment finds the same but for the report. -/
theorem run_withoutDefine {names : List Ident} {pos : Pos} {start rest : List Event}
    {after : CheckPoint}
    (outcome : run packageName
      (start ++ (names.map .defineName ++ .endDefine pos :: rest)) {} = .ok after)
    (notBefore : .endDefine pos ∉ start) (notAfter : .endDefine pos ∉ rest)
    (isFound : (.noNewVariables, pos) ∈ after.state.found) :
    ∃ other, run packageName (start ++ (names.map .assign ++ rest)) {} = .ok other ∧
      other.state.findings = after.state.findings.erase (.noNewVariables, pos) := by
  obtain ⟨point, startRun, outcome⟩ := exists_of_run_append outcome
  obtain ⟨middle, namesRun, outcome⟩ := exists_of_run_append outcome
  have notFound : (.noNewVariables, pos) ∉ middle.state.found := by
    intro isFound
    obtain passing | ⟨-, isEvent⟩ := (FoundBy.of_run startRun).run namesRun _ isFound
    · cases passing
    · simp [notBefore] at isEvent
  rw [run_cons] at outcome
  obtain ⟨reads, later, foundBy, usedEq, foundEq, same⟩ := exists_noted outcome
  have notLater : (.noNewVariables, pos) ∉ later := by
    intro isFound
    obtain passing | ⟨-, isEvent⟩ := foundBy _ isFound
    · cases passing
    · exact notAfter isEvent
  cases fresh : middle.isFresh with
  | true =>
      -- The `:=` is not reported, and nothing else could be found at its place.
      simp only [next, fresh, if_true] at foundEq
      simp [foundEq, notLater, notFound] at isFound
  | false =>
      obtain ⟨rfl, known⟩ := known_of_run_defineNames namesRun fresh
      have reports : next packageName middle (.endDefine pos) =
          { middle with state := middle.state.reporting pos .noNewVariables } := by
        simp [next, fresh]
      rw [reports] at usedEq foundEq same
      refine ⟨{ after with state := { after.state with found := later ++ middle.state.found } },
        ?_, ?_⟩
      · rw [run_append, startRun]
        show run packageName (names.map .assign ++ rest) middle = _
        rw [run_append, run_assigns known]
        have usedEq : after.state.used = reads ++ middle.state.used := usedEq
        have sameRun := same middle.state.used middle.state.found
        rwa [← usedEq] at sameRun
      · have notFound : (.noNewVariables, pos) ∉ middle.state.found.reverse := by
          simpa using notFound
        simp only [CheckState.findings, foundEq, CheckState.reporting, List.reverse_append,
          List.reverse_cons, List.append_assoc, List.cons_append]
        rw [List.erase_append_right _ notFound, List.erase_cons_head]
        rfl

end Event

/-! ### The package without the report -/

/-- A `:=` that ends in the check of a package belongs to a statement that the check comes to. -/
theorem exists_visits_of_endDefine {files : List File} {pos : Pos}
    (mem : .endDefine pos ∈ packageEvents files) :
    ∃ (unit : Nat) (file : File) (address : Node.Address) (mode : Mode) (step : Stmt),
      files[unit]? = some file ∧
      Node.Visits .file (.file file) address mode (.stmt step) ∧
      event (.endDefine pos) ∈ (Node.stmt step).plan mode := by
  have exists_step {mode : Mode} {file : File}
      (mem : .endDefine pos ∈ (Node.file file).events mode) :
      ∃ address last step, Node.Visits mode (.file file) address last (.stmt step) ∧
        event (.endDefine pos) ∈ (Node.stmt step).plan last ∧ last.isSkim = false := by
    obtain ⟨address, last, owner, visits, isEnd⟩ := Node.exists_visits mem
    obtain ⟨isMode, step, rfl, -⟩ := (Node.event_mem_plan isEnd).2 pos rfl
    exact ⟨address, last, step, visits, isEnd, by obtain rfl | rfl := isMode <;> rfl⟩
  rw [packageEvents, List.mem_append, List.mem_flatMap, List.mem_flatMap] at mem
  obtain ⟨file, -, mem⟩ | ⟨file, isFile, mem⟩ := mem
  · obtain ⟨address, last, step, visits, -, notSkim⟩ := exists_step mem
    cases visits.isSkim_eq_false notSkim (by cases step <;> simp [Node.sort])
  · obtain ⟨address, last, step, visits, isEnd, -⟩ := exists_step mem
    obtain ⟨unit, isFile⟩ := List.mem_iff_getElem?.mp isFile
    exact ⟨unit, file, address, last, step, isFile, visits, isEnd⟩

/-- A `:=` ends only once. -/
theorem not_mem_of_nodup_spots {start middle rest : List Event} {pos : Pos}
    (nodup : (spots (start ++ (middle ++ .endDefine pos :: rest))).Nodup) :
    .endDefine pos ∉ start ∧ .endDefine pos ∉ rest := by
  have mem_spots {events : List Event} (isEnd : .endDefine pos ∈ events) : pos ∈ spots events :=
    List.mem_filterMap.mpr ⟨_, isEnd, rfl⟩
  have isSpot : spots (.endDefine pos :: rest) = pos :: spots rest := rfl
  rw [spots_append, spots_append, isSpot, ← List.append_assoc, List.nodup_middle,
    List.nodup_cons, List.append_assoc] at nodup
  refine ⟨fun isEnd => nodup.1 ?_, fun isEnd => nodup.1 ?_⟩
  · exact List.mem_append_left _ (mem_spots isEnd)
  · exact List.mem_append_right _ (List.mem_append_right _ (mem_spots isEnd))

/-- A report about missing new names was found on the way. -/
theorem CheckState.mem_found_of_diagnostic {state : CheckState} {pos : Pos}
    (isDiagnostic : Finding.noNewVariables.diagnostic pos ∈
      Diagnostic.sorted (state.findings.map fun (finding, pos) => finding.diagnostic pos)) :
    (.noNewVariables, pos) ∈ state.found := by
  obtain ⟨⟨finding, place⟩, isFound, same⟩ :=
    List.mem_map.mp (Diagnostic.mem_sorted.mp isDiagnostic)
  obtain ⟨sameMessage, rfl⟩ := Diagnostic.mk.inj same
  obtain rfl := Finding.eq_noNewVariables sameMessage
  simp only [findings, List.mem_append, List.mem_reverse] at isFound
  obtain (isFound | isLocal) | isImport := isFound
  · exact isFound
  · obtain ⟨object, -, same⟩ := List.mem_map.mp isLocal
    cases same
  · obtain ⟨path, same⟩ | ⟨path, name, same⟩ := eq_of_mem_unusedImports isImport <;> cases same

namespace SoundPackage

variable {files : List File} {packageName : String → String}

/-- An assignment in the place of a `:=` that is reported takes away the report. -/
theorem check_withoutDefine (package : SoundPackage files) {unit : Nat} {file : File}
    {address : Node.Address} {mode : Mode} {step changed : Stmt} {names : List Ident} {pos : Pos}
    {diagnostics : List Diagnostic} (isFile : files[unit]? = some file)
    (visits : Node.Visits .file (.file file) address mode (.stmt step))
    (isEnd : event (.endDefine pos) ∈ (Node.stmt step).plan mode)
    (replaced : step.withoutDefine? = some changed)
    (areNames : step.targets = names.map .ident)
    (checked : checkPackage packageName files = .ok diagnostics)
    (isDiagnostic : Finding.noNewVariables.diagnostic pos ∈ diagnostics) :
    checkPackage packageName (files.set unit (file.modify (fun _ => .stmt changed) address)) =
      .ok (diagnostics.erase (Finding.noNewVariables.diagnostic pos)) := by
  obtain ⟨after, outcome⟩ := package.exists_run packageName {}
  obtain rfl := Except.ok.inj (checked.symm.trans (checkPackage_of_run outcome))
  have notSkim : mode.isSkim = false := by
    obtain ⟨rfl | rfl, -⟩ := (Node.event_mem_plan isEnd).2 pos rfl <;> rfl
  obtain ⟨context, isContext, rfl⟩ := exists_packageContext isFile visits notSkim
    (by cases step <;> simp [Node.sort])
  let change : Node → Node := fun _ => .stmt changed
  obtain ⟨oldEvents, newEvents⟩ := packageEvents_modify isContext isFile visits.get?
    (show Node.Alike (change (.stmt step)) (.stmt step) from Node.withoutDefine_alike replaced)
  obtain ⟨lead, trail, oldOwn, newOwn⟩ := Node.events_withoutDefine isEnd replaced
  have defined : step.targets.flatMap (fun target => (Node.expr target).events .define) =
      names.map .defineName :=
    areNames ▸ Node.flatMap_events_names (fun _ => rfl) names
  have assigned : step.targets.flatMap (fun target => (Node.expr target).events .target) =
      names.map .assign :=
    areNames ▸ Node.flatMap_events_names (fun _ => rfl) names
  have oldEq : packageEvents files = (context.before ++ lead) ++
      (names.map .defineName ++ .endDefine pos :: (trail ++ context.after)) := by
    rw [oldEvents, oldOwn, defined]
    simp only [List.append_assoc, List.cons_append]
  have newEq : packageEvents (files.set unit (file.modify (fun _ => .stmt changed) address)) =
      (context.before ++ lead) ++ (names.map .assign ++ (trail ++ context.after)) := by
    rw [newEvents, newOwn, assigned]
    simp only [List.append_assoc]
  have nodup := package.nodup_spots
  rw [oldEq] at outcome nodup
  obtain ⟨other, newOutcome, findingsEq⟩ := Event.run_withoutDefine outcome
    (not_mem_of_nodup_spots nodup).1 (not_mem_of_nodup_spots nodup).2
    (CheckState.mem_found_of_diagnostic isDiagnostic)
  rw [← newEq] at newOutcome
  rw [checkPackage_of_run newOutcome, findingsEq]
  exact congrArg _ (sorted_map_erase fun other => Finding.eq_noNewVariables)

end SoundPackage

end GoMend
