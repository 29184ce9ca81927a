import GoMend.Proofs.Check.Files
import GoMend.Proofs.Layout.Alike

/-!
# The check of a package at other positions

The scope check copies positions and never compares them.  So it finds in trees at other positions
what it finds in these trees, at the positions in their place.
-/

namespace GoMend

open PlanStep

variable (place : Pos → Pos)

/-! ### Plans and events -/

/-- An event at other positions. -/
def Event.relocated : Event → Event
  | .use name => .use (name.relocated place)
  | .select name => .select (name.relocated place)
  | .assign name => .assign (name.relocated place)
  | .key name => .key (name.relocated place)
  | .declare name kind => .declare (name.relocated place) kind
  | .declareLocal name => .declareLocal (name.relocated place)
  | .param name => .param (name.relocated place)
  | .defineName name => .defineName (name.relocated place)
  | .notAName target => .notAName (target.relocated place)
  | .endDefine tokPos => .endDefine (place tokPos)
  | .label name => .label (name.relocated place)
  | .useLabel name => .useLabel (name.relocated place)
  | .symbol name tokPos => .symbol (name.relocated place) (place tokPos)
  | .notASymbol tokPos => .notASymbol (place tokPos)
  | .bind spec => .bind (spec.relocated place)
  | other => other

/-- A way of visiting at other positions. -/
def Mode.relocated : Mode → Mode
  | .symbol tokPos => .symbol (place tokPos)
  | other => other

/-- A step of a plan at other positions. -/
def PlanStep.relocated : PlanStep → PlanStep
  | .event happens => .event (happens.relocated place)
  | .visit mode index => .visit (mode.relocated place) index

attribute [local simp] Event.relocated Mode.relocated PlanStep.relocated

@[simp]
theorem PlanStep.relocated_visits (mode : Mode) (start count : Nat) :
    (visits mode start count).map (PlanStep.relocated place) =
      visits (mode.relocated place) start count := by
  simp [visits]

namespace Node

theorem namePlan_relocated (mode : Mode) (name : Ident) :
    namePlan (mode.relocated place) (name.relocated place) =
      (namePlan mode name).map (PlanStep.relocated place) := by
  cases mode with
  | label =>
      simp only [Mode.relocated, namePlan, Ident.isBlank_relocated]
      by_cases isBlank : name.isBlank <;> simp [isBlank]
  | funcName =>
      simp only [Mode.relocated, namePlan, Ident.name_relocated]
      by_cases isInit : name.name = "init" <;> simp [isInit]
  | _ => rfl

theorem exprPlan_relocated (isTarget isElement : Bool) (value : Expr) :
    exprPlan isTarget isElement (value.relocated place) =
      (exprPlan isTarget isElement value).map (PlanStep.relocated place) := by
  cases value <;> cases isTarget <;> cases isElement <;>
    simp [exprPlan, exprChildren, Option.length_toList]

theorem stmtPlan_relocated (step : Stmt) :
    stmtPlan (step.relocated place) = (stmtPlan step).map (PlanStep.relocated place) := by
  cases step with
  | assign span lhs tok rhs tokPos =>
      by_cases isDefine : tok = .define <;> by_cases isAssign : tok = .assign <;>
        simp [stmtPlan, isDefine, isAssign]
  | range span key value tok operand body tokPos =>
      by_cases isDefine : tok = some .define <;> by_cases isAssign : tok = some .assign <;>
        simp [stmtPlan, isDefine, isAssign, Option.length_toList]
  | _ =>
      simp [stmtPlan, stmtChildren, Option.length_toList]

theorem labelsPlan_relocated (node : Node) :
    (node.relocated place).plan .labels = (node.plan .labels).map (PlanStep.relocated place) := by
  have ofAll (node : Node)
      (own : node.plan .labels = (visits .labels 0 node.children.length).reverse)
      (own' : (node.relocated place).plan .labels =
        (visits .labels 0 (node.relocated place).children.length).reverse) :
      (node.relocated place).plan .labels = (node.plan .labels).map (PlanStep.relocated place) := by
    rw [own, own', children_relocated, List.length_map, List.map_reverse, PlanStep.relocated_visits]
    rfl
  cases node with
  | expr value =>
      cases value with
      | ident name => rfl
      | funcLit => rfl
      | _ => exact ofAll _ rfl rfl
  | stmt step =>
      cases step with
      | labeled => rfl
      | _ => exact ofAll _ rfl rfl
  | _ => exact ofAll _ rfl rfl

theorem plan_expr_relocated {mode : Mode} (notLabels : mode ≠ .labels) (value : Expr) :
    (expr (value.relocated place)).plan (mode.relocated place) =
      ((expr value).plan mode).map (PlanStep.relocated place) := by
  by_cases isName : ∃ name, value = .ident name
  · obtain ⟨name, rfl⟩ := isName
    rw [plan_ident]
    exact (plan_ident _ _).trans (namePlan_relocated place mode name)
  · have notName : ∀ name, value ≠ .ident name := fun name isIdent => isName ⟨name, isIdent⟩
    have ofForm (isTarget isElement : Bool) {mode : Mode} (same : mode.relocated place = mode)
        (form : ∀ value : Expr, (∀ name, value ≠ .ident name) →
          (expr value).plan mode = exprPlan isTarget isElement value) :
        (expr (value.relocated place)).plan (mode.relocated place) =
          ((expr value).plan mode).map (PlanStep.relocated place) := by
      rw [same, form value notName, form (value.relocated place) ?_, exprPlan_relocated]
      cases value <;> simp at notName ⊢
    cases mode with
    | labels => exact absurd rfl notLabels
    | params =>
        cases value with
        | ident name => exact absurd rfl (notName name)
        | funcType type => simp [plan, Option.length_toList]
        | _ => rfl
    | value | operand | key =>
        refine ofForm false false rfl fun value notName => ?_
        cases value <;> first | rfl | exact absurd rfl (notName _)
    | target =>
        refine ofForm true false rfl fun value notName => ?_
        cases value <;> first | rfl | exact absurd rfl (notName _)
    | element =>
        refine ofForm false true rfl fun value notName => ?_
        cases value <;> first | rfl | exact absurd rfl (notName _)
    | _ => cases value <;> first | rfl | exact absurd rfl (notName _)

theorem plan_stmt_relocated {mode : Mode} (notLabels : mode ≠ .labels) (step : Stmt) :
    (stmt (step.relocated place)).plan (mode.relocated place) =
      ((stmt step).plan mode).map (PlanStep.relocated place) := by
  have own (step : Stmt) : (stmt step).plan .stmt = stmtPlan step := by rw [plan]
  cases mode with
  | stmt =>
      rw [own]
      exact (own _).trans (stmtPlan_relocated place step)
  | guard =>
      have other {step : Stmt}
          (notAssign : ∀ span lhs tok rhs tokPos, step ≠ .assign span lhs tok rhs tokPos) :
          (stmt step).plan .guard = stmtPlan step := by
        cases step <;> first | rfl | exact absurd rfl (notAssign _ _ _ _ _)
      by_cases isAssign : ∃ span lhs tok rhs tokPos, step = .assign span lhs tok rhs tokPos
      · obtain ⟨span, lhs, tok, rhs, tokPos, rfl⟩ := isAssign
        cases lhs <;> simp [plan]
      · push Not at isAssign
        rw [other isAssign]
        refine (other fun _ _ _ _ _ => ?_).trans (stmtPlan_relocated place step)
        cases step with
        | assign => exact absurd rfl (isAssign _ _ _ _ _)
        | caseClause span exprs body colon => cases exprs <;> simp
        | _ => simp
  | caseClause =>
      cases step with
      | caseClause span exprs body colon =>
          cases exprs <;> simp [plan]
      | _ => rfl
  | commClause =>
      cases step with
      | commClause span comm body colon =>
          simp [plan, Option.length_toList]
      | _ => rfl
  | function | caseBody | commBody =>
      cases step with
      | block body => simp [plan]
      | _ => rfl
  | labels => exact absurd rfl notLabels
  | _ => cases step <;> rfl

/-- The plan of a node at other positions. -/
theorem plan_relocated (mode : Mode) (node : Node) :
    (node.relocated place).plan (mode.relocated place) =
      (node.plan mode).map (PlanStep.relocated place) := by
  by_cases isLabels : mode = .labels
  · subst isLabels
    exact labelsPlan_relocated place node
  cases node with
  | expr value => exact plan_expr_relocated place isLabels value
  | stmt step => exact plan_stmt_relocated place isLabels step
  | spec item =>
      cases item with
      | valueSpec span names type values =>
          cases mode <;>
            first
            | rfl
            | exact absurd rfl isLabels
            | simp [plan, Option.length_toList]
          split <;> rfl
      | _ =>
          cases mode <;>
            first
            | rfl
            | exact absurd rfl isLabels
  | decl item =>
      cases item with
      | func item =>
          obtain ⟨span, recv, name, type, body⟩ := item
          cases mode <;> cases recv <;>
            first
            | rfl
            | exact absurd rfl isLabels
            | simp [plan, FuncDecl.relocated, Option.length_toList]
      | gen item =>
          cases mode <;>
            first
            | rfl
            | exact absurd rfl isLabels
            | simp [plan]
  | file source =>
      cases mode <;>
        first
        | rfl
        | exact absurd rfl isLabels
        | simp [plan, File.relocated]
  | _ =>
      cases mode <;>
        first
        | rfl
        | exact absurd rfl isLabels
        | simp [plan]

/-- The events of a node at other positions. -/
theorem events_relocated (mode : Mode) (node : Node) :
    (node.relocated place).events (mode.relocated place) =
      (node.events mode).map (Event.relocated place) := by
  rw [events_eq, events_eq, plan_relocated, List.flatMap_map, List.map_flatMap]
  refine List.flatMap_congr fun step _ => ?_
  cases step with
  | event happens => rfl
  | visit visited index =>
      simp only [PlanStep.relocated, PlanStep.events, children_relocated, List.getElem?_map]
      cases found : node.children[index]? with
      | none => rfl
      | some child => exact events_relocated visited child
termination_by sizeOf node
decreasing_by exact sizeOf_lt_of_mem_children (List.mem_of_getElem? found)

end Node

/-! ### States -/

/-- An object declared at another position. -/
def Object.relocated (object : Object) : Object :=
  { object with pos := place object.pos }

/-- A scope with its objects declared at other positions. -/
def Scope.relocated (scope : Scope) : Scope :=
  { scope with objects := scope.objects.map (Object.relocated place) }

/-- A label at another position. -/
def Label.relocated (label : Label) : Label :=
  { label with pos := place label.pos }

/-- An import that has to be read, at another position. -/
def ImportedName.relocated (entry : ImportedName) : ImportedName :=
  ⟨entry.object.relocated place, entry.spec.relocated place⟩

/-- Findings at other positions. -/
def relocatedFindings (findings : List (Finding × Pos)) : List (Finding × Pos) :=
  findings.map fun finding => (finding.1, place finding.2)

/-- The state of a check at other positions. -/
def CheckState.relocated (state : CheckState) : CheckState where
  scopes := state.scopes.map (Scope.relocated place)
  nextId := state.nextId
  used := state.used
  locals := state.locals.map (Object.relocated place)
  imports := state.imports.map (ImportedName.relocated place)
  labels := state.labels.map (Label.relocated place)
  lenient := state.lenient
  found := relocatedFindings place state.found

/-- A point of a check at other positions. -/
def CheckPoint.relocated (point : CheckPoint) : CheckPoint where
  state := point.state.relocated place
  outerLabels := point.outerLabels.map fun labels => labels.map (Label.relocated place)
  symbols := point.symbols.map fun symbol => symbol.map (Object.relocated place)
  isFresh := point.isFresh

@[simp]
theorem Scope.find?_relocated (scope : Scope) (name : String) :
    (scope.relocated place).find? name = (scope.find? name).map (Object.relocated place) := by
  simp only [Scope.find?, Scope.relocated, List.find?_map, Function.comp_def]
  rfl

@[simp]
theorem Scope.lookup?_relocated (scopes : List Scope) (name : String) :
    Scope.lookup? (scopes.map (Scope.relocated place)) name =
      (Scope.lookup? scopes name).map (Object.relocated place) := by
  induction scopes with
  | nil => rfl
  | cons scope scopes ih =>
      simp only [Scope.lookup?, List.map_cons, List.findSome?_cons, Scope.find?_relocated] at ih ⊢
      cases scope.find? name with
      | none => exact ih
      | some object => rfl

namespace CheckState

variable (state : CheckState)

@[simp]
theorem declares_relocated (name : String) :
    (state.relocated place).declares name = state.declares name := by
  cases scopesEq : state.scopes <;> simp [declares, relocated, scopesEq]

theorem holding_relocated (object : Object) :
    (state.relocated place).holding (object.relocated place) =
      (state.holding object).relocated place := by
  obtain ⟨scopes, nextId, used, locals, imports, labels, lenient, found⟩ := state
  cases scopes <;> simp [holding, relocated, Scope.add, Scope.relocated]

end CheckState

namespace Check

variable (state : CheckState) (ident : Ident)

theorem declared_relocated (kind : ObjectKind) :
    declared (state.relocated place) (ident.relocated place) kind =
      ((declared state ident kind).1.map (Object.relocated place),
        (declared state ident kind).2.relocated place) := by
  simp only [declared, Ident.isBlank_relocated, CheckState.declares_relocated, Ident.name_relocated]
  split
  · rfl
  · split
    · rfl
    · exact Prod.ext rfl (CheckState.holding_relocated place state.made
        (state.fresh ident.name kind ident.span.start))

theorem declaredLocal_relocated :
    declaredLocal (state.relocated place) (ident.relocated place) =
      (declaredLocal state ident).relocated place := by
  simp only [declaredLocal, declared_relocated]
  rcases declared state ident .var with ⟨_ | object, after⟩ <;> rfl

theorem resolved_relocated :
    resolved (state.relocated place) (ident.relocated place) =
      ((resolved state ident).1.map (Object.relocated place),
        (resolved state ident).2.relocated place) := by
  have known : Scope.lookup? (state.relocated place).scopes ident.name =
      (Scope.lookup? state.scopes ident.name).map (Object.relocated place) :=
    Scope.lookup?_relocated place state.scopes ident.name
  simp only [resolved, Ident.name_relocated, known]
  cases Scope.lookup? state.scopes ident.name with
  | some object => rfl
  | none =>
      show _ = (none, CheckState.relocated place (if _ then _ else _))
      rw [apply_ite (CheckState.relocated place)]
      rfl

theorem usedName_relocated :
    usedName (state.relocated place) (ident.relocated place) =
      (usedName state ident).relocated place := by
  simp only [usedName, Ident.isBlank_relocated, resolved_relocated]
  split
  · rfl
  · rcases resolved state ident with ⟨_ | object, after⟩
    · rfl
    · show (if object.kind = .package then _ else _) = CheckState.relocated place (if _ then _ else _)
      rw [apply_ite (CheckState.relocated place)]
      rfl

theorem assigned_relocated :
    assigned (state.relocated place) (ident.relocated place) =
      (assigned state ident).relocated place := by
  have known : (Scope.lookup? (state.relocated place).scopes ident.name).isNone =
      (Scope.lookup? state.scopes ident.name).isNone := by
    rw [CheckState.relocated, Scope.lookup?_relocated, Option.isNone_map]
  simp only [assigned, Ident.isBlank_relocated, Ident.name_relocated, known]
  rw [apply_ite (CheckState.relocated place)]
  rfl

theorem usedKey_relocated :
    usedKey (state.relocated place) (ident.relocated place) =
      (usedKey state ident).relocated place := by
  have known : Scope.lookup? (state.relocated place).scopes ident.name =
      (Scope.lookup? state.scopes ident.name).map (Object.relocated place) :=
    Scope.lookup?_relocated place state.scopes ident.name
  simp only [usedKey, Ident.name_relocated, known]
  cases Scope.lookup? state.scopes ident.name <;> rfl

theorem declaredParam_relocated :
    declaredParam (state.relocated place) (ident.relocated place) =
      (declaredParam state ident).relocated place := by
  simp only [declaredParam, Ident.isBlank_relocated, CheckState.declares_relocated,
    Ident.name_relocated]
  split
  · rfl
  · split
    · rfl
    · exact CheckState.holding_relocated place state.made
        (state.fresh ident.name .var ident.span.start)

theorem any_labels_relocated :
    ((state.relocated place).labels.any fun label => label.name = (ident.relocated place).name) =
      state.labels.any fun label => label.name = ident.name := by
  simp only [CheckState.relocated, List.any_map]
  rfl

theorem usedLabel_relocated :
    usedLabel (state.relocated place) (ident.relocated place) =
      (usedLabel state ident).relocated place := by
  rw [usedLabel, usedLabel, any_labels_relocated, apply_ite (CheckState.relocated place)]
  refine if_congr Iff.rfl ?_ rfl
  simp only [CheckState.relocated, List.map_map, CheckState.mk.injEq, true_and, and_true]
  refine List.map_congr_left fun label _ => ?_
  show (if label.name = ident.name then _ else _) = Label.relocated place (if _ then _ else _)
  rw [apply_ite (Label.relocated place)]
  rfl

theorem declaredLabel_relocated :
    declaredLabel (state.relocated place) (ident.relocated place) =
      (declaredLabel state ident).relocated place := by
  rw [declaredLabel, declaredLabel, any_labels_relocated, apply_ite (CheckState.relocated place)]
  refine if_congr Iff.rfl rfl ?_
  simp [CheckState.relocated, Label.relocated]

theorem boundName?_relocated (packageName : String → String) (spec : ImportSpec) :
    boundName? packageName (spec.relocated place) = boundName? packageName spec := by
  obtain ⟨span, name, path⟩ := spec
  cases name <;> rfl

theorem bound_relocated (packageName : String → String) (spec : ImportSpec) :
    bound (state.relocated place) packageName (spec.relocated place) =
      (bound state packageName spec).relocated place := by
  have lenient : (if (spec.relocated place).name.any (·.name = ".") then
        { state.relocated place with lenient := true } else state.relocated place) =
      (if spec.name.any (·.name = ".") then { state with lenient := true } else state).relocated
        place := by
    obtain ⟨span, name, path⟩ := spec
    cases name with
    | none => rfl
    | some name =>
        rw [apply_ite (CheckState.relocated place)]
        rfl
  simp only [bound, lenient, boundName?_relocated]
  generalize (if spec.name.any (·.name = ".") then { state with lenient := true } else state) =
    state
  cases boundName? packageName spec with
  | none => rfl
  | some name =>
      simp only [CheckState.declares_relocated]
      cases state.declares name with
      | true => rfl
      | false =>
          have holding := CheckState.holding_relocated place state.made
            (state.fresh name .package spec.span.start)
          let entry : ImportedName := ⟨state.fresh name .package spec.span.start, spec⟩
          exact congrArg (fun after : CheckState =>
            { after with imports := entry.relocated place :: after.imports }) holding

theorem unusedLabels_relocated (labels : List Label) :
    unusedLabels (labels.map (Label.relocated place)) =
      relocatedFindings place (unusedLabels labels) := by
  simp only [unusedLabels, relocatedFindings, List.filter_map, List.map_map]
  rfl

end Check

/-! ### Runs -/

namespace Event

theorem failure?_relocated (happens : Event) :
    (happens.relocated place).failure? = happens.failure? := by
  cases happens with
  | notAName target => simp only [relocated, failure?, Node.print_expr_relocated]
  | _ => rfl

/-- What an event does at other positions. -/
theorem next_relocated (packageName : String → String) (point : CheckPoint) (happens : Event) :
    (happens.relocated place).next packageName (point.relocated place) =
      (happens.next packageName point).relocated place := by
  obtain ⟨state, outerLabels, symbols, isFresh⟩ := point
  have ofState {new new' : CheckState} {fresh : Bool} (same : new' = new.relocated place) :
      (⟨new', outerLabels.map fun labels => labels.map (Label.relocated place),
        symbols.map fun symbol => symbol.map (Object.relocated place), fresh⟩ : CheckPoint) =
        CheckPoint.relocated place ⟨new, outerLabels, symbols, fresh⟩ := by
    rw [same]
    rfl
  cases happens with
  | leave =>
      obtain ⟨scopes, nextId, used, locals, imports, labels, lenient, found⟩ := state
      cases scopes <;> rfl
  | use name => exact ofState (Check.usedName_relocated place state name)
  | select name =>
      refine ofState ?_
      rw [apply_ite (CheckState.relocated place)]
      refine if_congr Iff.rfl (Check.usedName_relocated place state name) ?_
      exact congrArg Prod.snd (Check.resolved_relocated place state name)
  | assign name => exact ofState (Check.assigned_relocated place state name)
  | key name => exact ofState (Check.usedKey_relocated place state name)
  | declare name kind =>
      exact ofState (congrArg Prod.snd (Check.declared_relocated place state name kind))
  | declareLocal name => exact ofState (Check.declaredLocal_relocated place state name)
  | param name => exact ofState (Check.declaredParam_relocated place state name)
  | defineName name =>
      simp only [next, relocated, CheckPoint.relocated, CheckState.declares_relocated,
        Ident.isBlank_relocated, Ident.name_relocated]
      split
      · rfl
      · exact ofState (Check.declaredLocal_relocated place state name)
  | notAName target =>
      simp only [next, relocated, Node.print_expr_relocated]
      cases (Node.expr target).print with
      | error => rfl
      | ok text =>
          refine ofState ?_
          rw [Expr.span_relocated]
          rfl
  | endDefine tokPos => cases isFresh <;> rfl
  | label name => exact ofState (Check.declaredLabel_relocated place state name)
  | useLabel name => exact ofState (Check.usedLabel_relocated place state name)
  | closeLabels =>
      simp only [next, relocated, CheckPoint.relocated, CheckState.relocated,
        Check.unusedLabels_relocated, CheckPoint.mk.injEq, CheckState.mk.injEq, List.map_tail,
        true_and, and_true]
      refine ⟨?_, ?_⟩
      · cases outerLabels <;> rfl
      · simp [relocatedFindings]
  | symbol name tokPos =>
      have isBlank := Ident.isBlank_relocated place name
      cases blank : name.isBlank with
      | true => simp only [next, relocated, isBlank, blank, if_true]; rfl
      | false =>
          simp only [next, relocated, isBlank, blank, Bool.false_eq_true, if_false]
          cases symbols <;> rfl
  | clause =>
      have first : (symbols.map fun symbol => symbol.map (Object.relocated place)).headD none =
          (symbols.headD none).map (Object.relocated place) := by
        cases symbols <;> rfl
      simp only [next, relocated, CheckPoint.relocated, first]
      cases symbols.headD none with
      | none => rfl
      | some object =>
          simp only [Option.map_some, CheckState.declares_relocated]
          show (if state.declares object.name then _ else _) = _
          split
          · rfl
          · exact ofState (CheckState.holding_relocated place state object)
  | closeSwitch => simp [next, relocated, CheckPoint.relocated, List.map_tail]
  | bind spec => exact ofState (Check.bound_relocated place state packageName spec)
  | _ => rfl

/-- A check at other positions is the check of these ones. -/
theorem run_relocated (packageName : String → String) (events : List Event) (point : CheckPoint) :
    run packageName (events.map (relocated place)) (point.relocated place) =
      (run packageName events point).map (CheckPoint.relocated place) := by
  induction events generalizing point with
  | nil => rfl
  | cons happens events ih =>
      rw [List.map_cons, run_cons, run_cons, failure?_relocated, next_relocated]
      cases happens.failure? with
      | none => exact ih _
      | some error => rfl

end Event

/-! ### Findings -/

section

variable {place}

theorem CheckState.unusedLocals_relocated (state : CheckState) :
    (state.relocated place).unusedLocals = relocatedFindings place state.unusedLocals := by
  simp only [unusedLocals, relocatedFindings, relocated, ← List.map_reverse, List.filter_map,
    List.map_map]
  rfl

theorem CheckState.unusedImports_relocated (state : CheckState) :
    (state.relocated place).unusedImports = relocatedFindings place state.unusedImports := by
  simp only [unusedImports, relocatedFindings, relocated, ← List.map_reverse, List.filter_map,
    List.map_map]
  refine List.map_congr_left fun entry _ => ?_
  obtain ⟨object, span, name, path⟩ := entry
  cases name <;> rfl

theorem CheckState.findings_relocated (state : CheckState) :
    (state.relocated place).findings = relocatedFindings place state.findings := by
  rw [findings, unusedLocals_relocated, unusedImports_relocated]
  simp [findings, relocatedFindings, relocated]

/-- The findings of a file at other positions. -/
def FileFindings.relocated (place : Pos → Pos) (part : FileFindings) : FileFindings where
  noted := relocatedFindings place part.noted
  locals := relocatedFindings place part.locals
  imports := relocatedFindings place part.imports

variable (absent : place noPos = noPos)

include absent

theorem Scope.outermost_relocated : Scope.outermost.relocated place = Scope.outermost := by
  simp [Scope.outermost, Scope.relocated, Object.relocated, absent, Function.comp_def]

theorem CheckPoint.start_relocated : CheckPoint.relocated place {} = {} := by
  have package : Scope.relocated place { kind := "package" } = { kind := "package" } := rfl
  simp [CheckPoint.relocated, CheckState.relocated, Scope.outermost_relocated absent, package,
    relocatedFindings]

/-- The findings of a package at other positions are its findings at these positions. -/
theorem packageFindings_relocated (packageName : String → String) (files : List File) :
    packageFindings packageName (files.map (File.relocated place)) =
      (packageFindings packageName files).map (relocatedFindings place) := by
  have events (mode : Mode) (same : mode.relocated place = mode) :
      ((files.map (File.relocated place)).flatMap fun file => (Node.file file).events mode) =
        (files.flatMap fun file => (Node.file file).events mode).map (Event.relocated place) := by
    rw [List.flatMap_map, List.map_flatMap]
    refine List.flatMap_congr fun file _ => ?_
    rw [← Node.events_relocated, same]
    rfl
  have start := CheckPoint.start_relocated absent
  rw [packageFindings_eq, packageFindings_eq, packageEvents, packageEvents, events _ rfl,
    events _ rfl, ← List.map_append]
  nth_rewrite 1 [← start]
  rw [Event.run_relocated]
  cases Event.run packageName _ _ with
  | error => rfl
  | ok after => exact congrArg Except.ok after.state.findings_relocated

/-- A file at other positions finds the same things. -/
theorem File.findings_relocated (packageName : String → String) (names : List String)
    (file : File) :
    File.findings packageName names (file.relocated place) =
      (File.findings packageName names file).map (FileFindings.relocated place) := by
  have start : CheckPoint.relocated place { state := .alone names } = { state := .alone names } := by
    have package (objects : List Object) :
        Scope.relocated place { kind := "package", objects } =
          { kind := "package", objects := objects.map (Object.relocated place) } :=
      rfl
    simp [CheckPoint.relocated, CheckState.relocated, CheckState.alone, package,
      Scope.outermost_relocated absent, Object.relocated, relocatedFindings, absent,
      Function.comp_def]
  have events : (Node.file (file.relocated place)).events .file =
      ((Node.file file).events .file).map (Event.relocated place) :=
    Node.events_relocated place .file (.file file)
  rw [File.findings, File.findings, events]
  nth_rewrite 1 [← start]
  rw [Event.run_relocated]
  cases Event.run packageName _ _ with
  | error => rfl
  | ok after =>
      simp only [Except.map, FileFindings.relocated, ← CheckState.unusedLocals_relocated,
        ← CheckState.unusedImports_relocated]
      simp [relocatedFindings, CheckPoint.relocated, CheckState.relocated]

end

end GoMend
