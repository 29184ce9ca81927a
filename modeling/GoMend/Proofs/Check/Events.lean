import GoMend.Check.Package
import GoMend.Proofs.Tree.Resemble

/-!
# The events of a scope check

What a scope check does on its way through a tree is a list of events: names are read and declared,
scopes are entered and left.  The events of a node are those of a plan, which says in which order
the children of the node are visited and what happens between the visits.  A plan knows nothing
about the children but how many there are, so that a change below a node leaves its plan alone.
-/

namespace GoMend

/-- One step of a scope check. -/
inductive Event where
  | enter (kind : String)
  | leave
  /-- A name is read as a value. -/
  | use (name : Ident)
  /-- A name is read before a selector. -/
  | select (name : Ident)
  | assign (name : Ident)
  /-- A name is the key of an element of a literal. -/
  | key (name : Ident)
  | declare (name : Ident) (kind : ObjectKind)
  | declareLocal (name : Ident)
  | param (name : Ident)
  /-- A name stands on the left of `:=`. -/
  | defineName (name : Ident)
  /-- Something else than a name stands on the left of `:=`. -/
  | notAName (target : Expr)
  | endDefine (tokPos : Pos)
  | openLabels
  | label (name : Ident)
  | useLabel (name : Ident)
  | closeLabels
  | openSwitch
  /-- The guard of a type switch declares a variable. -/
  | symbol (name : Ident) (tokPos : Pos)
  /-- The guard of a type switch has something else than a name on its left. -/
  | notASymbol (tokPos : Pos)
  /-- The variable of a type switch is declared in a clause. -/
  | clause
  | closeSwitch
  | beginFile
  | bind (spec : ImportSpec)
  | reject (error : CheckError)

/-- The state of a check between two events. -/
structure CheckPoint where
  state : CheckState := {}
  /-- The labels of the functions around the one that is being checked, the innermost one first. -/
  outerLabels : List (List Label) := []
  /-- The variables of the switches around the place of the check, the innermost one first. -/
  symbols : List (Option Object) := []
  /-- Whether the `:=` that is being checked has declared a name. -/
  isFresh : Bool := false

namespace CheckPoint

/-- The point after a part of a check. -/
def perform (point : CheckPoint) (check : Check Unit) : Except CheckError CheckPoint :=
  (check.run point.state).map fun result => { point with state := result.2 }

end CheckPoint

namespace Event

/-- The part of a check that reports the labels that are not used. -/
def reportLabels : Check Unit := do
  (← get).labels.forM fun label => do
    if !label.used then
      Check.report label.pos (.unusedLabel label.name)

/-- The point after an event. -/
def step (packageName : String → String) (point : CheckPoint) :
    Event → Except CheckError CheckPoint
  | .enter kind =>
      point.perform (modify fun state => { state with scopes := { kind } :: state.scopes })
  | .leave => point.perform (modify fun state => { state with scopes := state.scopes.tail })
  | .use name => point.perform (Check.use name)
  | .select name =>
      point.perform do
        if name.isBlank then
          Check.use name
        else
          let _ ← Check.resolve name
  | .assign name => point.perform (Check.assignTo name)
  | .key name => point.perform (Check.useKey name)
  | .declare name kind =>
      point.perform do
        let _ ← Check.declare name kind
  | .declareLocal name => point.perform (Check.declareLocal name)
  | .param name => point.perform (Check.declareParam name)
  | .defineName name =>
      if name.isBlank || (point.state.scopes.head?.bind (·.find? name.name)).isSome then
        .ok point
      else
        CheckPoint.perform { point with isFresh := true } (Check.declareLocal name)
  | .notAName target =>
      point.perform do
        match (Node.expr target).print with
        | .error error => throw (.notPrintable error)
        | .ok text => Check.report target.span.start (.notAName text)
  | .endDefine tokPos =>
      if point.isFresh then
        .ok { point with isFresh := false }
      else
        point.perform (Check.report tokPos .noNewVariables)
  | .openLabels =>
      .ok { point with
            state := { point.state with labels := [] }
            outerLabels := point.state.labels :: point.outerLabels }
  | .label name => point.perform (Check.declareLabel name)
  | .useLabel name => point.perform (Check.useLabel name)
  | .closeLabels =>
      CheckPoint.perform { point with outerLabels := point.outerLabels.tail } do
        reportLabels
        modify fun state => { state with labels := point.outerLabels.headD [] }
  | .openSwitch => .ok { point with symbols := none :: point.symbols }
  | .symbol name tokPos =>
      if name.isBlank then
        point.perform (Check.report tokPos .noNewVariable)
      else
        let object : Object := ⟨point.state.nextId, name.name, .var, name.span.start⟩
        .ok { point with
              state := { point.state with
                nextId := point.state.nextId + 1
                locals := object :: point.state.locals }
              symbols := some object :: point.symbols.tail }
  | .notASymbol tokPos => point.perform (Check.report tokPos .noNewVariable)
  | .clause =>
      match point.symbols.headD none with
      | none => .ok point
      | some object =>
          point.perform do
            let _ ← Check.insert object
  | .closeSwitch => .ok { point with symbols := point.symbols.tail }
  | .beginFile => point.perform (modify fun state => { state with lenient := false })
  | .bind spec => point.perform (Check.importName packageName spec)
  | .reject error => .error error

/-- The point after some events. -/
def run (packageName : String → String) (events : List Event) (point : CheckPoint) :
    Except CheckError CheckPoint :=
  events.foldlM (step packageName) point

theorem run_single (packageName : String → String) (happens : Event) (point : CheckPoint) :
    run packageName [happens] point = happens.step packageName point := by
  simp only [run, List.foldlM_cons, List.foldlM_nil]
  exact bind_pure _

theorem run_append (packageName : String → String) (first second : List Event)
    (point : CheckPoint) :
    run packageName (first ++ second) point =
      run packageName first point >>= run packageName second :=
  List.foldlM_append

end Event

/-! ### Plans -/

/-- The way in which a node is visited. -/
inductive Mode where
  /-- An expression is read, or the types of fields are. -/
  | value
  /-- The target of an assignment. -/
  | target
  /-- What stands before a selector. -/
  | operand
  /-- An element of a composite literal. -/
  | element
  /-- The key of an element. -/
  | key
  /-- What stands on the left of `:=`. -/
  | define
  /-- What stands on the left in the guard of a type switch. -/
  | symbol (tokPos : Pos)
  | declare (kind : ObjectKind)
  | declareLocal
  | param
  | label
  | useLabel
  /-- The name of a function of the package. -/
  | funcName
  /-- The names of parameters. -/
  | params
  /-- The labels of a function. -/
  | labels
  | stmt
  /-- The guard of a type switch. -/
  | guard
  /-- The body of a function. -/
  | function
  | caseBody
  | commBody
  | caseClause
  | commClause
  /-- A declaration inside a function. -/
  | localDecl
  | localSpec (tok : Token)
  /-- The names of the package. -/
  | package
  | packageSpec (tok : Token)
  /-- The imports of a file. -/
  | imports
  /-- What stands at the top of a file. -/
  | top
  | file
  deriving DecidableEq

/-- A step of a plan. -/
inductive PlanStep where
  | event (event : Event)
  /-- The visit of the child with the given index. -/
  | visit (mode : Mode) (index : Nat)

/-- The visits of some children one after the other. -/
def PlanStep.visits (mode : Mode) (start count : Nat) : List PlanStep :=
  (List.range' start count).map (visit mode)

namespace Node

open PlanStep

/-- What happens to a name. -/
def namePlan : Mode → Ident → List PlanStep
  | .value, name | .element, name => [event (.use name)]
  | .target, name => [event (.assign name)]
  | .operand, name => [event (.select name)]
  | .key, name => [event (.key name)]
  | .define, name => [event (.defineName name)]
  | .symbol tokPos, name => [event (.symbol name tokPos)]
  | .declare kind, name => [event (.declare name kind)]
  | .declareLocal, name => [event (.declareLocal name)]
  | .param, name => [event (.param name)]
  | .label, name => if name.isBlank then [] else [event (.label name)]
  | .useLabel, name => [event (.useLabel name)]
  | .funcName, name => if name.name = "init" then [] else [event (.declare name .func)]
  | _, _ => []

/-- The plan of an expression, given whether it is a target and whether it is an element. -/
def exprPlan (isTarget isElement : Bool) : Expr → List PlanStep
  | .selector .. => [visit .operand 0]
  | .composite _ type elems =>
      visits .value 0 type.toList.length ++ visits .element type.toList.length elems.length
  | .funcLit .. =>
      [event (.enter "function"), visit .value 0, visit .params 0, visit .function 1, event .leave]
  | .paren .. => [visit (if isTarget then .target else .value) 0]
  | .keyValue .. => [visit (if isElement then .key else .value) 0, visit .value 1]
  | other => visits .value 0 (exprChildren other).length

/-- The plan of a statement. -/
def stmtPlan : Stmt → List PlanStep
  | .assign _ lhs tok rhs tokPos =>
      if tok = .define then
        visits .value lhs.length rhs.length ++
          (visits .define 0 lhs.length ++ [event (.endDefine tokPos)])
      else if tok = .assign then
        visits .value lhs.length rhs.length ++ visits .target 0 lhs.length
      else
        visits .value 0 lhs.length ++ visits .value lhs.length rhs.length
  | .branch _ _ label => visits .useLabel 0 label.toList.length
  | .block body => event (.enter "block") :: visits .stmt 0 body.stmts.length ++ [event .leave]
  | .labeled .. => [visit .stmt 1]
  | .decl .. => [visit .localDecl 0]
  | .ifElse _ init _ _ otherwise =>
      let inits := init.toList.length
      event (.enter "if") :: visits .stmt 0 inits ++
        (visit .value inits :: visit .stmt (inits + 1) ::
          visits .stmt (inits + 2) otherwise.toList.length ++ [event .leave])
  | .switch _ init tag _ =>
      let inits := init.toList.length
      let tags := tag.toList.length
      event (.enter "switch") :: visits .stmt 0 inits ++ (visits .value inits tags ++
        [event .openSwitch, visit .caseBody (inits + tags), event .closeSwitch, event .leave])
  | .typeSwitch _ init _ _ =>
      let inits := init.toList.length
      event (.enter "switch") :: visits .stmt 0 inits ++
        [event .openSwitch, visit .guard inits, visit .caseBody (inits + 1), event .closeSwitch,
          event .leave]
  | .select .. => [visit .commBody 0]
  | .loop _ init cond post body =>
      let inits := init.toList.length
      let conds := cond.toList.length
      let posts := post.toList.length
      event (.enter "for") :: visits .stmt 0 inits ++ (visits .value inits conds ++
        (visits .stmt (inits + conds) posts ++
          (visits .stmt (inits + conds + posts) body.toList.length ++ [event .leave])))
  | .range _ key value tok _ body tokPos =>
      let targets := key.toList.length + value.toList.length
      visit .value targets :: event (.enter "range") ::
        (if tok = some .define then
          visits .define 0 targets ++ [event (.endDefine tokPos)]
        else if tok = some .assign then
          visits .target 0 targets
        else
          []) ++
        (visits .stmt (targets + 1) body.toList.length ++ [event .leave])
  | .caseClause .. => [event (.reject (.notAStatement "CaseClause"))]
  | .commClause .. => [event (.reject (.notAStatement "CommClause"))]
  | other => visits .value 0 (stmtChildren other).length

/-- The plan of a node that is visited in some way. -/
def plan : Mode → Node → List PlanStep
  | mode, .expr (.ident name) => namePlan mode name
  | .value, .expr value | .operand, .expr value | .key, .expr value => exprPlan false false value
  | .target, .expr value => exprPlan true false value
  | .element, .expr value => exprPlan false true value
  | .define, .expr value => [event (.notAName value)]
  | .symbol tokPos, .expr _ => [event (.notASymbol tokPos)]
  | .value, .fieldList list => visits .value 0 list.fields.length
  | .value, .field item => [visit .value item.names.length]
  | .params, .expr (.funcType type) => visits .params 0 (type.results.toList.length + 1)
  | .params, .fieldList list => visits .params 0 list.fields.length
  | .params, .field item => visits .param 0 item.names.length
  | .labels, .expr (.funcLit ..) => []
  | .labels, .stmt (.labeled ..) => [visit .label 0, visit .labels 1]
  | .labels, node => (visits .labels 0 node.children.length).reverse
  | .stmt, .stmt step => stmtPlan step
  | .guard, .stmt (.assign _ lhs _ rhs tokPos) =>
      visits .value lhs.length rhs.length ++
        [if lhs.length = 0 then event (.reject .missingTarget) else visit (.symbol tokPos) 0]
  | .guard, .stmt step => stmtPlan step
  | .function, .stmt (.block body) =>
      event .openLabels :: (visits .labels 0 body.stmts.length).reverse ++
        (visits .stmt 0 body.stmts.length ++ [event .closeLabels])
  | .caseBody, .stmt (.block body) => visits .caseClause 0 body.stmts.length
  | .commBody, .stmt (.block body) => visits .commClause 0 body.stmts.length
  | .caseClause, .stmt (.caseClause _ exprs body _) =>
      let values := (exprs.getD []).length
      visits .value 0 values ++ (event (.enter "case") :: event .clause ::
        visits .stmt values body.length ++ [event .leave])
  | .commClause, .stmt (.commClause _ comm body _) =>
      let comms := comm.toList.length
      event (.enter "case") :: visits .stmt 0 comms ++
        (visits .stmt comms body.length ++ [event .leave])
  | .caseClause, _ | .commClause, _ => [event (.reject .wrongClause)]
  | .localDecl, .decl (.gen item) => visits (.localSpec item.tok) 0 item.specs.length
  | .localSpec tok, .spec (.valueSpec _ names type values) =>
      visits .value names.length (values.length + type.toList.length) ++
        visits (if tok = .kwVar then .declareLocal else .declare .const) 0 names.length
  | .localSpec _, .spec (.typeSpec ..) => [visit (.declare .type) 0, visit .value 1]
  | .package, .file source => visits .package 1 source.decls.length
  | .package, .decl (.gen item) => visits (.packageSpec item.tok) 0 item.specs.length
  | .package, .decl (.func item) => if item.recv.isSome then [] else [visit .funcName 0]
  | .packageSpec tok, .spec (.valueSpec _ names _ _) =>
      visits (.declare (if tok = .kwConst then .const else .var)) 0 names.length
  | .packageSpec _, .spec (.typeSpec ..) => [visit (.declare .type) 0]
  | .imports, .decl (.gen item) => visits .imports 0 item.specs.length
  | .imports, .spec (.importSpec item) => [event (.bind item)]
  | .top, .decl (.gen item) => visits .top 0 item.specs.length
  | .top, .spec (.valueSpec _ names type values) =>
      visits .value names.length (values.length + type.toList.length)
  | .top, .spec (.typeSpec ..) => [visit .value 1]
  | .top, .decl (.func item) =>
      let recvs := item.recv.toList.length
      event (.enter "function") :: visits .value 0 recvs ++ (visit .value (recvs + 1) ::
        visits .params 0 recvs ++ (visit .params (recvs + 1) ::
          visits .function (recvs + 2) item.body.toList.length ++ [event .leave]))
  | .file, .file source =>
      event (.enter "file") :: event .beginFile :: visits .imports 1 source.decls.length ++
        (visits .top 1 source.decls.length ++ [event .leave])
  | _, _ => []

attribute [local simp] plan

theorem plan_ident (mode : Mode) (name : Ident) :
    plan mode (.expr (.ident name)) = namePlan mode name := by
  simp

end Node

/-! ### Events -/

/-- The events of a step of a plan, given those of the children. -/
def PlanStep.events (childEvents : Mode → Node → List Event) (children : List Node) :
    PlanStep → List Event
  | .event happens => [happens]
  | .visit mode index => (children[index]?).elim [] (childEvents mode)

/-- The events of a node that is visited in some way. -/
def Node.events (mode : Mode) (node : Node) : List Event :=
  (node.plan mode).flatMap fun step =>
    match step with
    | .event happens => [happens]
    | .visit mode index =>
        match _found : node.children[index]? with
        | none => []
        | some child => events mode child
termination_by sizeOf node
decreasing_by exact sizeOf_lt_of_mem_children (List.mem_of_getElem? _found)

theorem Node.events_eq (mode : Mode) (node : Node) :
    node.events mode = (node.plan mode).flatMap (PlanStep.events Node.events node.children) := by
  rw [events]
  congr 1
  funext step
  cases step with
  | event happens => rfl
  | visit mode index =>
      simp only [PlanStep.events]
      split <;> simp [*]

/-- The events of the files of a package: first all names of the package are declared. -/
def packageEvents (files : List File) : List Event :=
  files.flatMap (fun source => (Node.file source).events .package) ++
    files.flatMap fun source => (Node.file source).events .file

end GoMend
