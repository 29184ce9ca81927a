import GoMend.Proofs.Check.Effect
import Mathlib.Tactic.SplitIfs

/-!
# Checks and events that do the same

Events follow a part of a check when they change the state in the same way.  What follows the parts
of a check follows the whole, and every construct of a check has its events.
-/

namespace GoMend

open PlanStep

/-! ### The events of plans -/

namespace PlanStep

variable (childEvents : Mode → Node → List Event) (children : List Node)

@[simp]
theorem events_event (happens : Event) : (event happens).events childEvents children = [happens] :=
  rfl

@[simp]
theorem events_visit (mode : Mode) (index : Nat) :
    (visit mode index).events childEvents children =
      (children[index]?).elim [] (childEvents mode) :=
  rfl

@[simp]
theorem flatMap_visits (mode : Mode) (start count : Nat) :
    (visits mode start count).flatMap (PlanStep.events childEvents children) =
      ((children.drop start).take count).flatMap (childEvents mode) := by
  induction count generalizing start with
  | zero => simp [visits]
  | succ count ih =>
      have first : (children.drop start).take (count + 1) =
          (children[start]?).toList ++ (children.drop (start + 1)).take count := by
        cases found : children[start]? with
        | none =>
            have tooFar : children.length ≤ start := by simpa using found
            simp [List.drop_eq_nil_of_le tooFar,
              List.drop_eq_nil_of_le (Nat.le_succ_of_le tooFar)]
        | some child =>
            obtain ⟨inside, rfl⟩ := List.getElem?_eq_some_iff.mp found
            rw [List.drop_eq_getElem_cons inside, List.take_succ_cons]
            simp
      rw [first, List.flatMap_append, ← ih]
      simp only [visits, List.range'_succ, List.map_cons, List.flatMap_cons, events_visit]
      cases children[start]? <;> simp

theorem flatMap_all (mode : Mode) :
    (visits mode 0 children.length).flatMap (PlanStep.events childEvents children) =
      children.flatMap (childEvents mode) := by
  simp

theorem flatMap_reverse_visits (mode : Mode) :
    (visits mode 0 children.length).reverse.flatMap (PlanStep.events childEvents children) =
      children.reverse.flatMap (childEvents mode) := by
  have mapEq : (visits mode 0 children.length).map (PlanStep.events childEvents children) =
      children.map (childEvents mode) := by
    refine List.ext_getElem (by simp [visits]) ?_
    intro index _ inside
    simp only [List.length_map] at inside
    simp [visits, List.getElem?_eq_getElem inside]
  rw [List.flatMap_def, List.map_reverse, mapEq, ← List.map_reverse, ← List.flatMap_def]

end PlanStep

@[simp]
theorem take_length_map {α β : Type} (wrap : α → β) (parts : List α) :
    (parts.map wrap).take parts.length = parts.map wrap :=
  List.take_of_length_le (by simp)

namespace Node

@[simp]
theorem events_ident (mode : Mode) (name : Ident) :
    (Node.expr (.ident name)).events mode =
      (namePlan mode name).flatMap (PlanStep.events Node.events []) := by
  rw [events_eq, plan_ident]
  rfl

theorem events_define_of_notName {target : Expr} (notName : ∀ name, target ≠ .ident name) :
    (Node.expr target).events .define = [.notAName target] := by
  rw [events_eq]
  cases target with
  | ident name => exact absurd rfl (notName name)
  | _ => rfl

end Node

/-! ### Checks and events that do the same -/

/-- Whether events do what a part of a check does, inside a switch with the given variable. -/
def Follows (packageName : String → String) (symbol : Option Object) (events : List Event)
    (check : Check Unit) : Prop :=
  ∀ point : CheckPoint, point.isFresh = false → point.symbols.headD none = symbol →
    Event.run packageName events point = point.perform check

namespace Follows

variable {packageName : String → String} {symbol : Option Object}
  {events first second : List Event} {check firstCheck secondCheck : Check Unit}

theorem of_eq (follows : Follows packageName symbol second check) (same : first = second) :
    Follows packageName symbol first check :=
  same ▸ follows

theorem nil : Follows packageName symbol [] (pure ()) :=
  fun _ _ _ => rfl

theorem single {happens : Event}
    (same : ∀ point : CheckPoint, point.isFresh = false → point.symbols.headD none = symbol →
      happens.step packageName point = point.perform check) :
    Follows packageName symbol [happens] check := by
  intro point notFresh symbolEq
  rw [Event.run_single]
  exact same point notFresh symbolEq

theorem append (firstFollows : Follows packageName symbol first firstCheck)
    (secondFollows : Follows packageName symbol second secondCheck) :
    Follows packageName symbol (first ++ second) (do firstCheck; secondCheck) := by
  intro point notFresh symbolEq
  rw [Event.run_append, firstFollows point notFresh symbolEq]
  simp only [CheckPoint.perform, StateT.run_bind]
  cases firstCheck.run point.state with
  | error error => rfl
  | ok result => exact secondFollows { point with state := result.2 } notFresh symbolEq

theorem cons {happens : Event} (firstFollows : Follows packageName symbol [happens] firstCheck)
    (secondFollows : Follows packageName symbol second secondCheck) :
    Follows packageName symbol (happens :: second) (do firstCheck; secondCheck) :=
  firstFollows.append secondFollows

theorem inScope {kind : String} (follows : Follows packageName symbol events check) :
    Follows packageName symbol (.enter kind :: (events ++ [Event.leave])) (Check.inScope kind check) := by
  have entered : Follows packageName symbol [.enter kind]
      (modify fun state => { state with scopes := { kind } :: state.scopes }) :=
    single fun _ _ _ => rfl
  have left : Follows packageName symbol [.leave]
      (modify fun state => { state with scopes := state.scopes.tail }) :=
    single fun _ _ _ => rfl
  exact entered.cons (follows.append left)

theorem withLabels {labels : List Ident} (follows : Follows packageName symbol events check) :
    Follows packageName symbol (.openLabels :: (labels.map Event.label ++ (events ++ [Event.closeLabels])))
      (Check.withLabels labels check) := by
  intro point notFresh symbolEq
  have declared : Follows packageName symbol (labels.map .label)
      (labels.forM Check.declareLabel) := by
    induction labels with
    | nil => exact nil
    | cons label labels ih => exact cons (single fun _ _ _ => rfl) ih
  let opened : CheckPoint :=
    { point with
      state := { point.state with labels := [] }
      outerLabels := point.state.labels :: point.outerLabels }
  have inner := (declared.append follows) opened notFresh symbolEq
  have firstStep : Event.run packageName
      (.openLabels :: (labels.map Event.label ++ (events ++ [Event.closeLabels]))) point =
        Event.run packageName (labels.map Event.label ++ events ++ [Event.closeLabels]) opened := by
    rw [List.append_assoc]
    rfl
  have whole : (Check.withLabels labels check).run point.state =
      (do
        (do labels.forM Check.declareLabel; check)
        Event.reportLabels
        modify fun state => { state with labels := point.state.labels } : Check Unit).run
          opened.state := by
    rw [bind_assoc]
    rfl
  rw [firstStep, Event.run_append, inner]
  simp only [CheckPoint.perform, whole, StateT.run_bind (x := do labels.forM _; check)]
  cases (do labels.forM Check.declareLabel; check : Check Unit).run opened.state with
  | error error => rfl
  | ok result => exact Event.run_single _ _ _

/-- A switch whose variable is known before its clauses. -/
theorem switch (follows : Follows packageName none events check) :
    Follows packageName symbol (.openSwitch :: (events ++ [Event.closeSwitch])) check := by
  intro point notFresh symbolEq
  have opened := follows { point with symbols := none :: point.symbols } notFresh rfl
  have firstStep : Event.run packageName (.openSwitch :: (events ++ [Event.closeSwitch])) point =
      Event.run packageName (events ++ [Event.closeSwitch])
        { point with symbols := none :: point.symbols } :=
    rfl
  rw [firstStep, Event.run_append, opened]
  simp only [CheckPoint.perform]
  cases check.run point.state with
  | error error => rfl
  | ok result => rfl

/-- The names on the left of `:=` are declared one after the other. -/
theorem run_defineNames (targets : List Expr) (point : CheckPoint) :
    Event.run packageName (targets.flatMap fun target => (Node.expr target).events .define) point =
      ((Check.defineNames targets).run point.state).map fun result =>
        { point with state := result.2, isFresh := point.isFresh || result.1 } := by
  induction targets generalizing point with
  | nil =>
      simp only [Check.defineNames, Event.run, List.flatMap_nil, List.foldlM_nil, StateT.run_pure]
      exact congrArg Except.ok (by simp)
  | cons target targets ih =>
      rw [List.flatMap_cons, Event.run_append]
      by_cases isName : ∃ name, target = .ident name
      · obtain ⟨name, rfl⟩ := isName
        simp only [Check.defineNames, Node.events_ident, Node.namePlan, List.flatMap_cons,
          List.flatMap_nil, List.append_nil, events_event, Event.run_single, Event.step,
          Check.lookupLocal?, bind_assoc, StateT.run_bind, StateT.run_get, pure_bind]
        by_cases taken :
            (name.isBlank || (point.state.scopes.head?.bind (·.find? name.name)).isSome) = true
        · simp only [taken, if_true, ok_bind, ih]
        · simp only [taken, Bool.false_eq_true, if_false, CheckPoint.perform, StateT.run_bind,
            StateT.run_pure]
          cases (Check.declareLocal name).run point.state with
          | error error => rfl
          | ok result =>
              simp only [Except.map, ok_bind, ih]
              cases (Check.defineNames targets).run result.2 with
              | error error => rfl
              | ok result => simp [ok_bind, pure, Except.pure]
      · have notName : ∀ name, target ≠ .ident name := fun name same => isName ⟨name, same⟩
        rw [Node.events_define_of_notName notName, Event.run_single, Check.defineNames]
        · simp only [Event.step]
          cases (Node.expr target).print with
          | error error => rfl
          | ok text => exact ih _
        · exact notName

/-- The left side of `:=`. -/
theorem define (targets : List Expr) (tokPos : Pos) :
    Follows packageName symbol
      (targets.flatMap (fun target => (Node.expr target).events .define) ++ [Event.endDefine tokPos])
      (Check.define targets tokPos) := by
  intro ⟨state, outerLabels, symbols, isFresh⟩ notFresh symbolEq
  obtain rfl : isFresh = false := notFresh
  rw [Event.run_append, run_defineNames]
  simp only [CheckPoint.perform, Check.define, StateT.run_bind]
  cases (Check.defineNames targets).run state with
  | error error => rfl
  | ok result =>
      obtain ⟨isNew, state⟩ := result
      simp only [Except.map, ok_bind, Event.run_single, Event.step]
      cases isNew <;> rfl

section Lists

theorem flatMap {α : Type} {parts : List α} {eventsOf : α → List Event} {checkOf : α → Check Unit}
    (follows : ∀ part ∈ parts, Follows packageName symbol (eventsOf part) (checkOf part)) :
    Follows packageName symbol (parts.flatMap eventsOf) (parts.forM checkOf) := by
  induction parts with
  | nil => exact nil
  | cons part parts ih =>
      obtain ⟨first, others⟩ := List.forall_mem_cons.mp follows
      exact first.append (ih others)

theorem toList {α : Type} {part : Option α} {eventsOf : α → List Event} {checkOf : α → Check Unit}
    (follows : ∀ value ∈ part, Follows packageName symbol (eventsOf value) (checkOf value)) :
    Follows packageName symbol (part.toList.flatMap eventsOf) (part.forM checkOf) := by
  cases part with
  | none => exact nil
  | some value => exact (follows value rfl).of_eq (by simp)

end Lists

end Follows

/-! ### Expressions and statements -/

namespace Check

theorem exprs_eq_forM (areTargets : Bool) (values : List Expr) :
    exprs areTargets values = values.forM (expr areTargets) := by
  induction values with
  | nil => rfl
  | cons value values ih => exact congrArg (expr areTargets value >>= fun _ => ·) ih

theorem stmts_eq_forM (steps : List Stmt) : stmts steps = steps.forM stmt := by
  induction steps with
  | nil => rfl
  | cons step steps ih => exact congrArg (stmt step >>= fun _ => ·) ih

theorem option_eq_forM (value : Option Expr) : option value = value.forM (expr false) := by
  cases value with
  | none => rfl
  | some value => rfl

theorem stmtOption_eq_forM (step : Option Stmt) : stmtOption step = step.forM stmt := by
  cases step with
  | none => rfl
  | some step => rfl

theorem target_eq_forM (value : Option Expr) : target value = value.forM (expr true) := by
  cases value with
  | none => rfl
  | some value => rfl

/-- Check what stands before a selector. -/
def operand : Expr → Check Unit
  | .ident name => do
      if name.isBlank then
        use name
      else
        let _ ← resolve name
  | other => expr false other

/-- Check the key of an element. -/
def key : Expr → Check Unit
  | .ident name => useKey name
  | other => expr false other

/-- Check an element of a composite literal. -/
def element : Expr → Check Unit
  | .keyValue _ word value => do
      key word
      expr false value
  | other => expr false other

theorem elements_eq_forM (elems : List Expr) : elements elems = elems.forM element := by
  induction elems with
  | nil => rfl
  | cons elem elems ih =>
      change _ = do element elem; elems.forM element
      rw [← ih]
      cases elem with
      | keyValue span word value => cases word <;> exact (bind_assoc _ _ _).symm
      | _ => rfl

theorem stmt_assign (span : Span) (lhs : List Expr) (tok : Token) (rhs : List Expr) (tokPos : Pos) :
    stmt (.assign span lhs tok rhs tokPos) = (do
      if tok = .define then
        exprs false rhs
        define lhs tokPos
      else if tok = .assign then
        exprs false rhs
        exprs true lhs
      else
        exprs false lhs
        exprs false rhs) :=
  rfl

theorem stmt_loop (span : Span) (init : Option Stmt) (cond : Option Expr) (post : Option Stmt)
    (body : Option Block) :
    stmt (.loop span init cond post body) =
      inScope "for" (do
        stmtOption init
        option cond
        stmtOption post
        body.forM fun body => inScope "block" (block body)) := by
  cases body <;> rfl

/-- Check the variables of a loop over a range. -/
def rangeHeader (key value : Option Expr) (tok : Option Token) (tokPos : Pos) : Check Unit :=
  if tok = some .define then
    define (key.toList ++ value.toList) tokPos
  else if tok = some .assign then do
    target key
    target value
  else
    pure ()

theorem stmt_range (span : Span) (key value : Option Expr) (tok : Option Token) (operand : Expr)
    (body : Option Block) (tokPos : Pos) :
    stmt (.range span key value tok operand body tokPos) = (do
      expr false operand
      inScope "range" do
        rangeHeader key value tok tokPos
        body.forM fun body => inScope "block" (block body)) := by
  unfold rangeHeader
  cases body <;> change (do expr false operand; inScope "range" _) = _ <;> split_ifs <;>
    simp only [bind_assoc, pure_bind] <;> rfl

/-- Check the guard of a type switch, which gives its variable. -/
def guardSymbol : Stmt → Check (Option Object)
  | .assign _ lhs _ rhs tokPos => do
      exprs false rhs
      match lhs with
      | [] => throw .missingTarget
      | .ident name :: _ =>
          if name.isBlank then
            report tokPos .noNewVariable
            pure none
          else
            let object ← newObject name.name .var name.span.start
            modify fun state => { state with locals := object :: state.locals }
            pure (some object)
      | _ :: _ =>
          report tokPos .noNewVariable
          pure none
  | other => do
      stmt other
      pure none

theorem stmt_typeSwitch (span : Span) (init : Option Stmt) (guard : Stmt) (body : Block) :
    stmt (.typeSwitch span init guard body) =
      inScope "switch" (do
        stmtOption init
        let symbol ← guardSymbol guard
        caseBlock symbol body) := by
  cases guard with
  | assign guardSpan lhs tok rhs tokPos =>
      cases lhs with
      | nil => change inScope "switch" _ = _; simp only [guardSymbol, bind_assoc]
      | cons target targets =>
          cases target with
          | ident name =>
              change inScope "switch" _ = _
              simp only [guardSymbol, bind_assoc]
              split_ifs <;> simp only [bind_assoc]
          | _ => change inScope "switch" _ = _; simp only [guardSymbol, bind_assoc]
  | _ => change inScope "switch" _ = _; simp only [guardSymbol, bind_assoc]

/-- Declare the variable of a type switch, if there is one. -/
def declareSymbol : Option Object → Check Unit
  | none => pure ()
  | some object => do
      let _ ← insert object

/-- Check a clause of a `switch`. -/
def caseClause (symbol : Option Object) : Stmt → Check Unit
  | .caseClause _ values body _ => do
      exprs false (values.getD [])
      inScope "case" do
        declareSymbol symbol
        stmts body
  | _ => throw .wrongClause

theorem caseClauses_eq_forM (symbol : Option Object) (clauses : List Stmt) :
    caseClauses symbol clauses = clauses.forM (caseClause symbol) := by
  induction clauses with
  | nil => rfl
  | cons clause clauses ih =>
      change _ = do caseClause symbol clause; clauses.forM (caseClause symbol)
      rw [← ih]
      cases clause with
      | caseClause span values body colon =>
          simp only [caseClause, bind_assoc]
          cases values <;> cases symbol <;> simp only [declareSymbol, bind_assoc] <;> rfl
      | _ => rfl

/-- Check a clause of a `select`. -/
def commClause : Stmt → Check Unit
  | .commClause _ comm body _ =>
      inScope "case" do
        stmtOption comm
        stmts body
  | _ => throw .wrongClause

theorem commClauses_eq_forM (clauses : List Stmt) :
    commClauses clauses = clauses.forM commClause := by
  induction clauses with
  | nil => rfl
  | cons clause clauses ih =>
      change _ = do commClause clause; clauses.forM commClause
      rw [← ih]
      cases clause <;> rfl

/-- Check an item of a declaration inside a function. -/
def localSpec (tok : Token) : Spec → Check Unit
  | .importSpec _ => pure ()
  | .valueSpec _ names type values => do
      option type
      exprs false values
      names.forM fun name => do
        if tok = .kwVar then
          declareLocal name
        else
          let _ ← declare name .const
  | .typeSpec _ name type _ => do
      let _ ← declare name .type
      expr false type

theorem localSpecs_eq_forM (tok : Token) (items : List Spec) :
    localSpecs tok items = items.forM (localSpec tok) := by
  induction items with
  | nil => rfl
  | cons item items ih =>
      change _ = do localSpec tok item; items.forM (localSpec tok)
      rw [← ih]
      cases item with
      | importSpec => rfl
      | valueSpec | typeSpec => simp only [localSpec, bind_assoc]; rfl

theorem fieldListTypes_eq_forM (fields : List Field) :
    fieldListTypes fields = fields.forM fun item => expr false item.type := by
  induction fields with
  | nil => rfl
  | cons item fields ih =>
      obtain ⟨span, names, type, tag⟩ := item
      exact congrArg (expr false type >>= fun _ => ·) ih

end Check

namespace Node

/-- A node that is no function literal has its own label and those below it. -/
theorem events_labels {node : Node} (notLit : ¬node.isFuncLit) :
    node.events .labels =
      node.ownLabel?.toList.map .label ++ node.children.reverse.flatMap (events .labels) := by
  rw [events_eq]
  cases node with
  | expr value =>
      cases value with
      | funcLit => exact absurd rfl notLit
      | ident name => rfl
      | _ => exact flatMap_reverse_visits events _ .labels
  | stmt step =>
      cases step with
      | labeled span label inner =>
          cases blank : label.isBlank <;>
            simp [plan, children, stmtChildren, ownLabel?, ident, blank, namePlan]
      | _ => exact flatMap_reverse_visits events _ .labels
  | _ => exact flatMap_reverse_visits events _ .labels

/-- The labels of the nodes of a stack in the order of their events. -/
theorem flatMap_events_labels (stack : List Node) :
    stack.flatMap (events .labels) = (labelsOfStack stack).map .label := by
  induction stack using labelsOfStack.induct with
  | case1 => simp [labelsOfStack]
  | case2 node stack isLit ih =>
      rw [List.flatMap_cons, labelsOfStack, if_pos isLit, ih, events_eq]
      cases node with
      | expr value => cases value <;> first | rfl | cases isLit
      | _ => cases isLit
  | case3 node stack notLit ih =>
      rw [List.flatMap_cons, labelsOfStack, if_neg notLit, List.map_append, ← ih,
        List.flatMap_append, ← List.append_assoc, events_labels notLit]

theorem events_params_fieldList (list : FieldList) :
    (Node.fieldList list).events .params =
      list.fields.flatMap fun item => item.names.map .param := by
  have fieldEvents (item : Field) : (Node.field item).events .params = item.names.map .param := by
    rw [events_eq]
    simp [plan, children, ident, List.flatMap_map, namePlan, ← List.map_eq_flatMap]
  rw [events_eq]
  simp [plan, children, List.flatMap_map, fieldEvents]

theorem declareParams_follows {packageName : String → String} {symbol : Option Object}
    (lists : List FieldList) :
    Follows packageName symbol (lists.flatMap fun list => (Node.fieldList list).events .params)
      (Check.declareParams lists) := by
  simp only [events_params_fieldList, List.map_eq_flatMap]
  refine .flatMap fun list _ => .flatMap fun item _ => .flatMap fun name _ => ?_
  exact .single fun _ _ _ => rfl

theorem events_params_funcType (type : FuncType) :
    (Node.expr (.funcType type)).events .params =
      (type.params :: type.results.toList).flatMap
        fun list => (Node.fieldList list).events .params := by
  rw [events_eq]
  simp [plan, children, exprChildren, List.flatMap_map]

end Node

end GoMend
