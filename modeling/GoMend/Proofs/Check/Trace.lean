import GoMend.Proofs.Check.Follow

/-!
# A check performs its events

The check of a package does exactly what its events do, one after the other.  Every statement about
a check can therefore be proved by induction on a list of events.
-/

namespace GoMend

open PlanStep

namespace Node

/-- The part of a check that visits a node. -/
def check? (symbol : Option Object) : Mode → Node → Option (Check Unit)
  | .value, .expr value => some (Check.expr false value)
  | .target, .expr value => some (Check.expr true value)
  | .operand, .expr value => some (Check.operand value)
  | .key, .expr value => some (Check.key value)
  | .element, .expr value => some (Check.element value)
  | .value, .fieldList list => some (Check.fieldTypes list)
  | .value, .field item => some (Check.expr false item.type)
  | .stmt, .stmt step => some (Check.stmt step)
  | .function, .stmt (.block body) => some (Check.withLabels body.labels (Check.block body))
  | .caseBody, .stmt (.block body) => some (Check.caseBlock symbol body)
  | .commBody, .stmt (.block body) => some (Check.commBlock body)
  | .caseClause, .stmt step => some (Check.caseClause symbol step)
  | .commClause, .stmt step => some (Check.commClause step)
  | .localDecl, .decl (.gen item) => some (Check.localDecl item)
  | .localSpec tok, .spec item => some (Check.localSpec tok item)
  | .top, .decl item => some (Check.topDecl item)
  | .top, .spec item => some (Check.topSpec item)
  | _, _ => none

/-- Whether the events of a node do what the check of the node does. -/
def Obeys (packageName : String → String) (node : Node) : Prop :=
  ∀ mode symbol check, node.check? symbol mode = some check →
    Follows packageName symbol (node.events mode) check

variable {packageName : String → String} {symbol : Option Object}

theorem Obeys.value {value : Expr} (obeys : Obeys packageName (.expr value)) :
    Follows packageName symbol ((Node.expr value).events .value) (Check.expr false value) :=
  obeys .value symbol _ rfl

theorem Obeys.values {values : List Expr}
    (obeys : ∀ value ∈ values, Obeys packageName (.expr value)) :
    Follows packageName symbol (values.flatMap fun value => (Node.expr value).events .value)
      (Check.exprs false values) := by
  rw [Check.exprs_eq_forM]
  exact .flatMap fun value mem => (obeys value mem).value

theorem Obeys.option {value : Option Expr}
    (obeys : ∀ part ∈ value, Obeys packageName (.expr part)) :
    Follows packageName symbol (value.toList.flatMap fun value => (Node.expr value).events .value)
      (Check.option value) := by
  rw [Check.option_eq_forM]
  exact .toList fun part mem => (obeys part mem).value

theorem exprPlan_follows {isTarget : Bool} {value : Expr} (notName : ∀ name, value ≠ .ident name)
    (obeys : ∀ child ∈ exprChildren value, Obeys packageName child) :
    Follows packageName symbol
      ((exprPlan isTarget false value).flatMap (PlanStep.events Node.events (exprChildren value)))
      (Check.expr isTarget value) := by
  simp only [exprChildren] at obeys
  cases value with
  | ident name => exact absurd rfl (notName name)
  | lit literal => exact .nil
  | ellipsis span elem =>
      simp only [List.mem_map, Option.mem_toList, forall_exists_index, and_imp,
        forall_apply_eq_imp_iff₂] at obeys
      exact (Obeys.option obeys).of_eq (by simp [exprPlan, exprChildren, List.flatMap_map])
  | funcLit span type body =>
      simp only [List.mem_cons, List.not_mem_nil, or_false, forall_eq_or_imp, forall_eq] at obeys
      obtain ⟨typeObeys, bodyObeys⟩ := obeys
      have typeFollows : Follows packageName symbol ((Node.expr (.funcType type)).events .value)
          (Check.signatureTypes type) := by
        have follows := typeObeys .value symbol _ rfl
        exact follows
      exact (typeFollows.append ((declareParams_follows _).append
        (bodyObeys .function symbol _ rfl))).inScope.of_eq
          (by simp [exprPlan, exprChildren, events_params_funcType])
  | composite span type elems =>
      simp only [List.mem_append, List.mem_map, Option.mem_toList, or_imp, forall_and,
        forall_exists_index, and_imp, forall_apply_eq_imp_iff₂] at obeys
      obtain ⟨typeObeys, elemsObey⟩ := obeys
      have elemsFollow : Follows packageName symbol
          (elems.flatMap fun elem => (Node.expr elem).events .element)
          (Check.elements elems) := by
        rw [Check.elements_eq_forM]
        exact .flatMap fun elem mem => elemsObey elem mem .element symbol _ rfl
      exact ((Obeys.option typeObeys).append elemsFollow).of_eq
        (by simp [exprPlan, exprChildren, List.flatMap_map])
  | paren span inner =>
      simp only [List.mem_singleton, forall_eq] at obeys
      cases isTarget with
      | false => exact obeys.value.of_eq (by simp [exprPlan, exprChildren])
      | true => exact (obeys .target symbol _ rfl).of_eq (by simp [exprPlan, exprChildren])
  | selector span operand sel =>
      simp only [List.mem_cons, List.not_mem_nil, or_false, forall_eq_or_imp, forall_eq] at obeys
      have same : Check.expr isTarget (.selector span operand sel) = Check.operand operand := by
        cases operand <;> rfl
      rw [same]
      exact (obeys.1 .operand symbol _ rfl).of_eq (by simp [exprPlan, exprChildren])
  | index span operand index =>
      simp only [List.mem_cons, List.not_mem_nil, or_false, forall_eq_or_imp, forall_eq] at obeys
      exact (obeys.1.value.append obeys.2.value).of_eq (by simp [exprPlan, exprChildren])
  | slice span operand low high max full =>
      simp only [List.mem_cons, List.mem_append, List.mem_map, Option.mem_toList, or_imp,
        forall_and, forall_eq, forall_exists_index, and_imp, forall_apply_eq_imp_iff₂] at obeys
      obtain ⟨operandObeys, ⟨lowObeys, highObeys⟩, maxObeys⟩ := obeys
      exact (operandObeys.value.append ((Obeys.option lowObeys).append
        ((Obeys.option highObeys).append (Obeys.option maxObeys)))).of_eq
          (by simp only [exprPlan, flatMap_all]; simp [exprChildren, List.flatMap_map])
  | typeAssert span operand type =>
      simp only [List.mem_cons, List.mem_map, Option.mem_toList, or_imp, forall_and, forall_eq,
        forall_exists_index, and_imp, forall_apply_eq_imp_iff₂] at obeys
      exact (obeys.1.value.append (Obeys.option obeys.2)).of_eq
        (by simp [exprPlan, exprChildren, List.flatMap_map])
  | call span callee args spread =>
      simp only [List.mem_cons, List.mem_map, or_imp, forall_and, forall_eq,
        forall_exists_index, and_imp, forall_apply_eq_imp_iff₂] at obeys
      exact (obeys.1.value.append (Obeys.values obeys.2)).of_eq
        (by simp [exprPlan, exprChildren, List.flatMap_map])
  | star span operand | unary span op operand | chanType span dir elem =>
      simp only [List.mem_singleton, forall_eq] at obeys
      exact obeys.value.of_eq (by simp [exprPlan, exprChildren])
  | binary span left op right | keyValue span key value | mapType span key value =>
      simp only [List.mem_cons, List.not_mem_nil, or_false, forall_eq_or_imp, forall_eq] at obeys
      exact (obeys.1.value.append obeys.2.value).of_eq (by simp [exprPlan, exprChildren])
  | arrayType span length elem =>
      simp only [List.mem_append, List.mem_singleton, List.mem_map, Option.mem_toList, or_imp,
        forall_and, forall_eq, forall_exists_index, and_imp, forall_apply_eq_imp_iff₂] at obeys
      exact ((Obeys.option obeys.1).append obeys.2.value).of_eq
        (by simp only [exprPlan, flatMap_all]; simp [exprChildren, List.flatMap_map])
  | structType span fields | interfaceType span methods =>
      simp only [List.mem_singleton, forall_eq] at obeys
      exact (obeys .value symbol _ rfl).of_eq (by simp [exprPlan, exprChildren])
  | funcType type =>
      obtain ⟨span, params, results⟩ := type
      simp only [List.mem_cons, List.mem_map, Option.mem_toList, or_imp, forall_and, forall_eq,
        forall_exists_index, and_imp, forall_apply_eq_imp_iff₂] at obeys
      obtain ⟨paramsObey, resultsObey⟩ := obeys
      have paramsFollow := paramsObey .value symbol _ rfl
      cases results with
      | none =>
          exact (paramsFollow.append .nil).of_eq (by simp [exprPlan, exprChildren])
      | some results =>
          exact (paramsFollow.append (resultsObey results rfl .value symbol _ rfl)).of_eq
            (by simp [exprPlan, exprChildren])

theorem exprPlan_element {isTarget : Bool} {value : Expr}
    (notPair : ∀ span key word, value ≠ .keyValue span key word) :
    exprPlan isTarget true value = exprPlan isTarget false value := by
  cases value with
  | keyValue span key word => exact absurd rfl (notPair span key word)
  | _ => rfl

/-- An expression that is no name has one plan for all ways to read it. -/
theorem plan_expr {value : Expr} (notName : ∀ name, value ≠ .ident name) :
    plan .value (.expr value) = exprPlan false false value ∧
      plan .operand (.expr value) = exprPlan false false value ∧
        plan .key (.expr value) = exprPlan false false value ∧
          plan .target (.expr value) = exprPlan true false value ∧
            plan .element (.expr value) = exprPlan false true value := by
  cases value with
  | ident name => exact absurd rfl (notName name)
  | _ => exact ⟨rfl, rfl, rfl, rfl, rfl⟩

/-- An expression obeys when what it consists of does. -/
theorem expr_obeys {value : Expr} (obeys : ∀ child ∈ exprChildren value, Obeys packageName child) :
    Obeys packageName (.expr value) := by
  intro mode symbol check isCheck
  rw [events_eq]
  by_cases isName : ∃ name, value = .ident name
  · obtain ⟨name, rfl⟩ := isName
    cases mode with
    | value | target | operand | key | element =>
        cases isCheck
        exact .single fun _ _ _ => rfl
    | _ => cases isCheck
  · have notName : ∀ name, value ≠ .ident name := fun name same => isName ⟨name, same⟩
    obtain ⟨valuePlan, operandPlan, keyPlan, targetPlan, elementPlan⟩ := plan_expr notName
    have follows {isTarget : Bool} : Follows packageName symbol
        ((exprPlan isTarget false value).flatMap
          (PlanStep.events Node.events (exprChildren value))) (Check.expr isTarget value) :=
      exprPlan_follows notName obeys
    cases mode with
    | value =>
        cases isCheck
        rw [valuePlan]
        exact follows
    | target =>
        cases isCheck
        rw [targetPlan]
        exact follows
    | operand =>
        cases isCheck
        rw [operandPlan, Check.operand]
        · exact follows
        · exact notName
    | key =>
        cases isCheck
        rw [keyPlan, Check.key]
        · exact follows
        · exact notName
    | element =>
        cases isCheck
        rw [elementPlan]
        by_cases isPair : ∃ span key word, value = .keyValue span key word
        · obtain ⟨span, key, word, rfl⟩ := isPair
          simp only [exprChildren, List.mem_cons, List.not_mem_nil, or_false, forall_eq_or_imp,
            forall_eq] at obeys
          exact ((obeys.1 .key symbol _ rfl).append obeys.2.value).of_eq
            (by simp [exprPlan, children, exprChildren])
        · have notPair : ∀ span key word, value ≠ .keyValue span key word :=
            fun span key word same => isPair ⟨span, key, word, same⟩
          rw [exprPlan_element notPair, Check.element]
          · exact follows
          · exact notPair
    | _ => cases isCheck

theorem Obeys.stmt {step : Stmt} (obeys : Obeys packageName (.stmt step)) :
    Follows packageName symbol ((Node.stmt step).events .stmt) (Check.stmt step) :=
  obeys .stmt symbol _ rfl

theorem Obeys.stmts {steps : List Stmt} (obeys : ∀ step ∈ steps, Obeys packageName (.stmt step)) :
    Follows packageName symbol (steps.flatMap fun step => (Node.stmt step).events .stmt)
      (Check.stmts steps) := by
  rw [Check.stmts_eq_forM]
  exact .flatMap fun step mem => (obeys step mem).stmt

theorem Obeys.stmtOption {step : Option Stmt}
    (obeys : ∀ part ∈ step, Obeys packageName (.stmt part)) :
    Follows packageName symbol (step.toList.flatMap fun step => (Node.stmt step).events .stmt)
      (Check.stmtOption step) := by
  rw [Check.stmtOption_eq_forM]
  exact .toList fun part mem => (obeys part mem).stmt

theorem Obeys.targets {values : List Expr}
    (obeys : ∀ value ∈ values, Obeys packageName (.expr value)) :
    Follows packageName symbol (values.flatMap fun value => (Node.expr value).events .target)
      (Check.exprs true values) := by
  rw [Check.exprs_eq_forM]
  exact .flatMap fun value mem => obeys value mem .target symbol _ rfl

/-- A block of its own has a scope of its own. -/
theorem Obeys.block {body : Block} (obeys : Obeys packageName (Node.block body)) :
    Follows packageName symbol ((Node.block body).events .stmt)
      (Check.inScope "block" (Check.block body)) :=
  obeys .stmt symbol _ rfl

theorem plan_guard_of_notAssign {guard : Stmt}
    (notAssign : ∀ span lhs tok rhs tokPos, guard ≠ .assign span lhs tok rhs tokPos) :
    plan .guard (.stmt guard) = plan .stmt (.stmt guard) := by
  cases guard with
  | assign span lhs tok rhs tokPos => exact absurd rfl (notAssign span lhs tok rhs tokPos)
  | _ => rfl

/-- The events of a guard leave its variable as that of the switch around them. -/
theorem run_guard {guard : Stmt} (obeys : Obeys packageName (.stmt guard))
    (innerObeys : ∀ inner ∈ stmtChildren guard, Obeys packageName inner) (state : CheckState)
    (outerLabels : List (List Label)) (symbols : List (Option Object)) :
    Event.run packageName ((Node.stmt guard).events .guard)
        ⟨state, outerLabels, none :: symbols, false⟩ =
      ((Check.guardSymbol guard).run state).map fun result =>
        ⟨result.2, outerLabels, result.1 :: symbols, false⟩ := by
  by_cases isAssign : ∃ span lhs tok rhs tokPos, guard = .assign span lhs tok rhs tokPos
  · obtain ⟨span, lhs, tok, rhs, tokPos, rfl⟩ := isAssign
    simp only [stmtChildren, List.mem_append, List.mem_map, or_imp, forall_and,
      forall_exists_index, and_imp, forall_apply_eq_imp_iff₂] at innerObeys
    have rightFollows : Follows packageName none _ (Check.exprs false rhs) :=
      Obeys.values innerObeys.2
    have right := rightFollows ⟨state, outerLabels, none :: symbols, false⟩ rfl rfl
    have split : (Node.stmt (.assign span lhs tok rhs tokPos)).events .guard =
        (rhs.flatMap fun value => (Node.expr value).events .value) ++
          lhs.head?.elim [.reject .missingTarget]
            fun target => (Node.expr target).events (.symbol tokPos) := by
      rw [events_eq]
      cases lhs <;> simp [plan, children, stmtChildren, List.flatMap_map]
    rw [split, Event.run_append, right]
    simp only [CheckPoint.perform, Check.guardSymbol, StateT.run_bind]
    cases (Check.exprs false rhs).run state with
    | error error => rfl
    | ok result =>
        simp only [Except.map, ok_bind]
        cases lhs with
        | nil => rfl
        | cons target targets =>
            cases target with
            | ident name =>
                simp only [List.head?_cons, Option.elim_some, events_ident, namePlan,
                  List.flatMap_cons, events_event, List.flatMap_nil, List.append_nil,
                  Event.run_single, Event.step]
                cases name.isBlank <;> rfl
            | _ =>
                rw [List.head?_cons, Option.elim_some, events_eq]
                rfl
  · have notAssign : ∀ span lhs tok rhs tokPos, guard ≠ .assign span lhs tok rhs tokPos :=
      fun span lhs tok rhs tokPos same => isAssign ⟨span, lhs, tok, rhs, tokPos, same⟩
    have same : (Node.stmt guard).events .guard = (Node.stmt guard).events .stmt := by
      rw [events_eq, events_eq, plan_guard_of_notAssign notAssign]
    rw [same, obeys.stmt ⟨state, outerLabels, none :: symbols, false⟩ rfl rfl, Check.guardSymbol]
    · simp only [CheckPoint.perform, StateT.run_bind]
      cases (Check.stmt guard).run state <;> rfl
    · exact notAssign

theorem stmtPlan_follows {step : Stmt}
    (obeys : ∀ child ∈ stmtChildren step, Obeys packageName child)
    (innerObeys : ∀ child ∈ stmtChildren step, ∀ inner ∈ child.children, Obeys packageName inner) :
    Follows packageName symbol
      ((stmtPlan step).flatMap (PlanStep.events Node.events (stmtChildren step)))
      (Check.stmt step) := by
  simp only [stmtChildren] at obeys
  cases step with
  | expr span value =>
      simp only [List.mem_singleton, forall_eq] at obeys
      exact obeys.value.of_eq (by simp [stmtPlan, stmtChildren])
  | send span channel value =>
      simp only [List.mem_cons, List.not_mem_nil, or_false, forall_eq_or_imp, forall_eq] at obeys
      exact (obeys.1.value.append obeys.2.value).of_eq (by simp [stmtPlan, stmtChildren])
  | incDec span operand tok | go span call | defer span call =>
      simp only [List.mem_singleton, forall_eq] at obeys
      exact obeys.value.of_eq (by simp [stmtPlan, stmtChildren])
  | assign span lhs tok rhs tokPos =>
      simp only [List.mem_append, List.mem_map, or_imp, forall_and, forall_exists_index, and_imp,
        forall_apply_eq_imp_iff₂] at obeys
      obtain ⟨leftObeys, rightObeys⟩ := obeys
      rw [Check.stmt_assign]
      by_cases isDefine : tok = .define
      · simp only [isDefine, if_true]
        exact ((Obeys.values rightObeys).append (.define lhs tokPos)).of_eq
          (by simp [stmtPlan, stmtChildren, List.flatMap_map])
      · by_cases isAssign : tok = .assign
        · simp only [isAssign, reduceCtorEq, if_true, if_false]
          exact ((Obeys.values rightObeys).append (Obeys.targets leftObeys)).of_eq
            (by simp [stmtPlan, stmtChildren, List.flatMap_map])
        · simp only [isDefine, isAssign, if_false]
          exact ((Obeys.values leftObeys).append (Obeys.values rightObeys)).of_eq
            (by simp [stmtPlan, stmtChildren, List.flatMap_map, isDefine, isAssign])
  | ret span results =>
      simp only [List.mem_map, forall_exists_index, and_imp, forall_apply_eq_imp_iff₂] at obeys
      exact (Obeys.values obeys).of_eq (by simp [stmtPlan, stmtChildren, List.flatMap_map])
  | branch span tok label =>
      cases label with
      | none => exact .nil
      | some label =>
          have follows : Follows packageName symbol [.useLabel label] (Check.useLabel label) :=
            .single fun _ _ _ => rfl
          exact follows.of_eq (by simp [stmtPlan, stmtChildren, ident, namePlan])
  | block body =>
      obtain ⟨span, steps⟩ := body
      simp only [List.mem_map, forall_exists_index, and_imp, forall_apply_eq_imp_iff₂] at obeys
      exact (Obeys.stmts obeys).inScope.of_eq
        (by simp [stmtPlan, stmtChildren, List.flatMap_map])
  | labeled span label inner =>
      simp only [List.mem_cons, List.not_mem_nil, or_false, forall_eq_or_imp, forall_eq] at obeys
      exact obeys.2.stmt.of_eq (by simp [stmtPlan, stmtChildren])
  | decl span item =>
      simp only [List.mem_singleton, forall_eq] at obeys
      exact (obeys .localDecl symbol _ rfl).of_eq (by simp [stmtPlan, stmtChildren])
  | ifElse span init cond body otherwise =>
      simp only [List.mem_cons, List.mem_append, List.mem_map, Option.mem_toList, or_imp,
        forall_and, forall_eq, forall_exists_index, and_imp, forall_apply_eq_imp_iff₂] at obeys
      obtain ⟨initObeys, condObeys, bodyObeys, elseObeys⟩ := obeys
      refine ((Obeys.stmtOption initObeys).append (condObeys.value.append
        (bodyObeys.block.append (Obeys.stmtOption elseObeys)))).inScope.of_eq ?_
      cases init <;> simp [stmtPlan, stmtChildren, List.flatMap_map]
  | switch span init tag body =>
      simp only [List.mem_cons, List.mem_append, List.mem_map, Option.mem_toList, or_imp,
        forall_and, forall_eq, forall_exists_index, and_imp, forall_apply_eq_imp_iff₂,
        List.not_mem_nil, false_imp_iff, and_true] at obeys
      obtain ⟨initObeys, tagObeys, bodyObeys⟩ := obeys
      have clauses : Follows packageName symbol _ (Check.caseBlock none body) :=
        (bodyObeys .caseBody none _ rfl).switch
      refine ((Obeys.stmtOption initObeys).append ((Obeys.option tagObeys).append
        clauses)).inScope.of_eq ?_
      cases init <;> cases tag <;> simp [stmtPlan, stmtChildren]
  | typeSwitch span init guard body =>
      simp only [List.mem_cons, List.mem_append, List.mem_map, Option.mem_toList, or_imp,
        forall_and, forall_eq, forall_exists_index, and_imp, forall_apply_eq_imp_iff₂,
        List.not_mem_nil, false_imp_iff, and_true] at obeys
      obtain ⟨initObeys, guardObeys, bodyObeys⟩ := obeys
      have guardInner : ∀ inner ∈ stmtChildren guard, Obeys packageName inner :=
        innerObeys (.stmt guard) (by simp [stmtChildren])
      have clauses : Follows packageName symbol
          (.openSwitch :: ((Node.stmt guard).events .guard ++
            ((Node.block body).events .caseBody ++ [Event.closeSwitch])))
          (do let symbol ← Check.guardSymbol guard; Check.caseBlock symbol body) := by
        rintro ⟨state, outerLabels, symbols, isFresh⟩ notFresh symbolEq
        obtain rfl : isFresh = false := notFresh
        have opened : ∀ events, Event.run packageName (.openSwitch :: events)
            ⟨state, outerLabels, symbols, false⟩ =
              Event.run packageName events ⟨state, outerLabels, none :: symbols, false⟩ :=
          fun _ => rfl
        rw [opened, Event.run_append, run_guard guardObeys guardInner]
        simp only [CheckPoint.perform, StateT.run_bind]
        cases (Check.guardSymbol guard).run state with
        | error error => rfl
        | ok result =>
            have bodyFollows := bodyObeys .caseBody result.1 _ rfl
              ⟨result.2, outerLabels, result.1 :: symbols, false⟩ rfl rfl
            simp only [Except.map, ok_bind]
            rw [Event.run_append, bodyFollows]
            simp only [CheckPoint.perform]
            cases (Check.caseBlock result.1 body).run result.2 with
            | error error => rfl
            | ok result => rfl
      rw [Check.stmt_typeSwitch]
      refine ((Obeys.stmtOption initObeys).append clauses).inScope.of_eq ?_
      cases init <;> simp [stmtPlan, stmtChildren]
  | select span body =>
      simp only [List.mem_singleton, forall_eq] at obeys
      exact (obeys .commBody symbol _ rfl).of_eq (by simp [stmtPlan, stmtChildren])
  | loop span init cond post body =>
      simp only [List.mem_append, List.mem_map, Option.mem_toList, or_imp, forall_and,
        forall_exists_index, and_imp, forall_apply_eq_imp_iff₂] at obeys
      obtain ⟨initObeys, condObeys, postObeys, bodyObeys⟩ := obeys
      have bodyFollows : Follows packageName symbol
          (body.toList.flatMap fun body => (Node.block body).events .stmt)
          (body.forM fun body => Check.inScope "block" (Check.block body)) :=
        .toList fun body mem => (bodyObeys body mem).block
      rw [Check.stmt_loop]
      refine ((Obeys.stmtOption initObeys).append ((Obeys.option condObeys).append
        ((Obeys.stmtOption postObeys).append bodyFollows))).inScope.of_eq ?_
      cases init <;> cases cond <;> cases post <;>
        simp [stmtPlan, stmtChildren, List.flatMap_map]
  | range span key value tok operand body tokPos =>
      simp only [List.mem_cons, List.mem_append, List.mem_map, Option.mem_toList, or_imp,
        forall_and, forall_eq, forall_exists_index, and_imp, forall_apply_eq_imp_iff₂] at obeys
      obtain ⟨keyObeys, valueObeys, operandObeys, bodyObeys⟩ := obeys
      have bodyFollows : Follows packageName symbol
          (body.toList.flatMap fun body => (Node.block body).events .stmt)
          (body.forM fun body => Check.inScope "block" (Check.block body)) :=
        .toList fun body mem => (bodyObeys body mem).block
      have targetsFollow : Follows packageName symbol
          (key.toList.flatMap (fun value => (Node.expr value).events .target) ++
            value.toList.flatMap fun value => (Node.expr value).events .target)
          (do Check.target key; Check.target value) := by
        rw [Check.target_eq_forM, Check.target_eq_forM]
        exact (Follows.toList fun part mem => keyObeys part mem .target symbol _ rfl).append
          (Follows.toList fun part mem => valueObeys part mem .target symbol _ rfl)
      rw [Check.stmt_range, Check.rangeHeader]
      by_cases isDefine : tok = some .define
      · simp only [isDefine, if_true]
        refine (operandObeys.value.append
          ((Follows.define (key.toList ++ value.toList) tokPos).append bodyFollows).inScope).of_eq ?_
        cases key <;> cases value <;> simp [stmtPlan, stmtChildren, List.flatMap_map]
      · by_cases isAssign : tok = some .assign
        · simp only [isAssign, reduceCtorEq, Option.some.injEq, if_true, if_false]
          refine (operandObeys.value.append
            (targetsFollow.append bodyFollows).inScope).of_eq ?_
          cases key <;> cases value <;> simp [stmtPlan, stmtChildren, List.flatMap_map]
        · simp only [isDefine, isAssign, if_false, pure_bind]
          refine (operandObeys.value.append bodyFollows.inScope).of_eq ?_
          cases key <;> cases value <;>
            simp [stmtPlan, stmtChildren, List.flatMap_map, isDefine, isAssign]
  | empty span => exact .nil
  | caseClause span exprs body colon => exact .single fun _ _ _ => rfl
  | commClause span comm body colon => exact .single fun _ _ _ => rfl

theorem caseClause_follows {step : Stmt}
    (obeys : ∀ child ∈ stmtChildren step, Obeys packageName child) :
    Follows packageName symbol ((Node.stmt step).events .caseClause)
      (Check.caseClause symbol step) := by
  rw [events_eq]
  cases step with
  | caseClause span exprs body colon =>
      simp only [stmtChildren, List.mem_append, List.mem_map, or_imp, forall_and,
        forall_exists_index, and_imp, forall_apply_eq_imp_iff₂] at obeys
      obtain ⟨valuesObey, bodyObeys⟩ := obeys
      have declared : Follows packageName symbol [.clause] (Check.declareSymbol symbol) := by
        refine .single fun point _ symbolEq => ?_
        rw [Event.step, symbolEq]
        cases symbol <;> rfl
      exact ((Obeys.values valuesObey).append
        (declared.cons (Obeys.stmts bodyObeys)).inScope).of_eq
          (by simp [plan, children, stmtChildren, List.flatMap_map])
  | _ => exact .single fun _ _ _ => rfl

theorem commClause_follows {step : Stmt}
    (obeys : ∀ child ∈ stmtChildren step, Obeys packageName child) :
    Follows packageName symbol ((Node.stmt step).events .commClause) (Check.commClause step) := by
  rw [events_eq]
  cases step with
  | commClause span comm body colon =>
      simp only [stmtChildren, List.mem_append, List.mem_map, Option.mem_toList, or_imp, forall_and,
        forall_exists_index, and_imp, forall_apply_eq_imp_iff₂] at obeys
      obtain ⟨commObeys, bodyObeys⟩ := obeys
      exact ((Obeys.stmtOption commObeys).append (Obeys.stmts bodyObeys)).inScope.of_eq
        (by simp [plan, children, stmtChildren, List.flatMap_map])
  | _ => exact .single fun _ _ _ => rfl

/-- A block obeys as the body of a function, a `switch` or a `select`. -/
theorem block_obeys {body : Block}
    (obeys : ∀ child ∈ stmtChildren (.block body), Obeys packageName child) :
    Follows packageName symbol ((Node.block body).events .function)
        (Check.withLabels body.labels (Check.block body)) ∧
      Follows packageName symbol ((Node.block body).events .caseBody) (Check.caseBlock symbol body) ∧
      Follows packageName symbol ((Node.block body).events .commBody) (Check.commBlock body) := by
  obtain ⟨span, steps⟩ := body
  simp only [stmtChildren, List.mem_map, forall_exists_index, and_imp, forall_apply_eq_imp_iff₂]
    at obeys
  refine ⟨?_, ?_, ?_⟩
  · have labels : (Block.labels ⟨span, steps⟩).map Event.label =
        (steps.map Node.stmt).reverse.flatMap (events .labels) :=
      (flatMap_events_labels _).symm
    rw [Check.block]
    refine (Obeys.stmts obeys).withLabels.of_eq ?_
    have visited := flatMap_reverse_visits Node.events (steps.map Node.stmt) .labels
    rw [List.length_map] at visited
    rw [labels, events_eq]
    simp [plan, children, stmtChildren, block, List.flatMap_map, visited]
  · rw [Check.caseBlock, Check.caseClauses_eq_forM, events_eq]
    have clauses : Follows packageName symbol
        (steps.flatMap fun step => (Node.stmt step).events .caseClause)
        (steps.forM (Check.caseClause symbol)) :=
      .flatMap fun step mem => obeys step mem .caseClause symbol _ rfl
    exact clauses.of_eq (by simp [plan, children, stmtChildren, block, List.flatMap_map])
  · rw [Check.commBlock, Check.commClauses_eq_forM, events_eq]
    have clauses : Follows packageName symbol
        (steps.flatMap fun step => (Node.stmt step).events .commClause)
        (steps.forM Check.commClause) :=
      .flatMap fun step mem => obeys step mem .commClause symbol _ rfl
    exact clauses.of_eq (by simp [plan, children, stmtChildren, block, List.flatMap_map])

theorem plan_stmt (step : Stmt) : plan .stmt (.stmt step) = stmtPlan step := by
  cases step <;> rfl

/-- A statement obeys when what it consists of does. -/
theorem stmt_obeys {step : Stmt} (obeys : ∀ child ∈ stmtChildren step, Obeys packageName child)
    (innerObeys : ∀ child ∈ stmtChildren step, ∀ inner ∈ child.children, Obeys packageName inner) :
    Obeys packageName (.stmt step) := by
  intro mode symbol check isCheck
  cases mode with
  | stmt =>
      cases isCheck
      rw [events_eq, plan_stmt]
      exact stmtPlan_follows obeys innerObeys
  | caseClause =>
      cases isCheck
      exact caseClause_follows obeys
  | commClause =>
      cases isCheck
      exact commClause_follows obeys
  | function =>
      cases step with
      | block body =>
          cases isCheck
          exact (block_obeys obeys).1
      | _ => cases isCheck
  | caseBody =>
      cases step with
      | block body =>
          cases isCheck
          exact (block_obeys obeys).2.1
      | _ => cases isCheck
  | commBody =>
      cases step with
      | block body =>
          cases isCheck
          exact (block_obeys obeys).2.2
      | _ => cases isCheck
  | _ => cases isCheck

/-! ### Declarations, files and packages -/

/-- An item of a declaration obeys when what it consists of does. -/
theorem spec_obeys {item : Spec} (obeys : ∀ child ∈ specChildren item, Obeys packageName child) :
    Obeys packageName (.spec item) := by
  intro mode symbol check isCheck
  rw [events_eq]
  cases item with
  | importSpec item =>
      cases mode with
      | localSpec tok => cases isCheck; exact .nil
      | top => cases isCheck; exact .nil
      | _ => cases isCheck
  | valueSpec span names type values =>
      simp only [specChildren, List.mem_append, List.mem_map, Option.mem_toList, or_imp,
        forall_and, forall_exists_index, and_imp, forall_apply_eq_imp_iff₂] at obeys
      obtain ⟨-, typeObeys, valuesObey⟩ := obeys
      have valuesFollow : Follows packageName symbol
          ((type.toList.map expr ++ values.map expr).flatMap (events .value))
          (do Check.option type; Check.exprs false values) :=
        ((Obeys.option typeObeys).append (Obeys.values valuesObey)).of_eq
          (by simp [List.flatMap_map])
      cases mode with
      | localSpec tok =>
          cases isCheck
          have namesFollow : Follows packageName symbol
              (names.flatMap fun name => (Node.ident name).events
                (if tok = .kwVar then .declareLocal else .declare .const))
              (names.forM fun name => do
                if tok = .kwVar then
                  Check.declareLocal name
                else
                  let _ ← Check.declare name .const) := by
            refine .flatMap fun name _ => ?_
            by_cases isVar : tok = .kwVar
            · simp only [isVar, if_true, ident, events_ident]
              exact .single fun _ _ _ => rfl
            · simp only [isVar, if_false, ident, events_ident]
              exact .single fun _ _ _ => rfl
          have follows := valuesFollow.append namesFollow
          rw [bind_assoc] at follows
          refine follows.of_eq ?_
          cases type <;> simp [plan, children, specChildren, List.flatMap_map]
      | top =>
          cases isCheck
          exact valuesFollow.of_eq (by cases type <;> simp [plan, children, specChildren])
      | _ => cases isCheck
  | typeSpec span name type isAlias =>
      simp only [specChildren, List.mem_cons, List.not_mem_nil, or_false, forall_eq_or_imp,
        forall_eq] at obeys
      cases mode with
      | localSpec tok =>
          cases isCheck
          have declared : Follows packageName symbol [.declare name .type]
              (do let _ ← Check.declare name .type) :=
            .single fun _ _ _ => rfl
          have follows := declared.append obeys.2.value
          rw [bind_assoc] at follows
          exact follows.of_eq (by simp [plan, children, specChildren, ident, namePlan])
      | top =>
          cases isCheck
          exact obeys.2.value.of_eq (by simp [plan, children, specChildren])
      | _ => cases isCheck

/-- A declaration obeys when what it consists of does. -/
theorem decl_obeys {item : Decl} (obeys : ∀ child ∈ declChildren item, Obeys packageName child) :
    Obeys packageName (.decl item) := by
  intro mode symbol check isCheck
  rw [events_eq]
  cases item with
  | gen item =>
      obtain ⟨span, tok, specs, grouped⟩ := item
      simp only [declChildren, List.mem_map, forall_exists_index, and_imp,
        forall_apply_eq_imp_iff₂] at obeys
      cases mode with
      | localDecl =>
          cases isCheck
          have follows : Follows packageName symbol
              (specs.flatMap fun item => (Node.spec item).events (.localSpec tok))
              (specs.forM (Check.localSpec tok)) :=
            .flatMap fun item mem => obeys item mem (.localSpec tok) symbol _ rfl
          rw [Check.localDecl, Check.localSpecs_eq_forM]
          exact follows.of_eq (by simp [plan, children, declChildren, List.flatMap_map])
      | top =>
          cases isCheck
          have follows : Follows packageName symbol
              (specs.flatMap fun item => (Node.spec item).events .top)
              (specs.forM Check.topSpec) :=
            .flatMap fun item mem => obeys item mem .top symbol _ rfl
          exact follows.of_eq (by simp [plan, children, declChildren, List.flatMap_map])
      | _ => cases isCheck
  | func item =>
      obtain ⟨span, recv, name, type, body⟩ := item
      simp only [declChildren, List.mem_cons, List.mem_append, List.mem_map, Option.mem_toList,
        or_imp, forall_and, forall_eq, forall_exists_index, and_imp,
        forall_apply_eq_imp_iff₂] at obeys
      obtain ⟨recvObeys, -, typeObeys, bodyObeys⟩ := obeys
      cases mode with
      | top =>
          cases isCheck
          have recvFollows : Follows packageName symbol
              (recv.toList.flatMap fun list => (Node.fieldList list).events .value)
              (recv.forM Check.fieldTypes) :=
            .toList fun list mem => recvObeys list mem .value symbol _ rfl
          have typeFollows : Follows packageName symbol
              ((Node.expr (.funcType type)).events .value) (Check.signatureTypes type) := by
            have follows := typeObeys .value symbol _ rfl
            exact follows
          have bodyFollows : Follows packageName symbol
              (body.toList.flatMap fun body => (Node.block body).events .function)
              (body.forM fun body => Check.withLabels body.labels (Check.block body)) :=
            .toList fun body mem => bodyObeys body mem .function symbol _ rfl
          have same : Check.topDecl (.func ⟨span, recv, name, type, body⟩) =
              Check.inScope "function" (do
                recv.forM Check.fieldTypes
                Check.signatureTypes type
                Check.declareParams (recv.toList ++ type.params :: type.results.toList)
                body.forM fun body => Check.withLabels body.labels (Check.block body)) := by
            cases body <;> rfl
          rw [same]
          refine (recvFollows.append (typeFollows.append ((declareParams_follows _).append
            bodyFollows))).inScope.of_eq ?_
          cases recv <;>
            simp [plan, children, declChildren, List.flatMap_map, events_params_funcType]
      | _ => cases isCheck

/-- Fields obey when their types do. -/
theorem field_obeys {item : Field} (obeys : Obeys packageName (.expr item.type)) :
    Obeys packageName (.field item) := by
  intro mode symbol check isCheck
  rw [events_eq]
  cases mode with
  | value =>
      cases isCheck
      exact obeys.value.of_eq (by simp [plan, children])
  | _ => cases isCheck

theorem fieldList_obeys {list : FieldList}
    (obeys : ∀ item ∈ list.fields, Obeys packageName (.field item)) :
    Obeys packageName (.fieldList list) := by
  obtain ⟨span, fields⟩ := list
  intro mode symbol check isCheck
  rw [events_eq]
  cases mode with
  | value =>
      cases isCheck
      have follows : Follows packageName symbol
          (fields.flatMap fun item => (Node.field item).events .value)
          (fields.forM fun item => Check.expr false item.type) :=
        .flatMap fun item mem => obeys item mem .value symbol _ rfl
      rw [Check.fieldTypes, Check.fieldListTypes_eq_forM]
      exact follows.of_eq (by simp [plan, children, List.flatMap_map])
  | _ => cases isCheck

/-- The events of every node do what its check does. -/
theorem obeys (packageName : String → String) (node : Node) : Obeys packageName node := by
  suffices both : Obeys packageName node ∧ ∀ child ∈ node.children, Obeys packageName child from
    both.1
  induction node using induction_children with
  | step node ih =>
      have children : ∀ child ∈ node.children, Obeys packageName child :=
        fun child mem => (ih child mem).1
      refine ⟨?_, children⟩
      cases node with
      | expr value => exact expr_obeys children
      | field item => exact field_obeys (children _ (by simp [Node.children]))
      | fieldList list =>
          exact fieldList_obeys fun item mem => children _ (List.mem_map.mpr ⟨item, mem, rfl⟩)
      | stmt step => exact stmt_obeys children fun child mem => (ih child mem).2
      | spec item => exact spec_obeys children
      | decl item => exact decl_obeys children
      | file source => intro mode symbol check isCheck; cases mode <;> cases isCheck
      | comment text => intro mode symbol check isCheck; cases mode <;> cases isCheck

/-! ### Files and packages -/

theorem packageSpec_follows (tok : Token) (item : Spec) :
    Follows packageName symbol ((Node.spec item).events (.packageSpec tok))
      (Check.collectSpec tok item) := by
  rw [events_eq]
  cases item with
  | importSpec item => exact .nil
  | valueSpec span names type values =>
      have follows : Follows packageName symbol
          (names.flatMap fun name => [.declare name (if tok = .kwConst then .const else .var)])
          (Check.collectSpec tok (.valueSpec span names type values)) :=
        .flatMap fun name _ => .single fun _ _ _ => rfl
      exact follows.of_eq (by simp [plan, children, specChildren, List.flatMap_map, ident, namePlan])
  | typeSpec span name type isAlias =>
      have follows : Follows packageName symbol [.declare name .type]
          (Check.collectSpec tok (.typeSpec span name type isAlias)) :=
        .single fun _ _ _ => rfl
      exact follows.of_eq (by simp [plan, children, specChildren, ident, namePlan])

theorem packageDecl_follows (item : Decl) :
    Follows packageName symbol ((Node.decl item).events .package) (Check.collectDecl item) := by
  rw [events_eq]
  cases item with
  | gen item =>
      have follows : Follows packageName symbol
          (item.specs.flatMap fun spec => (Node.spec spec).events (.packageSpec item.tok))
          (item.specs.forM (Check.collectSpec item.tok)) :=
        .flatMap fun spec _ => packageSpec_follows item.tok spec
      exact follows.of_eq (by simp [plan, children, declChildren, List.flatMap_map])
  | func item =>
      obtain ⟨span, recv, name, type, body⟩ := item
      by_cases isInit : name.name = "init"
      · have nothing : Follows packageName symbol [] (pure ()) := .nil
        cases recv <;>
          simpa [plan, children, declChildren, ident, namePlan, isInit, Check.collectDecl]
            using nothing
      · cases recv with
        | none =>
            have follows : Follows packageName symbol [.declare name .func]
                (do let _ ← Check.declare name .func) :=
              .single fun _ _ _ => rfl
            simpa [plan, children, declChildren, ident, namePlan, isInit, Check.collectDecl]
              using follows
        | some recv => exact .nil

theorem events_imports (item : Decl) :
    (Node.decl item).events .imports = item.imports.map .bind := by
  have specEvents (item : Spec) :
      (Node.spec item).events .imports = item.import?.toList.map .bind := by
    rw [events_eq]
    cases item <;> rfl
  rw [events_eq]
  cases item with
  | gen item =>
      have specsEvents (items : List Spec) :
          items.flatMap (fun item => (Node.spec item).events .imports) =
            (items.filterMap Spec.import?).map .bind := by
        induction items with
        | nil => rfl
        | cons item items ih =>
            rw [List.flatMap_cons, specEvents, ih]
            cases item <;> rfl
      simp [plan, children, declChildren, List.flatMap_map, specsEvents, Decl.imports]
  | func item => rfl

end Node

/-- The events of a file do what its check does. -/
theorem fileEvents_follow {packageName : String → String} {symbol : Option Object} (source : File) :
    Follows packageName symbol ((Node.file source).events .file)
      (Check.file packageName source) := by
  have begun : Follows packageName symbol [.beginFile]
      (modify fun state => { state with lenient := false }) :=
    .single fun _ _ _ => rfl
  have importsFollow : Follows packageName symbol
      (source.imports.flatMap fun item => [.bind item])
      (source.imports.forM (Check.importName packageName)) :=
    .flatMap fun item _ => .single fun _ _ _ => rfl
  have declsFollow : Follows packageName symbol
      (source.decls.flatMap fun item => (Node.decl item).events .top)
      (source.decls.forM Check.topDecl) :=
    .flatMap fun item _ => Node.obeys packageName (.decl item) .top symbol _ rfl
  refine (begun.cons (importsFollow.append declsFollow)).inScope.of_eq ?_
  rw [Node.events_eq]
  simp [Node.plan, Node.children, List.flatMap_map, Node.events_imports, File.imports,
    List.flatMap_assoc, ← List.map_eq_flatMap]

/-- The events of a package do what its check does. -/
theorem run_packageEvents (packageName : String → String) (files : List File) :
    Event.run packageName (packageEvents files) {} =
      CheckPoint.perform {} (Check.package packageName files) := by
  have declared : Follows packageName none
      (files.flatMap fun source => (Node.file source).events .package)
      (files.forM fun source => source.decls.forM Check.collectDecl) := by
    refine .flatMap fun source _ => ?_
    have follows : Follows packageName none
        (source.decls.flatMap fun item => (Node.decl item).events .package)
        (source.decls.forM Check.collectDecl) :=
      .flatMap fun item _ => Node.packageDecl_follows item
    refine follows.of_eq ?_
    rw [Node.events_eq]
    simp [Node.plan, Node.children, List.flatMap_map]
  have checked : Follows packageName none
      (files.flatMap fun source => (Node.file source).events .file)
      (files.forM (Check.file packageName)) :=
    .flatMap fun source _ => fileEvents_follow source
  exact declared.append checked {} rfl rfl

/-- The findings of a package are those that its events leave. -/
theorem packageFindings_eq (packageName : String → String) (files : List File) :
    packageFindings packageName files =
      (Event.run packageName (packageEvents files) {}).map (·.state.findings) := by
  rw [run_packageEvents]
  simp only [packageFindings, CheckPoint.perform]
  cases (Check.package packageName files).run {} <;> rfl

end GoMend
