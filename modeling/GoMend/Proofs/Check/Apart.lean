import GoMend.Proofs.Check.Fitting
import GoMend.Proofs.Check.Visits

/-!
# Visits that lie apart

Some nodes are visited twice: the types of parameters are read before their names are declared, the
labels of a function are looked for before its statements are checked, and the names of a package are
declared before anything else.  Two such ways of visiting a node have nothing to report at the same
position, and in a plan two steps lead to one child only if they are such ways of visiting it.
-/

namespace GoMend

open PlanStep

/-- The position at which an event can be reported, at once or when the check is over. -/
def Event.anchor? : Event → Option Pos
  | .use name | .select name | .assign name | .declare name _ | .declareLocal name | .param name
  | .defineName name | .label name | .useLabel name => some name.span.start
  | .notAName target => some target.span.start
  | .endDefine tokPos | .notASymbol tokPos => some tokPos
  | .symbol name tokPos => some (if name.isBlank then tokPos else name.span.start)
  | .bind spec => some spec.span.start
  | _ => none

/-- A spot is an anchor. -/
theorem Event.anchor?_of_spot? {happens : Event} {pos : Pos} (isSpot : happens.spot? = some pos) :
    happens.anchor? = some pos := by
  cases happens with
  | declare name kind => cases kind <;> simp_all [spot?, declared?, anchor?]
  | _ => simp_all [spot?, declared?, anchor?]

namespace Mode

/-- Whether a way of visiting is one of those of what stands in a function. -/
def isInner : Mode → Bool
  | .label | .funcName | .param | .params | .labels | .function => false
  | .package | .packageSpec _ | .imports | .top | .file => false
  | _ => true

/-- Whether a way of visiting is one of those of what stands at the top of a file. -/
def isOuter : Mode → Bool
  | .package | .packageSpec _ | .imports | .top | .file => true
  | _ => false

/-- The first way of visiting a node reports nothing at a position where the second one does. -/
def isBeside : Mode → Mode → Bool
  | .value, .params | .imports, .top | .file, .package => true
  | .top, .package | .top, .packageSpec _ | .imports, .package | .imports, .packageSpec _ => true
  | .labels, mode => mode.isInner
  | _, _ => false

end Mode

namespace PlanStep

/-- Two steps of plans have nothing to report at the same position. -/
def Apart : PlanStep → PlanStep → Prop
  | .event first, .event second => first.anchor? = none ∨ second.anchor? = none
  | .visit mode index, .visit other index' => index = index' → mode.isBeside other
  | _, _ => True

@[simp]
theorem apart_event_event (first second : Event) :
    Apart (event first) (event second) ↔ first.anchor? = none ∨ second.anchor? = none :=
  Iff.rfl

@[simp]
theorem apart_event_visit (happens : Event) (mode : Mode) (index : Nat) :
    Apart (event happens) (visit mode index) :=
  trivial

@[simp]
theorem apart_visit_event (happens : Event) (mode : Mode) (index : Nat) :
    Apart (visit mode index) (event happens) :=
  trivial

@[simp]
theorem apart_visit_visit (mode other : Mode) (index index' : Nat) :
    Apart (visit mode index) (visit other index') ↔ (index = index' → mode.isBeside other) :=
  Iff.rfl

@[simp]
theorem pairwise_apart_visits (mode : Mode) (start count : Nat) :
    (visits mode start count).Pairwise Apart := by
  rw [visits, List.pairwise_map]
  refine List.Pairwise.imp ?_ List.pairwise_lt_range'
  intro first second less same
  omega

@[simp]
theorem pairwise_apart_labels (start count : Nat) :
    (visits .labels start count).reverse.Pairwise Apart := by
  rw [List.pairwise_reverse, visits, List.pairwise_map]
  refine List.Pairwise.imp ?_ List.pairwise_lt_range'
  intro first second less same
  omega

@[simp]
theorem forall_mem_visits {mode : Mode} {start count : Nat} {holds : PlanStep → Prop} :
    (∀ step ∈ visits mode start count, holds step) ↔
      ∀ index, start ≤ index → index < start + count → holds (visit mode index) := by
  simp only [visits, List.forall_mem_map, List.mem_range'_1, and_imp]

end PlanStep

namespace Node

theorem pairwise_apart_exprPlan (isTarget isElement : Bool) (value : Expr) :
    (exprPlan isTarget isElement value).Pairwise Apart := by
  cases value <;> cases isTarget <;> cases isElement <;>
    simp [exprPlan, List.pairwise_append, Mode.isBeside,
      Event.anchor?]
  all_goals grind -ring -linarith

theorem pairwise_apart_stmtPlan (step : Stmt) : (stmtPlan step).Pairwise Apart := by
  cases step with
  | assign span lhs tok rhs tokPos =>
      simp only [stmtPlan]
      split
      · simp only [List.pairwise_append, List.forall_mem_append, forall_mem_visits]
        simp 
        lia
      · split <;> simp [List.pairwise_append] <;> lia
  | range span key value tok operand body tokPos =>
      simp only [stmtPlan]
      split
      · simp only [List.cons_append, List.pairwise_cons, List.pairwise_append,
          List.forall_mem_append, List.forall_mem_cons, forall_mem_visits]
        simp [Event.anchor?]
        lia
      · split
        · simp only [List.cons_append, List.pairwise_cons, List.pairwise_append,
            List.forall_mem_append, List.forall_mem_cons, forall_mem_visits]
          simp [Event.anchor?]
          lia
        · simp only [List.cons_append, List.pairwise_cons, List.pairwise_append,
            List.forall_mem_append, List.forall_mem_cons, forall_mem_visits]
          simp [Event.anchor?]
          lia
  | _ =>
      simp only [stmtPlan, List.cons_append, List.pairwise_cons, List.pairwise_append,
        List.forall_mem_append, List.forall_mem_cons, forall_mem_visits]
      simp [Event.anchor?] <;> try lia

theorem pairwise_apart_namePlan (mode : Mode) (name : Ident) :
    (namePlan mode name).Pairwise Apart := by
  unfold namePlan
  split <;> (try split) <;> simp

/-- No two steps of a plan report at the same position. -/
theorem pairwise_apart_plan (mode : Mode) (node : Node) : (node.plan mode).Pairwise Apart := by
  unfold plan
  split
  case h_18 lhs _ _ _ =>
    cases lhs <;> simp [List.pairwise_append]
    lia
  case h_28 names type values =>
    simp only [List.pairwise_append, forall_mem_visits]
    split <;> simp  <;> lia
  case h_32 => split <;> simp
  case h_20 | h_23 | h_24 | h_40 | h_41 =>
    simp only [List.cons_append, List.pairwise_cons, List.pairwise_append, List.forall_mem_append,
      List.forall_mem_cons, List.mem_reverse, forall_mem_visits]
    simp [Event.anchor?, Mode.isBeside, Mode.isInner] <;> try lia
  all_goals
    simp [pairwise_apart_stmtPlan, pairwise_apart_exprPlan, pairwise_apart_namePlan]

/-! ### Two ways of visiting a node -/

/-- Whether a node is a labelled statement. -/
def isLabeled : Node → Bool
  | .stmt (.labeled ..) => true
  | _ => false

/-- An expression that is no function visits its children in inner ways. -/
theorem isInner_exprPlan {isTarget isElement : Bool} {value : Expr} {visited : Mode} {index : Nat}
    (notLit : ¬(Node.expr value).isFuncLit)
    (isVisit : visit visited index ∈ exprPlan isTarget isElement value) : visited.isInner := by
  unfold exprPlan at isVisit
  split at isVisit
  case h_3 => exact absurd rfl notLit
  all_goals
    simp at isVisit
    grind -ring -linarith [Mode.isInner]

/-- A statement visits its children in inner ways, and not its label. -/
theorem isInner_stmtPlan {step : Stmt} {visited : Mode} {index : Nat}
    (isVisit : visit visited index ∈ stmtPlan step) :
    visited.isInner ∧ ((Node.stmt step).isLabeled → index = 1) := by
  cases step <;> simp [stmtPlan] at isVisit <;> grind -ring -linarith [Mode.isInner, isLabeled, visit_mem_visits]

/-- What stands in a function is visited in inner ways, unless it is a function itself, and the label
of a statement is not. -/
theorem isInner_of_visit {mode visited : Mode} {index : Nat} {node : Node} (inner : mode.isInner)
    (notLit : ¬node.isFuncLit) (isVisit : visit visited index ∈ node.plan mode) :
    visited.isInner ∧ (node.isLabeled → index = 1) := by
  unfold plan at isVisit
  split at isVisit
  case h_1 => exact absurd isVisit (visit_notMem_namePlan _ _ _ _)
  all_goals first
    | exact ⟨isInner_exprPlan notLit isVisit, fun isLabeled => by cases isLabeled⟩
    | exact isInner_stmtPlan isVisit
    | (cases inner; done)
    | (simp at isVisit; done)
    | (simp at isVisit; grind -ring -linarith [Mode.isInner, isLabeled, visit_mem_visits])

/-- The labels of a function are looked for in all that stands in it, but in no other function. -/
theorem visit_of_labels {node : Node} {planned : PlanStep} (isPlanned : planned ∈ node.plan .labels) :
    ¬node.isFuncLit ∧ ((∃ index, planned = visit .labels index) ∨
      node.isLabeled ∧ planned = visit .label 0) := by
  unfold plan at isPlanned
  split at isPlanned <;> simp_all [namePlan, visits, isFuncLit, isLabeled] <;> grind

/-- The labels of a function are visited beside what else stands in it. -/
theorem apart_of_labels {mode : Mode} {node : Node} (inner : mode.isInner) :
    ∀ first ∈ node.plan .labels, ∀ second ∈ node.plan mode, Apart first second := by
  intro first isFirst second isSecond
  obtain ⟨notLit, ⟨index, rfl⟩ | ⟨isLabeled, rfl⟩⟩ := visit_of_labels isFirst
  · cases second with
    | event happens => trivial
    | visit visited index' => exact fun _ => (isInner_of_visit inner notLit isSecond).1
  · cases second with
    | event happens => trivial
    | visit visited index' =>
        intro same
        have notLabel := (isInner_of_visit inner notLit isSecond).2 isLabeled
        exact absurd (same.trans notLabel) Nat.zero_ne_one

/-- Outside functions no expression is visited. -/
theorem plan_expr_of_isOuter {mode : Mode} (outer : mode.isOuter) (value : Expr) :
    plan mode (.expr value) = [] := by
  unfold Mode.isOuter at outer
  split at outer
  case h_6 => cases outer
  all_goals cases value <;> rfl

/-- Outside functions no statement is visited. -/
theorem plan_stmt_of_isOuter {mode : Mode} (outer : mode.isOuter) (step : Stmt) :
    plan mode (.stmt step) = [] := by
  unfold Mode.isOuter at outer
  split at outer
  case h_6 => cases outer
  all_goals cases step <;> rfl

theorem apart_of_plan_eq_nil {mode : Mode} {node : Node} {steps : List PlanStep}
    (none : node.plan mode = []) :
    ∀ first ∈ node.plan mode, ∀ second ∈ steps, Apart first second := by
  simp [none]

/-- Two ways of visiting a node one beside the other do not report at the same position. -/
theorem apart_of_isBeside {mode other : Mode} (beside : mode.isBeside other) (node : Node) :
    ∀ first ∈ node.plan mode, ∀ second ∈ node.plan other, Apart first second := by
  unfold Mode.isBeside at beside
  split at beside
  case h_1 =>
    cases node with
    | expr value =>
        cases value with
        | funcType type => simp [plan, exprPlan, Mode.isBeside]
        | _ => simp [plan, namePlan]
    | field item => simp [plan]; lia
    | fieldList list => simp [plan, Mode.isBeside]
    | stmt step => cases step <;> exact apart_of_plan_eq_nil rfl
    | _ => exact apart_of_plan_eq_nil rfl
  case h_2 =>
    cases node with
    | expr value => exact apart_of_plan_eq_nil (plan_expr_of_isOuter rfl value)
    | stmt step => exact apart_of_plan_eq_nil (plan_stmt_of_isOuter rfl step)
    | decl item => cases item <;> simp [plan, Mode.isBeside]
    | spec item => cases item <;> simp [plan]
    | _ => exact apart_of_plan_eq_nil rfl
  case h_3 =>
    cases node with
    | expr value => exact apart_of_plan_eq_nil (plan_expr_of_isOuter rfl value)
    | stmt step => exact apart_of_plan_eq_nil (plan_stmt_of_isOuter rfl step)
    | file source =>
        simp only [plan, List.cons_append, List.forall_mem_append, List.forall_mem_cons,
          forall_mem_visits]
        simp [Mode.isBeside]
    | _ => exact apart_of_plan_eq_nil rfl
  case h_4 =>
    cases node with
    | expr value => exact apart_of_plan_eq_nil (plan_expr_of_isOuter rfl value)
    | stmt step => exact apart_of_plan_eq_nil (plan_stmt_of_isOuter rfl step)
    | decl item =>
        cases item with
        | gen item => simp [plan, Mode.isBeside]
        | func item =>
            simp only [plan]
            split
            · simp
            · simp only [List.cons_append, List.forall_mem_append, List.forall_mem_cons,
                forall_mem_visits]
              simp_all
              lia
    | spec item => cases item <;> simp [plan]
    | _ => exact apart_of_plan_eq_nil rfl
  case h_5 =>
    cases node with
    | expr value => exact apart_of_plan_eq_nil (plan_expr_of_isOuter rfl value)
    | stmt step => exact apart_of_plan_eq_nil (plan_stmt_of_isOuter rfl step)
    | spec item => cases item <;> simp [plan]; lia
    | decl item => cases item <;> simp [plan]
    | _ => exact apart_of_plan_eq_nil rfl
  case h_6 =>
    cases node with
    | expr value => exact apart_of_plan_eq_nil (plan_expr_of_isOuter rfl value)
    | stmt step => exact apart_of_plan_eq_nil (plan_stmt_of_isOuter rfl step)
    | decl item =>
        cases item with
        | gen item => simp [plan, Mode.isBeside]
        | func item => simp [plan]
    | spec item => cases item <;> simp [plan]
    | _ => exact apart_of_plan_eq_nil rfl
  case h_7 =>
    cases node with
    | expr value => exact apart_of_plan_eq_nil (plan_expr_of_isOuter rfl value)
    | stmt step => exact apart_of_plan_eq_nil (plan_stmt_of_isOuter rfl step)
    | spec item => cases item <;> simp [plan]
    | decl item => cases item <;> simp [plan]
    | _ => exact apart_of_plan_eq_nil rfl
  case h_8 => exact apart_of_labels beside
  case h_9 => cases beside

end Node

end GoMend
