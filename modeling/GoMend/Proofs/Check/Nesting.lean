import GoMend.Proofs.Check.Runs

/-!
# What a visit leaves in place

The events of a node leave every scope that they enter, and restore what they set aside.  Only the
innermost scope around the node, the labels of its function and the variable of the switch around
it can be other ones after a visit, and which of them depends on the way of the visit.
-/

namespace GoMend

open PlanStep

/-! ### Nested events -/

/-- What events may change around them. -/
structure Reach where
  /-- The innermost scope. -/
  declares : Bool := false
  /-- The labels of the function. -/
  labels : Bool := false
  /-- The variable of the innermost switch. -/
  symbol : Bool := false

namespace Reach

/-- Whether what one reach allows is allowed by another one too. -/
structure Le (inner outer : Reach) : Prop where
  declares : inner.declares → outer.declares
  labels : inner.labels → outer.labels
  symbol : inner.symbol → outer.symbol

theorem Le.refl (reach : Reach) : Le reach reach :=
  ⟨id, id, id⟩

variable {reach : Reach}

theorem empty_le : Le {} reach :=
  ⟨by simp, by simp, by simp⟩

theorem declares_le (declares : reach.declares) : Le { declares := true } reach :=
  ⟨fun _ => declares, by simp, by simp⟩

theorem labels_le (labels : reach.labels) : Le { labels := true } reach :=
  ⟨by simp, fun _ => labels, by simp⟩

theorem both_le (declares : reach.declares) (labels : reach.labels) :
    Le { declares := true, labels := true } reach :=
  ⟨fun _ => declares, fun _ => labels, by simp⟩

theorem symbol_le (symbol : reach.symbol) : Le { symbol := true } reach :=
  ⟨by simp, by simp, fun _ => symbol⟩

end Reach

namespace Event

/-- Whether an event that stands for itself stays in a reach. -/
def staysIn (reach : Reach) : Event → Bool
  | .use _ | .select _ | .assign _ | .key _ | .notASymbol _ | .beginFile | .reject _ => true
  | .declare .. | .declareLocal _ | .param _ | .clause | .bind _ => reach.declares
  | .label _ | .useLabel _ => reach.labels
  | .symbol .. => reach.symbol
  | .enter _ | .leave | .defineName _ | .notAName _ | .endDefine _ | .openLabels | .closeLabels => false
  | .openSwitch | .closeSwitch => false

/-- Whether an event belongs to what stands on the left of `:=`. -/
def isTarget : Event → Bool
  | .defineName _ | .notAName _ => true
  | _ => false

end Event

/-- Events that leave what they enter and stay in a reach. -/
inductive Nested : Reach → List Event → Prop
  | nil (reach : Reach) : Nested reach []
  | single {reach : Reach} {happens : Event} {rest : List Event} (stays : happens.staysIn reach)
      (others : Nested reach rest) : Nested reach (happens :: rest)
  | define {reach : Reach} {targets rest : List Event} (tokPos : Pos) (declares : reach.declares)
      (areTargets : ∀ happens ∈ targets, happens.isTarget) (others : Nested reach rest) :
      Nested reach (targets ++ .endDefine tokPos :: rest)
  | scope {reach : Reach} {inner rest : List Event} (kind : String)
      (inside : Nested { reach with declares := true } inner) (others : Nested reach rest) :
      Nested reach (.enter kind :: (inner ++ .leave :: rest))
  | labels {reach : Reach} {inner rest : List Event}
      (inside : Nested { reach with labels := true } inner) (others : Nested reach rest) :
      Nested reach (.openLabels :: (inner ++ .closeLabels :: rest))
  | switch {reach : Reach} {inner rest : List Event}
      (inside : Nested { reach with symbol := true } inner) (others : Nested reach rest) :
      Nested reach (.openSwitch :: (inner ++ .closeSwitch :: rest))

namespace Nested

variable {reach : Reach} {first second events : List Event}

theorem append (firstNested : Nested reach first) (secondNested : Nested reach second) :
    Nested reach (first ++ second) := by
  induction firstNested with
  | nil => exact secondNested
  | single stays others ih => exact .single stays (ih secondNested)
  | define tokPos declares areTargets others ih =>
      rw [List.append_assoc]
      exact .define tokPos declares areTargets (ih secondNested)
  | scope kind inside others insideIh ih =>
      rw [List.cons_append, List.append_assoc]
      exact .scope kind inside (ih secondNested)
  | labels inside others insideIh ih =>
      rw [List.cons_append, List.append_assoc]
      exact .labels inside (ih secondNested)
  | switch inside others insideIh ih =>
      rw [List.cons_append, List.append_assoc]
      exact .switch inside (ih secondNested)

theorem one {happens : Event} (stays : happens.staysIn reach) : Nested reach [happens] :=
  .single stays (.nil reach)

theorem mono {wide : Reach} (nested : Nested reach events) (le : reach.Le wide) :
    Nested wide events := by
  induction nested generalizing wide with
  | nil => exact .nil wide
  | @single reach happens rest stays others ih =>
      refine .single ?_ (ih le)
      cases happens <;> simp only [Event.staysIn] at stays ⊢ <;>
        first | exact le.declares stays | exact le.labels stays | exact le.symbol stays | cases stays
  | define tokPos declares areTargets others ih =>
      exact .define tokPos (le.declares declares) areTargets (ih le)
  | scope kind inside others insideIh ih =>
      exact .scope kind (insideIh ⟨id, le.labels, le.symbol⟩) (ih le)
  | labels inside others insideIh ih =>
      exact .labels (insideIh ⟨le.declares, id, le.symbol⟩) (ih le)
  | switch inside others insideIh ih =>
      exact .switch (insideIh ⟨le.declares, le.labels, id⟩) (ih le)

theorem flatMap {α : Type} {parts : List α} {eventsOf : α → List Event}
    (each : ∀ part ∈ parts, Nested reach (eventsOf part)) :
    Nested reach (parts.flatMap eventsOf) := by
  induction parts with
  | nil => exact .nil reach
  | cons part parts ih =>
      obtain ⟨partNested, partsNested⟩ := List.forall_mem_cons.mp each
      exact partNested.append (ih partsNested)

end Nested

/-! ### The events of nodes -/

/-- What a visit of a node in some way may change around it. -/
def Mode.reach : Mode → Reach
  | .value | .target | .operand | .element | .key | .top | .file => {}
  | .label | .useLabel | .labels | .caseBody | .commBody | .caseClause | .commClause =>
      { labels := true }
  | .stmt => { declares := true, labels := true }
  | .symbol _ => { symbol := true }
  | .guard => { declares := true, labels := true, symbol := true }
  | _ => { declares := true }

namespace Node

/-- The events of what stands on the left of `:=`. -/
theorem isTarget_of_mem_define {target : Expr} {happens : Event}
    (mem : happens ∈ (Node.expr target).events .define) : happens.isTarget := by
  cases target with
  | ident name =>
      rw [events_ident] at mem
      simp only [namePlan, List.flatMap_cons, List.flatMap_nil, events_event, List.append_nil,
        List.mem_singleton] at mem
      exact mem ▸ rfl
  | _ =>
      rw [events_define_of_notName (by simp), List.mem_singleton] at mem
      exact mem ▸ rfl

/-- Whether the visits of the children of a node stay in the reach of their ways. -/
def NestedBelow (node : Node) : Prop :=
  ∀ child ∈ node.children, ∀ mode ≠ .define, Nested mode.reach (child.events mode)

namespace NestedBelow

variable {node : Node} {reach : Reach}

/-- A visit of a child stays in any reach that allows its way. -/
theorem visit (below : NestedBelow node) (reach : Reach) (mode : Mode) (notDefine : mode ≠ .define)
    (le : mode.reach.Le reach) (index : Nat) :
    Nested reach ((PlanStep.visit mode index).events Node.events node.children) := by
  rw [events_visit]
  cases found : node.children[index]? with
  | none => exact .nil reach
  | some child => exact (below child (List.mem_of_getElem? found) mode notDefine).mono le

theorem visits (below : NestedBelow node) (reach : Reach) (mode : Mode) (notDefine : mode ≠ .define)
    (le : mode.reach.Le reach) (start count : Nat) :
    Nested reach ((PlanStep.visits mode start count).flatMap
      (PlanStep.events Node.events node.children)) := by
  refine .flatMap fun step mem => ?_
  obtain ⟨index, -, rfl⟩ := List.mem_map.mp mem
  exact below.visit _ mode notDefine le index

theorem exprPlan (below : NestedBelow node) (isTarget isElement : Bool) (value : Expr) :
    Nested reach ((exprPlan isTarget isElement value).flatMap
      (PlanStep.events Node.events node.children)) := by
  cases value with
  | selector =>
      simp only [Node.exprPlan, List.flatMap_cons, List.flatMap_nil, List.append_nil]
      exact below.visit _ .operand (by simp) Reach.empty_le 0
  | composite =>
      simp only [Node.exprPlan, List.flatMap_append]
      exact (below.visits _ .value (by simp) Reach.empty_le _ _).append
        (below.visits _ .element (by simp) Reach.empty_le _ _)
  | funcLit =>
      have type := below.visit { reach with declares := true } .value (by simp)
        Reach.empty_le 0
      have params := below.visit { reach with declares := true } .params (by simp)
        (Reach.declares_le rfl) 0
      have body := below.visit { reach with declares := true } .function (by simp)
        (Reach.declares_le rfl) 1
      simpa [Node.exprPlan] using
        Nested.scope "function" (type.append (params.append body)) (.nil reach)
  | paren =>
      simp only [Node.exprPlan, List.flatMap_cons, List.flatMap_nil, List.append_nil]
      cases isTarget
      · exact below.visit _ .value (by simp) Reach.empty_le 0
      · exact below.visit _ .target (by simp) Reach.empty_le 0
  | keyValue =>
      have word := below.visit reach .value (by simp) Reach.empty_le 1
      simp only [Node.exprPlan, List.flatMap_cons, List.flatMap_nil, List.append_nil]
      cases isElement
      · exact (below.visit _ .value (by simp) Reach.empty_le 0).append word
      · exact (below.visit _ .key (by simp) Reach.empty_le 0).append word
  | _ => exact below.visits _ .value (by simp) Reach.empty_le _ _

end NestedBelow

/-- The events of a `:=` with its targets. -/
theorem nested_define {reach : Reach} {children : List Node} {start count : Nat} (tokPos : Pos)
    (declares : reach.declares)
    (areExprs : ∀ child ∈ (children.drop start).take count, ∃ target, child = .expr target) :
    Nested reach ((PlanStep.visits .define start count ++ [event (.endDefine tokPos)]).flatMap
      (PlanStep.events Node.events children)) := by
  rw [List.flatMap_append, flatMap_visits, List.flatMap_cons, List.flatMap_nil, events_event]
  refine .define tokPos declares (fun happens mem => ?_) (.nil reach)
  obtain ⟨child, isChild, mem⟩ := List.mem_flatMap.mp mem
  obtain ⟨target, rfl⟩ := areExprs child isChild
  exact isTarget_of_mem_define mem

theorem NestedBelow.stmtPlan {reach : Reach} {step : Stmt} (below : NestedBelow (.stmt step))
    (declares : reach.declares) (labels : reach.labels) :
    Nested reach ((stmtPlan step).flatMap
      (PlanStep.events Node.events (Node.stmt step).children)) := by
  have values (reach : Reach) (start count : Nat) :=
    below.visits reach .value (by simp) Reach.empty_le start count
  have stmts (reach : Reach) (declares : reach.declares) (labels : reach.labels)
      (start count : Nat) :=
    below.visits _ .stmt (by simp) (Reach.both_le declares labels) start count
  cases step with
  | assign span lhs tok rhs tokPos =>
      simp only [Node.stmtPlan]
      split
      · rw [List.flatMap_append]
        refine (values _ _ _).append (nested_define tokPos declares fun child mem => ?_)
        simp [children, stmtChildren] at mem
        grind -ring -linarith
      · split <;> rw [List.flatMap_append]
        · exact (values _ _ _).append (below.visits _ .target (by simp) Reach.empty_le _ _)
        · exact (values _ _ _).append (values _ _ _)
  | branch => exact below.visits _ .useLabel (by simp) (Reach.labels_le labels) _ _
  | block body =>
      have inside := stmts { reach with declares := true } rfl labels 0 body.stmts.length
      simpa only [Node.stmtPlan, List.flatMap_append, List.flatMap_cons, List.flatMap_nil, events_event, List.append_assoc, List.cons_append, List.nil_append, List.append_nil] using Nested.scope "block" inside (.nil reach)
  | labeled =>
      have inner := below.visit _ .stmt (by simp) (Reach.both_le declares labels) 1
      simpa only [Node.stmtPlan, List.flatMap_append, List.flatMap_cons, List.flatMap_nil, events_event, List.append_assoc, List.cons_append, List.nil_append, List.append_nil] using inner
  | decl =>
      have inner := below.visit _ .localDecl (by simp) (Reach.declares_le declares) 0
      simpa only [Node.stmtPlan, List.flatMap_append, List.flatMap_cons, List.flatMap_nil, events_event, List.append_assoc, List.cons_append, List.nil_append, List.append_nil] using inner
  | ifElse span init cond body otherwise =>
      have inits := stmts { reach with declares := true } rfl labels 0 init.toList.length
      have conds := below.visit { reach with declares := true } .value (by simp)
        Reach.empty_le init.toList.length
      have first := below.visit { reach with declares := true } .stmt (by simp)
        (Reach.both_le rfl labels) (init.toList.length + 1)
      have second := stmts { reach with declares := true } rfl labels
        (init.toList.length + 2) otherwise.toList.length
      simpa only [Node.stmtPlan, List.flatMap_append, List.flatMap_cons, List.flatMap_nil, events_event, List.append_assoc, List.cons_append, List.nil_append, List.append_nil] using
        Nested.scope "if" (inits.append (conds.append (first.append second))) (.nil reach)
  | switch span init tag body =>
      have inits := stmts { reach with declares := true } rfl labels 0 init.toList.length
      have tags := values { reach with declares := true } init.toList.length
        tag.toList.length
      have clauses := below.visit { reach with declares := true, symbol := true }
        .caseBody (by simp) (Reach.labels_le labels) (init.toList.length + tag.toList.length)
      simpa only [Node.stmtPlan, List.flatMap_append, List.flatMap_cons, List.flatMap_nil, events_event,
        List.append_assoc, List.cons_append, List.nil_append, List.append_nil] using
        Nested.scope "switch" (inits.append (tags.append (.switch clauses (.nil _)))) (.nil reach)
  | typeSwitch span init guard body =>
      have inits := stmts { reach with declares := true } rfl labels 0 init.toList.length
      have guards := below.visit { reach with declares := true, symbol := true }
        .guard (by simp) ⟨fun _ => rfl, fun _ => labels, fun _ => rfl⟩ init.toList.length
      have clauses := below.visit { reach with declares := true, symbol := true }
        .caseBody (by simp) (Reach.labels_le labels) (init.toList.length + 1)
      simpa only [Node.stmtPlan, List.flatMap_append, List.flatMap_cons, List.flatMap_nil, events_event,
        List.append_assoc, List.cons_append, List.nil_append, List.append_nil] using
        Nested.scope "switch" (inits.append (.switch (guards.append clauses) (.nil _))) (.nil reach)
  | select =>
      have inner := below.visit _ .commBody (by simp) (Reach.labels_le labels) 0
      simpa only [Node.stmtPlan, List.flatMap_append, List.flatMap_cons, List.flatMap_nil, events_event, List.append_assoc, List.cons_append, List.nil_append, List.append_nil] using inner
  | loop span init cond post body =>
      have inits := stmts { reach with declares := true } rfl labels 0 init.toList.length
      have conds := values { reach with declares := true } init.toList.length
        cond.toList.length
      have posts := stmts { reach with declares := true } rfl labels
        (init.toList.length + cond.toList.length) post.toList.length
      have bodies := stmts { reach with declares := true } rfl labels
        (init.toList.length + cond.toList.length + post.toList.length) body.toList.length
      simpa only [Node.stmtPlan, List.flatMap_append, List.flatMap_cons, List.flatMap_nil, events_event,
        List.append_assoc, List.cons_append, List.nil_append, List.append_nil] using
        Nested.scope "for" (inits.append (conds.append (posts.append bodies))) (.nil reach)
  | range span key value tok operand body tokPos =>
      let count := key.toList.length + value.toList.length
      have operands := below.visit reach .value (by simp) Reach.empty_le count
      have bodies := stmts { reach with declares := true } rfl labels (count + 1)
        body.toList.length
      have targets : Nested { reach with declares := true }
          ((if tok = some .define then
              PlanStep.visits .define 0 count ++ [event (.endDefine tokPos)]
            else if tok = some .assign then
              PlanStep.visits .target 0 count
            else
              []).flatMap
            (PlanStep.events Node.events
              (Node.stmt (.range span key value tok operand body tokPos)).children)) := by
        split
        · refine nested_define tokPos rfl fun child mem => ?_
          simp [children, stmtChildren, count] at mem
          grind -ring -linarith
        · split
          · exact below.visits _ .target (by simp) Reach.empty_le _ _
          · exact .nil _
      simpa only [Node.stmtPlan, List.flatMap_append, List.flatMap_cons, List.flatMap_nil, events_event,
        List.append_assoc, List.cons_append, List.nil_append, List.append_nil] using
        operands.append (Nested.scope "range" (targets.append bodies) (.nil reach))
  | caseClause | commClause => exact .one rfl
  | _ => exact values _ _ _

theorem nested_namePlan (mode : Mode) (notDefine : mode ≠ .define) (name : Ident) :
    Nested mode.reach ((namePlan mode name).flatMap (PlanStep.events Node.events [])) := by
  unfold namePlan
  split <;> (try split) <;> try exact .one rfl
  · exact absurd rfl notDefine
  · exact .nil _
  · exact .nil _
  · exact .nil _

/-- The events of every node stay in the reach of the way in which it is visited. -/
theorem events_nested (node : Node) (mode : Mode) (notDefine : mode ≠ .define) :
    Nested mode.reach (node.events mode) := by
  induction node using induction_children generalizing mode with
  | step node ih =>
      have below : NestedBelow node := fun child mem mode notDefine => ih child mem mode notDefine
      rw [events_eq]
      unfold plan
      split
      case h_1 name => exact nested_namePlan _ notDefine name
      case h_7 => exact absurd rfl notDefine
      case h_8 => exact .one rfl
      case h_14 => exact .nil _
      case h_15 span label inner =>
        have labels := below.visit _ .label (by simp) (Reach.Le.refl { labels := true }) 0
        have inners := below.visit _ .labels (by simp) (Reach.Le.refl { labels := true }) 1
        simpa only [Mode.reach, List.flatMap_append, List.flatMap_cons, List.flatMap_nil, events_event,
          List.append_assoc, List.cons_append, List.nil_append, List.append_nil] using labels.append inners
      case h_16 =>
        refine .flatMap fun planned mem => ?_
        obtain ⟨index, -, rfl⟩ := List.mem_map.mp (List.mem_reverse.mp mem)
        exact below.visit _ .labels (by simp) (.refl _) index
      case h_17 => exact below.stmtPlan rfl rfl
      case h_18 span lhs tok rhs tokPos =>
        rw [List.flatMap_append]
        refine (below.visits _ .value (by simp) Reach.empty_le _ _).append ?_
        split
        · exact .one rfl
        · simpa only [Mode.reach, List.flatMap_append, List.flatMap_cons, List.flatMap_nil, events_event,
          List.append_assoc, List.cons_append, List.nil_append, List.append_nil] using
            below.visit _ (.symbol tokPos) (by simp) (Reach.symbol_le rfl) 0
      case h_19 => exact below.stmtPlan rfl rfl
      case h_20 body =>
        have labels : Nested { declares := true, labels := true }
            ((PlanStep.visits .labels 0 body.stmts.length).reverse.flatMap
              (PlanStep.events Node.events (Node.stmt (.block body)).children)) := by
          refine .flatMap fun planned mem => ?_
          obtain ⟨index, -, rfl⟩ := List.mem_map.mp (List.mem_reverse.mp mem)
          exact below.visit _ .labels (by simp) (Reach.labels_le rfl) index
        have steps := below.visits _ .stmt (by simp)
          (Reach.Le.refl { declares := true, labels := true }) 0 body.stmts.length
        have all : Nested { declares := true } _ := .labels (labels.append steps) (.nil _)
        simpa only [Mode.reach, List.flatMap_append, List.flatMap_cons, List.flatMap_nil, events_event,
          List.append_assoc, List.cons_append, List.nil_append, List.append_nil] using all
      case h_23 span exprs body colon =>
        let values := (exprs.getD []).length
        have exprs := below.visits { labels := true } .value (by simp) Reach.empty_le 0
          values
        have steps := below.visits _ .stmt (by simp)
          (Reach.Le.refl { declares := true, labels := true }) values body.length
        have inside : Nested { declares := true, labels := true } _ :=
          .single (show Event.clause.staysIn _ from rfl) steps
        simpa only [Mode.reach, List.flatMap_append, List.flatMap_cons, List.flatMap_nil, events_event,
          List.append_assoc, List.cons_append, List.nil_append, List.append_nil] using exprs.append (.scope "case" inside (.nil _))
      case h_24 span comm body colon =>
        have comms := below.visits _ .stmt (by simp)
          (Reach.Le.refl { declares := true, labels := true }) 0 comm.toList.length
        have steps := below.visits _ .stmt (by simp)
          (Reach.Le.refl { declares := true, labels := true }) comm.toList.length body.length
        have all : Nested { labels := true } _ := .scope "case" (comms.append steps) (.nil _)
        simpa only [Mode.reach, List.flatMap_append, List.flatMap_cons, List.flatMap_nil, events_event,
          List.append_assoc, List.cons_append, List.nil_append, List.append_nil] using all
      case h_25 | h_26 | h_36 => exact .one rfl
      case h_28 tok span names type values =>
        rw [List.flatMap_append]
        refine (below.visits _ .value (by simp) Reach.empty_le _ _).append ?_
        split
        · exact below.visits _ .declareLocal (by simp) (.refl _) _ _
        · exact below.visits _ (.declare .const) (by simp) (.refl _) _ _
      case h_29 =>
        have names := below.visit _ (.declare .type) (by simp) (Reach.Le.refl { declares := true }) 0
        have types := below.visit { declares := true } .value (by simp) Reach.empty_le 1
        simpa only [Mode.reach, List.flatMap_append, List.flatMap_cons, List.flatMap_nil, events_event,
          List.append_assoc, List.cons_append, List.nil_append, List.append_nil] using names.append types
      case h_32 item =>
        split
        · exact .nil _
        · simpa only [Mode.reach, List.flatMap_append, List.flatMap_cons, List.flatMap_nil, events_event,
          List.append_assoc, List.cons_append, List.nil_append, List.append_nil] using
            below.visit _ .funcName (by simp) (Reach.Le.refl { declares := true }) 0
      case h_40 item =>
        let recvs := item.recv.toList.length
        have first := below.visits { declares := true } .value (by simp) Reach.empty_le 0
          recvs
        have types := below.visit { declares := true } .value (by simp) Reach.empty_le
          (recvs + 1)
        have params := below.visits _ .params (by simp) (Reach.Le.refl { declares := true }) 0 recvs
        have others := below.visit _ .params (by simp) (Reach.Le.refl { declares := true }) (recvs + 1)
        have bodies := below.visits _ .function (by simp) (Reach.Le.refl { declares := true })
          (recvs + 2) item.body.toList.length
        have all : Nested {} _ := .scope "function"
          (first.append (types.append (params.append (others.append bodies)))) (.nil _)
        simpa only [Mode.reach, List.flatMap_append, List.flatMap_cons, List.flatMap_nil, events_event,
          List.append_assoc, List.cons_append, List.nil_append, List.append_nil] using all
      case h_41 source =>
        have imports := below.visits _ .imports (by simp) (Reach.Le.refl { declares := true }) 1
          source.decls.length
        have tops := below.visits { declares := true } .top (by simp) Reach.empty_le 1
          source.decls.length
        have inside : Nested { declares := true } _ :=
          .single (show Event.beginFile.staysIn _ from rfl) (imports.append tops)
        have all : Nested {} _ := .scope "file" inside (.nil _)
        simpa only [Mode.reach, List.flatMap_append, List.flatMap_cons, List.flatMap_nil, events_event,
          List.append_assoc, List.cons_append, List.nil_append, List.append_nil] using all
      case h_42 => exact .nil _
      case h_2 | h_3 | h_4 | h_5 | h_6 => exact below.exprPlan _ _ _
      -- What remains visits children in one way, which has the reach of the node's own or none.
      all_goals
        try rw [List.flatMap_cons, List.flatMap_nil, List.append_nil]
        first | refine below.visits _ _ ?notDefine ?le _ _ | refine below.visit _ _ ?notDefine ?le _
        case notDefine => simp
        case le => exact .refl _

end Node

/-! ### Runs of nested events -/

/-- What events of a reach leave as it was. -/
structure Reach.Keeps (reach : Reach) (point after : CheckPoint) : Prop where
  length : after.state.scopes.length = point.state.scopes.length
  outer : after.state.scopes.tail = point.state.scopes.tail
  scopes : reach.declares = false → after.state.scopes = point.state.scopes
  outerLabels : after.outerLabels = point.outerLabels
  labels : reach.labels = false → after.state.labels = point.state.labels
  outerSymbols : after.symbols.tail = point.symbols.tail
  symbols : reach.symbol = false → after.symbols = point.symbols
  isFresh : point.isFresh = false → after.isFresh = false

namespace Reach.Keeps

variable {reach : Reach} {point middle after : CheckPoint}

theorem refl (reach : Reach) (point : CheckPoint) : reach.Keeps point point :=
  ⟨rfl, rfl, fun _ => rfl, rfl, fun _ => rfl, rfl, fun _ => rfl, id⟩

theorem trans (first : reach.Keeps point middle) (second : reach.Keeps middle after) :
    reach.Keeps point after where
  length := second.length.trans first.length
  outer := second.outer.trans first.outer
  scopes none := (second.scopes none).trans (first.scopes none)
  outerLabels := second.outerLabels.trans first.outerLabels
  labels none := (second.labels none).trans (first.labels none)
  outerSymbols := second.outerSymbols.trans first.outerSymbols
  symbols none := (second.symbols none).trans (first.symbols none)
  isFresh isOld := second.isFresh (first.isFresh isOld)

end Reach.Keeps

namespace Check

variable (state : CheckState) (ident : Ident)

/-- A state with other findings and readings. -/
def SameScopes (old new : CheckState) : Prop :=
  new.scopes = old.scopes ∧ new.labels = old.labels

/-- A state in which something may be declared. -/
def SameOuterScopes (old new : CheckState) : Prop :=
  new.scopes.length = old.scopes.length ∧ new.scopes.tail = old.scopes.tail ∧
    new.labels = old.labels

theorem sameScopes_resolved : SameScopes state (resolved state ident).2 := by
  unfold resolved
  split
  · exact ⟨rfl, rfl⟩
  · dsimp only
    split <;> exact ⟨rfl, rfl⟩

theorem sameScopes_usedName : SameScopes state (usedName state ident) := by
  have same := sameScopes_resolved state ident
  unfold usedName
  split
  · exact ⟨rfl, rfl⟩
  · generalize resolved state ident = outcome at same ⊢
    rcases outcome with ⟨_ | object, after⟩
    · exact same
    · dsimp only
      split <;> exact same

theorem sameOuterScopes_holding (object : Object) :
    SameOuterScopes state (state.holding object) := by
  unfold CheckState.holding
  split
  · exact ⟨rfl, rfl, rfl⟩
  · next isOuter => exact ⟨by simp [isOuter], by simp [isOuter], rfl⟩

theorem sameOuterScopes_declared (kind : ObjectKind) :
    SameOuterScopes state (declared state ident kind).2 := by
  unfold declared
  split
  · exact ⟨rfl, rfl, rfl⟩
  · split
    · exact ⟨rfl, rfl, rfl⟩
    · exact sameOuterScopes_holding state.made _

theorem sameOuterScopes_declaredLocal : SameOuterScopes state (declaredLocal state ident) := by
  have same := sameOuterScopes_declared state ident .var
  unfold declaredLocal
  generalize declared state ident .var = outcome at same ⊢
  rcases outcome with ⟨_ | object, after⟩ <;> exact same

theorem sameOuterScopes_declaredParam : SameOuterScopes state (declaredParam state ident) := by
  unfold declaredParam
  split
  · exact ⟨rfl, rfl, rfl⟩
  · split
    · exact ⟨rfl, rfl, rfl⟩
    · exact sameOuterScopes_holding state.made _

theorem sameOuterScopes_bound (packageName : String → String) (spec : ImportSpec) :
    SameOuterScopes state (bound state packageName spec) := by
  have rest (state : CheckState) (name : String) (object : Object) :
      SameOuterScopes state (if state.declares name then
        state.made.reporting spec.span.start (.redeclared name)
      else
        state.made.holding object) := by
    split
    · exact ⟨rfl, rfl, rfl⟩
    · exact sameOuterScopes_holding state.made _
  unfold bound
  cases boundName? packageName spec with
  | none => dsimp only; split <;> exact ⟨rfl, rfl, rfl⟩
  | some name =>
      cases spec.name.any (·.name = ".") with
      | false => exact rest state name _
      | true => exact rest { state with lenient := true } name _

theorem scopes_usedLabel : (usedLabel state ident).scopes = state.scopes := by
  unfold usedLabel
  split <;> rfl

theorem scopes_declaredLabel : (declaredLabel state ident).scopes = state.scopes := by
  unfold declaredLabel
  split <;> rfl

end Check

namespace Event

/-- An event that stays in a reach keeps what is beyond it. -/
theorem next_keeps {reach : Reach} {happens : Event} (stays : happens.staysIn reach)
    (packageName : String → String) (point : CheckPoint) :
    reach.Keeps point (happens.next packageName point) := by
  obtain ⟨state, outerLabels, symbols, isFresh⟩ := point
  have quiet {new : CheckState} (same : Check.SameScopes state new) :
      reach.Keeps ⟨state, outerLabels, symbols, isFresh⟩ ⟨new, outerLabels, symbols, isFresh⟩ :=
    ⟨congrArg _ same.1, congrArg _ same.1, fun _ => same.1, rfl, fun _ => same.2, rfl,
      fun _ => rfl, id⟩
  have declares {new : CheckState} (allowed : reach.declares)
      (same : Check.SameOuterScopes state new) :
      reach.Keeps ⟨state, outerLabels, symbols, isFresh⟩ ⟨new, outerLabels, symbols, isFresh⟩ :=
    ⟨same.1, same.2.1, fun none => by simp [none] at allowed, rfl, fun _ => same.2.2, rfl,
      fun _ => rfl, id⟩
  have labelled {new : CheckState} (allowed : reach.labels) (same : new.scopes = state.scopes) :
      reach.Keeps ⟨state, outerLabels, symbols, isFresh⟩ ⟨new, outerLabels, symbols, isFresh⟩ :=
    ⟨congrArg _ same, congrArg _ same, fun _ => same, rfl, fun none => by simp [none] at allowed,
      rfl, fun _ => rfl, id⟩
  cases happens with
  | use name => exact quiet (Check.sameScopes_usedName _ name)
  | select name =>
      refine quiet ?_
      split
      · exact Check.sameScopes_usedName _ name
      · exact Check.sameScopes_resolved _ name
  | assign name =>
      refine quiet ?_
      unfold Check.assigned
      split <;> exact ⟨rfl, rfl⟩
  | key name =>
      refine quiet ?_
      unfold Check.usedKey
      split <;> exact ⟨rfl, rfl⟩
  | notASymbol | beginFile | reject => exact quiet ⟨rfl, rfl⟩
  | declare name kind => exact declares stays (Check.sameOuterScopes_declared _ name kind)
  | declareLocal name => exact declares stays (Check.sameOuterScopes_declaredLocal _ name)
  | param name => exact declares stays (Check.sameOuterScopes_declaredParam _ name)
  | bind spec => exact declares stays (Check.sameOuterScopes_bound _ packageName spec)
  | label name => exact labelled stays (Check.scopes_declaredLabel _ name)
  | useLabel name => exact labelled stays (Check.scopes_usedLabel _ name)
  | clause =>
      simp only [next]
      cases symbols.headD none with
      | none => exact .refl _ _
      | some object =>
          dsimp only
          split
          · exact .refl _ _
          · exact declares stays (Check.sameOuterScopes_holding _ object)
  | symbol name tokPos =>
      simp only [next]
      split
      · exact quiet ⟨rfl, rfl⟩
      · exact ⟨rfl, rfl, fun _ => rfl, rfl, fun _ => rfl, rfl,
          fun none => by simp [staysIn, none] at stays, id⟩
  | _ => cases stays

/-- The targets of a `:=` are declared in the innermost scope. -/
theorem run_targets_keeps {packageName : String → String} {targets : List Event}
    (areTargets : ∀ happens ∈ targets, happens.isTarget) {point after : CheckPoint}
    (outcome : run packageName targets point = .ok after) :
    Check.SameOuterScopes point.state after.state ∧ after.outerLabels = point.outerLabels ∧
      after.symbols = point.symbols := by
  induction targets generalizing point with
  | nil => exact Except.ok.inj outcome ▸ ⟨⟨rfl, rfl, rfl⟩, rfl, rfl⟩
  | cons happens targets ih =>
      obtain ⟨first, others⟩ := List.forall_mem_cons.mp areTargets
      rw [run_cons] at outcome
      cases failed : happens.failure? with
      | some error => simp [failed] at outcome
      | none =>
          rw [failed] at outcome
          obtain ⟨⟨length, outer, labels⟩, outerLabels, symbols⟩ := ih others outcome
          have step : Check.SameOuterScopes point.state (happens.next packageName point).state ∧
              (happens.next packageName point).outerLabels = point.outerLabels ∧
                (happens.next packageName point).symbols = point.symbols := by
            cases happens with
            | defineName name =>
                simp only [next]
                split
                · exact ⟨⟨rfl, rfl, rfl⟩, rfl, rfl⟩
                · exact ⟨Check.sameOuterScopes_declaredLocal _ name, rfl, rfl⟩
            | notAName target =>
                simp only [next]
                split <;> exact ⟨⟨rfl, rfl, rfl⟩, rfl, rfl⟩
            | _ => cases first
          obtain ⟨⟨stepLength, stepOuter, stepLabels⟩, stepOuterLabels, stepSymbols⟩ := step
          exact ⟨⟨length.trans stepLength, outer.trans stepOuter, labels.trans stepLabels⟩,
            outerLabels.trans stepOuterLabels, symbols.trans stepSymbols⟩

end Event

/-- Nested events keep what is beyond their reach. -/
theorem Nested.keeps {reach : Reach} {events : List Event} (nested : Nested reach events)
    {packageName : String → String} {point after : CheckPoint}
    (outcome : Event.run packageName events point = .ok after) : reach.Keeps point after := by
  induction nested generalizing point after with
  | nil => exact Except.ok.inj outcome ▸ .refl _ _
  | @single reach happens rest stays others ih =>
      rw [Event.run_cons] at outcome
      cases failed : happens.failure? with
      | some error => simp [failed] at outcome
      | none =>
          rw [failed] at outcome
          exact (Event.next_keeps stays packageName point).trans (ih outcome)
  | @define reach targets rest tokPos declares areTargets others ih =>
      obtain ⟨middle, targetsRun, restRun⟩ := Event.exists_of_run_append outcome
      obtain ⟨⟨length, outer, labels⟩, outerLabels, symbols⟩ :=
        Event.run_targets_keeps areTargets targetsRun
      rw [Event.run_cons] at restRun
      refine Reach.Keeps.trans ?_ (ih restRun)
      simp only [Event.next]
      split
      · exact ⟨length, outer, fun none => by simp [none] at declares, outerLabels, fun _ => labels,
          congrArg _ symbols, fun _ => symbols, fun _ => rfl⟩
      · next notFresh =>
        exact ⟨length, outer, fun none => by simp [none] at declares, outerLabels, fun _ => labels,
          congrArg _ symbols, fun _ => symbols, fun _ => by simpa using notFresh⟩
  | @scope reach inner rest kind inside others insideIh ih =>
      obtain ⟨middle, innerRun, restRun⟩ := Event.exists_of_run_append outcome
      obtain ⟨length, outer, -, outerLabels, labels, outerSymbols, symbols, isFresh⟩ :=
        insideIh innerRun
      refine Reach.Keeps.trans ?_ (ih restRun)
      have scopesEq : middle.state.scopes.tail = point.state.scopes := outer
      exact ⟨congrArg _ scopesEq, congrArg _ scopesEq, fun _ => scopesEq, outerLabels, labels,
        outerSymbols, symbols, isFresh⟩
  | @labels reach inner rest inside others insideIh ih =>
      obtain ⟨middle, innerRun, restRun⟩ := Event.exists_of_run_append outcome
      rw [Event.run_cons] at restRun
      obtain ⟨length, outer, scopes, outerLabels, -, outerSymbols, symbols, isFresh⟩ :=
        insideIh innerRun
      refine Reach.Keeps.trans ?_ (ih restRun)
      have outerEq : middle.outerLabels = point.state.labels :: point.outerLabels := outerLabels
      refine ⟨length, outer, scopes, ?_, fun _ => ?_, outerSymbols, symbols, isFresh⟩
      · exact congrArg List.tail outerEq
      · exact congrArg (·.headD []) outerEq
  | @switch reach inner rest inside others insideIh ih =>
      obtain ⟨middle, innerRun, restRun⟩ := Event.exists_of_run_append outcome
      obtain ⟨length, outer, scopes, outerLabels, labels, outerSymbols, -, isFresh⟩ :=
        insideIh innerRun
      refine Reach.Keeps.trans ?_ (ih restRun)
      have symbolsEq : middle.symbols.tail = point.symbols := outerSymbols
      exact ⟨length, outer, scopes, outerLabels, labels, congrArg _ symbolsEq, fun _ => symbolsEq,
        isFresh⟩

end GoMend
