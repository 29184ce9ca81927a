import GoMend.Proofs.Check.Context

/-!
# Where events happen

Every event of a check belongs to the plan of one node, which the check comes to through the plans
of the nodes above it.  Imports are bound at the top of a file only, and a `:=` ends in the
statement that it belongs to.
-/

namespace GoMend

open PlanStep

/-- The position of the `:=` of a statement. -/
def Stmt.defineAt? : Stmt → Option Pos
  | .assign _ _ .define _ tokPos | .range _ _ _ (some .define) _ _ tokPos => some tokPos
  | _ => none

namespace Node

/-- A check that visits a node in some way comes to a node below it. -/
inductive Visits : Mode → Node → Address → Mode → Node → Prop
  | here (mode : Mode) (node : Node) : Visits mode node [] mode node
  | step {mode visited last : Mode} {node child owner : Node} {index : Nat} {address : Address}
      (isVisit : .visit visited index ∈ node.plan mode)
      (isChild : node.children[index]? = some child)
      (rest : Visits visited child address last owner) :
      Visits mode node (index :: address) last owner

theorem Visits.get? {mode last : Mode} {node owner : Node} {address : Address}
    (visits : Visits mode node address last owner) : node.get? address = some owner := by
  induction visits with
  | here => rfl
  | step isVisit isChild rest ih => simp [Node.get?, isChild, ih]

/-- Every event belongs to the plan of a node that the check comes to. -/
theorem exists_visits {mode : Mode} {node : Node} {happens : Event}
    (mem : happens ∈ node.events mode) :
    ∃ address last owner, Visits mode node address last owner ∧
      .event happens ∈ owner.plan last := by
  induction node using induction_children generalizing mode with
  | _ node ih =>
      rw [events_eq, List.mem_flatMap] at mem
      obtain ⟨planned, isPlanned, mem⟩ := mem
      cases planned with
      | event other =>
          obtain rfl : happens = other := by simpa using mem
          exact ⟨[], mode, node, .here mode node, isPlanned⟩
      | visit visited index =>
          rw [events_visit] at mem
          cases isChild : node.children[index]? with
          | none => simp [isChild] at mem
          | some child =>
              simp only [isChild, Option.elim_some] at mem
              obtain ⟨address, last, owner, visits, isEvent⟩ :=
                ih child (List.mem_of_getElem? isChild) mem
              exact ⟨index :: address, last, owner, .step isPlanned isChild visits, isEvent⟩

/-! ### The steps of plans -/

@[simp]
theorem event_notMem_visits (happens : Event) (mode : Mode) (start count : Nat) :
    event happens ∉ PlanStep.visits mode start count := by
  simp [PlanStep.visits]

@[simp]
theorem visit_notMem_namePlan (mode visited : Mode) (name : Ident) (index : Nat) :
    visit visited index ∉ namePlan mode name := by
  unfold namePlan
  split <;> (try split) <;> simp

theorem event_mem_exprPlan {isTarget isElement : Bool} {value : Expr} {happens : Event}
    (mem : event happens ∈ exprPlan isTarget isElement value) :
    happens = .enter "function" ∨ happens = .leave := by
  cases value <;> simp [exprPlan] at mem
  exact mem

theorem event_mem_stmtPlan {step : Stmt} {happens : Event} (mem : event happens ∈ stmtPlan step) :
    (∀ spec, happens ≠ .bind spec) ∧
      ∀ tokPos, happens = .endDefine tokPos → step.defineAt? = some tokPos := by
  cases step with
  | assign span lhs tok rhs tokPos =>
      simp only [stmtPlan] at mem
      split at mem
      · next isDefine =>
          subst isDefine
          obtain rfl : happens = .endDefine tokPos := by simpa using mem
          simp [Stmt.defineAt?]
      · split at mem <;> simp at mem
  | range span key value tok operand body tokPos =>
      simp only [stmtPlan] at mem
      split at mem
      · next isDefine =>
          subst isDefine
          simp at mem
          grind -ring -linarith [Stmt.defineAt?]
      · split at mem <;> simp at mem <;> grind -ring -linarith
  | _ => simp [stmtPlan] at mem <;> grind -ring -linarith

/-! ### Imports -/

/-- Whether a check that visits a node in some way may come to imports. -/
def seesImports : Mode → Bool
  | .imports | .file => true
  | _ => false

theorem seesImports_exprPlan {isTarget isElement : Bool} {value : Expr} {visited : Mode}
    {index : Nat} (mem : visit visited index ∈ exprPlan isTarget isElement value) :
    seesImports visited = false := by
  cases value <;> cases isTarget <;> cases isElement <;> simp [exprPlan] at mem <;>
    grind -ring -linarith [seesImports]

theorem seesImports_stmtPlan {step : Stmt} {visited : Mode}
    {index : Nat} (mem : visit visited index ∈ stmtPlan step) :
    seesImports visited = false := by
  cases step <;> simp [stmtPlan] at mem <;> grind -ring -linarith [seesImports, visit_mem_visits]

theorem seesImports_of_visit {mode visited : Mode} {node : Node} {index : Nat}
    (mem : visit visited index ∈ node.plan mode) (sees : seesImports visited) :
    seesImports mode := by
  unfold plan at mem
  split at mem <;>
    first
    | rfl
    | simp [seesImports_exprPlan mem] at sees
    | simp [seesImports_stmtPlan mem] at sees
    | (simp at mem; done)
    | (simp at mem; grind -ring -linarith [seesImports, visit_mem_visits])

/-- What the plans of a check say about an event that is none of a name. -/
theorem event_mem_plan {mode : Mode} {node : Node} {happens : Event}
    (mem : event happens ∈ node.plan mode) :
    (∀ spec, happens = .bind spec → mode = .imports) ∧
      ∀ tokPos, happens = .endDefine tokPos →
        (mode = .stmt ∨ mode = .guard) ∧
          ∃ step, node = .stmt step ∧ step.defineAt? = some tokPos := by
  unfold plan at mem
  split at mem
  case h_1 =>
    unfold namePlan at mem
    split at mem <;> (try split at mem) <;> simp at mem <;> simp [mem]
  all_goals first
    | (obtain rfl | rfl := event_mem_exprPlan mem <;> simp)
    | (have isOne := event_mem_stmtPlan mem; simp; grind -ring -linarith)
    | (simp at mem; done)
    | (simp at mem; subst mem; simp)
    | (simp at mem; grind -ring -linarith)

theorem Visits.seesImports {mode last : Mode} {node owner : Node} {address : Address}
    (visits : Visits mode node address last owner) (sees : Node.seesImports last) :
    Node.seesImports mode := by
  induction visits with
  | here => exact sees
  | step isVisit isChild rest ih => exact seesImports_of_visit isVisit (ih sees)

theorem bind_notMem_events {mode : Mode} (node : Node) (blind : seesImports mode = false)
    (spec : ImportSpec) : .bind spec ∉ node.events mode := by
  intro mem
  obtain ⟨address, last, owner, visits, isEvent⟩ := exists_visits mem
  obtain rfl := (event_mem_plan isEvent).1 spec rfl
  simp [visits.seesImports rfl] at blind

/-- Only the imports of a file are bound in its check. -/
theorem mem_imports_of_bind {file : File} {spec : ImportSpec}
    (mem : .bind spec ∈ (Node.file file).events .file) : spec ∈ file.imports := by
  have notTop (item : Decl) : .bind spec ∉ (Node.decl item).events .top :=
    bind_notMem_events _ rfl spec
  rw [events_eq] at mem
  simpa [plan, children, List.flatMap_map, events_imports, File.imports, notTop] using mem

/-! ### Contexts -/

/-- What is not skimmed in the end is not skimmed on the way. -/
theorem Visits.isSkim_eq_false {mode last : Mode} {node owner : Node} {address : Address}
    (visits : Visits mode node address last owner) (notSkim : last.isSkim = false)
    (notName : owner.sort ≠ .ident) : mode.isSkim = false := by
  induction visits with
  | here => exact notSkim
  | @step mode visited last node child owner index address isVisit isChild rest ih =>
      have visitedNotSkim := ih notSkim notName
      by_contra skim
      have childNotName : child.sort ≠ .ident := by
        cases rest with
        | here => exact notName
        | step _ isInner => exact sort_ne_ident_of_child isInner
      have visitedSkim := isSkim_of_visit (by simpa using skim) isVisit isChild childNotName
      simp [visitedNotSkim] at visitedSkim

theorem exists_splitAt? {index : Nat} {mode : Mode} {steps : List PlanStep}
    (mem : visit mode index ∈ steps) (notSkim : mode.isSkim = false)
    (nodup : (steps.flatMap checked).Nodup) :
    ∃ before after, splitAt? index steps = some (before, mode, after) := by
  induction steps with
  | nil => simp at mem
  | cons step steps ih =>
      rw [List.flatMap_cons, List.nodup_append] at nodup
      obtain ⟨-, nodup, apart⟩ := nodup
      rw [splitAt?]
      cases checks : step.checks? index with
      | some other =>
          cases step with
          | event happens => cases checks
          | visit visited place =>
              simp only [checks?, Option.ite_none_right_eq_some, Bool.and_eq_true,
                decide_eq_true_eq, Bool.not_eq_true', Option.some.injEq] at checks
              obtain ⟨⟨rfl, visitedNotSkim⟩, rfl⟩ := checks
              obtain same | isLater := List.mem_cons.mp mem
              · obtain ⟨rfl, -⟩ := visit.inj same
                exact ⟨[], steps, rfl⟩
              · have isChecked : place ∈ steps.flatMap checked :=
                  List.mem_flatMap.mpr ⟨_, isLater, by simp [notSkim]⟩
                exact absurd rfl (apart place (by simp [visitedNotSkim]) place isChecked)
      | none =>
          obtain rfl | isLater := List.mem_cons.mp mem
          · simp [checks?, notSkim] at checks
          · obtain ⟨before, after, split⟩ := ih isLater nodup
            exact ⟨step :: before, after, by simp [split]⟩

/-- A check that comes to a node has a context there. -/
theorem Visits.exists_context {mode last : Mode} {node owner : Node} {address : Address}
    (visits : Visits mode node address last owner) (notSkim : last.isSkim = false)
    (notName : owner.sort ≠ .ident) :
    ∃ context, node.context? mode address = some context ∧ context.mode = last := by
  induction visits with
  | here mode node => exact ⟨⟨[], mode, []⟩, rfl, rfl⟩
  | @step mode visited last node child owner index address isVisit isChild rest ih =>
      obtain ⟨inner, isInner, rfl⟩ := ih notSkim notName
      obtain ⟨before, after, split⟩ :=
        exists_splitAt? isVisit (rest.isSkim_eq_false notSkim notName) (nodup_checked_plan _ _)
      have isContext : node.context? mode (index :: address) = some
          { inner with
            before := before.flatMap (PlanStep.events Node.events node.children) ++ inner.before
            after := inner.after ++ after.flatMap (PlanStep.events Node.events node.children) } := by
        simp [context?, split, isChild, isInner]
      exact ⟨_, isContext, rfl⟩

end Node

/-! ### Packages -/

/-- The check of a package that comes to a node has a context there. -/
theorem exists_packageContext {files : List File} {unit : Nat} {file : File}
    {address : Node.Address} {mode : Mode} {owner : Node} (isFile : files[unit]? = some file)
    (visits : Node.Visits .file (.file file) address mode owner) (notSkim : mode.isSkim = false)
    (notName : owner.sort ≠ .ident) :
    ∃ context, packageContext? files unit address = some context ∧ context.mode = mode := by
  obtain ⟨inner, isInner, rfl⟩ := visits.exists_context notSkim notName
  rw [packageContext?, isFile, Option.bind_eq_bind, Option.bind_some, isInner]
  exact ⟨_, rfl, rfl⟩

theorem exists_file_of_bind {files : List File} {spec : ImportSpec}
    (mem : .bind spec ∈ packageEvents files) : ∃ file ∈ files, spec ∈ file.imports := by
  rw [packageEvents, List.mem_append, List.mem_flatMap, List.mem_flatMap] at mem
  obtain ⟨file, -, mem⟩ | ⟨file, isFile, mem⟩ := mem
  · exact absurd mem (Node.bind_notMem_events _ rfl spec)
  · exact ⟨file, isFile, Node.mem_imports_of_bind mem⟩

end GoMend
