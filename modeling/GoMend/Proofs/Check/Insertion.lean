import GoMend.Fix.DiscardRead
import GoMend.Proofs.Check.Context

/-!
# Inserting a discard read

A list of statements is found by its address, and its statements are visited one after the other.
The events of a tree are cut before a statement of such a list into those before and those after
it.  A discard read that is inserted there adds its own events at the cut and changes nothing else.
-/

namespace GoMend

open PlanStep

namespace Node

/-- The number of steps of a plan before the first statement of the list that the node holds. -/
def leadCount? : Mode → Node → Option Nat
  | .stmt, .stmt (.block _) => some 1
  | .function, .stmt (.block body) => some (1 + body.stmts.length)
  | .caseClause, .stmt (.caseClause _ exprs _ _) => some ((exprs.getD []).length + 2)
  | .commClause, .stmt (.commClause _ comm _ _) => some (1 + comm.toList.length)
  | _, _ => none

/-- The events of a node before and after the statement with the given index of the list of
statements that it holds.  There are none when the list is not checked as one of statements. -/
def cut? (index : Nat) (mode : Mode) (node : Node) : Option (List Event × List Event) := do
  let lead ← node.leadCount? mode
  let stmts ← node.ownStmts?
  if index ≤ stmts.length then
    let steps := node.plan mode
    some ((steps.take (lead + index)).flatMap (PlanStep.events Node.events node.children),
      (steps.drop (lead + index)).flatMap (PlanStep.events Node.events node.children))
  else
    none

/-- The node with one more statement in the list that it holds. -/
def insertStmt (index : Nat) (added : Stmt) : Node → Node
  | .stmt (.block ⟨span, stmts⟩) =>
      .stmt (.block ⟨span, stmts.take index ++ added :: stmts.drop index⟩)
  | .stmt (.caseClause span exprs body colon) =>
      .stmt (.caseClause span exprs (body.take index ++ added :: body.drop index) colon)
  | .stmt (.commClause span comm body colon) =>
      .stmt (.commClause span comm (body.take index ++ added :: body.drop index) colon)
  | other => other

/-! ### The events of an inserted discard read -/

/-- The events of a discard read. -/
def readEvents (name : String) : List Event :=
  [.use { name }, .assign { name := "_" }]

theorem events_discardRead (name : String) :
    (Node.stmt (.discardRead name)).events .stmt = readEvents name := by
  rw [events_eq]
  simp [Stmt.discardRead, plan, stmtPlan, children, stmtChildren, namePlan, readEvents]

/-- The events of a list of statements with one more statement, where other steps stand around
those that visit them. -/
theorem flatMap_insert {steps steps' : List PlanStep} {count : Nat} (lead lead' : List PlanStep)
    (trail : Event) (others : List Node) {stmts : List Stmt} {index : Nat} (added : Stmt)
    (inside : index ≤ stmts.length) (countEq : count = lead.length)
    (stepsEq : steps =
      lead ++ (visits .stmt others.length stmts.length ++ [event trail]))
    (stepsEq' : steps' =
      lead' ++ (visits .stmt others.length (stmts.take index ++ added :: stmts.drop index).length ++
        [event trail]))
    (leadEq : lead'.flatMap (PlanStep.events Node.events
        (others ++ (stmts.take index ++ added :: stmts.drop index).map Node.stmt)) =
      lead.flatMap (PlanStep.events Node.events (others ++ stmts.map Node.stmt))) :
    steps'.flatMap (PlanStep.events Node.events
        (others ++ (stmts.take index ++ added :: stmts.drop index).map Node.stmt)) =
      (steps.take (count + index)).flatMap
          (PlanStep.events Node.events (others ++ stmts.map Node.stmt)) ++
        (Node.stmt added).events .stmt ++
        (steps.drop (count + index)).flatMap
          (PlanStep.events Node.events (others ++ stmts.map Node.stmt)) := by
  subst stepsEq stepsEq' countEq
  have front : (lead ++ (visits .stmt others.length stmts.length ++ [event trail])).take
      (lead.length + index) = lead ++ visits .stmt others.length index := by
    rw [List.take_length_add_append, List.take_append_of_le_length (by rwa [length_visits]),
      take_visits inside]
  have back : (lead ++ (visits .stmt others.length stmts.length ++ [event trail])).drop
      (lead.length + index) =
        visits .stmt (others.length + index) (stmts.length - index) ++ [event trail] := by
    rw [List.drop_length_add_append, List.drop_append_of_le_length (by rwa [length_visits]),
      drop_visits]
  rw [front, back]
  simp only [List.flatMap_append, leadEq, flatMap_visits, List.drop_left, take_length_map,
    List.drop_length_add_append]
  rw [List.take_of_length_le (by simp : (List.drop _ _).length ≤ stmts.length - index)]
  simp [List.map_take, List.map_drop]

theorem flatMap_labels_visits (stmts : List Stmt) :
    (visits .labels 0 stmts.length).reverse.flatMap
        (PlanStep.events Node.events (stmts.map Node.stmt)) =
      (stmts.map Node.stmt).reverse.flatMap (events .labels) := by
  have all := flatMap_reverse_visits Node.events (stmts.map Node.stmt) .labels
  rwa [List.length_map] at all

theorem flatMap_labels_insert (index : Nat) (name : String) (stmts : List Stmt) :
    ((stmts.take index ++ .discardRead name :: stmts.drop index).map Node.stmt).reverse.flatMap
        (events .labels) =
      (stmts.map Node.stmt).reverse.flatMap (events .labels) := by
  have readLabels : (Node.stmt (.discardRead name)).events .labels = [] := by
    have notLit : ¬(Node.stmt (.discardRead name)).isFuncLit := by simp [isFuncLit]
    rw [events_labels notLit]
    simp [Stmt.discardRead, ownLabel?, children, stmtChildren, namePlan]
  conv_rhs => rw [← List.take_append_drop index stmts]
  simp only [List.map_append, List.map_cons, List.reverse_append, List.reverse_cons,
    List.flatMap_append, List.flatMap_cons, List.flatMap_nil, readLabels, List.append_nil]

/-- The only skim that looks into a statement is the one for labels. -/
theorem alike_stmt {new old : Stmt} (sortEq : (Node.stmt new).sort = (Node.stmt old).sort)
    (labelsEq : (Node.stmt new).events .labels = (Node.stmt old).events .labels) :
    Alike (.stmt new) (.stmt old) := by
  refine ⟨sortEq, by cases old <;> simp [sort], fun mode skim => ?_⟩
  cases mode with
  | labels => exact labelsEq
  | params | imports | package | packageSpec tok =>
      rw [events_eq, events_eq]
      simp [plan]
  | _ => cases skim

theorem insertStmt_alike (index : Nat) (name : String) (step : Stmt) :
    Alike (insertStmt index (.discardRead name) (.stmt step)) (.stmt step) := by
  cases step with
  | block body =>
      obtain ⟨span, stmts⟩ := body
      refine alike_stmt rfl ?_
      rw [events_labels (by simp [isFuncLit]), events_labels (by simp [isFuncLit])]
      exact congrArg _ (flatMap_labels_insert index name stmts)
  | caseClause span exprs body colon =>
      refine alike_stmt rfl ?_
      rw [events_labels (by simp [isFuncLit]), events_labels (by simp [isFuncLit])]
      simp only [children, stmtChildren, List.reverse_append, List.flatMap_append,
        flatMap_labels_insert]
      rfl
  | commClause span comm body colon =>
      refine alike_stmt rfl ?_
      rw [events_labels (by simp [isFuncLit]), events_labels (by simp [isFuncLit])]
      simp only [children, stmtChildren, List.reverse_append, List.flatMap_append,
        flatMap_labels_insert]
      rfl
  | _ => exact alike_stmt rfl rfl

/-- What a discard read in a list of statements does to the events of the list. -/
theorem events_insertStmt {index : Nat} {mode : Mode} {node : Node} {before after : List Event}
    (name : String) (isCut : node.cut? index mode = some (before, after)) :
    node.events mode = before ++ after ∧
      (node.insertStmt index (.discardRead name)).events mode =
        before ++ readEvents name ++ after ∧
      Alike (node.insertStmt index (.discardRead name)) node := by
  simp only [cut?, Option.bind_eq_bind, Option.bind_eq_some_iff, Option.ite_none_right_eq_some]
    at isCut
  obtain ⟨lead, leads, stmts, owned, inside, isCut⟩ := isCut
  cases isCut
  refine ⟨?_, ?_, ?_⟩
  · rw [events_eq, ← List.flatMap_append, List.take_append_drop]
  · rw [← events_discardRead, events_eq]
    unfold leadCount? at leads
    split at leads
    · next body =>
        obtain ⟨span, steps⟩ := body
        cases leads
        cases owned
        exact flatMap_insert [.event (.enter "block")] [.event (.enter "block")] .leave []
          (.discardRead name) inside rfl rfl rfl rfl
    · next body =>
        obtain ⟨span, steps⟩ := body
        cases leads
        cases owned
        have labelsEq :
            (visits .labels 0 (steps.take index ++ .discardRead name :: steps.drop index).length).reverse.flatMap
              (PlanStep.events Node.events
                ((steps.take index ++ .discardRead name :: steps.drop index).map Node.stmt)) =
            (visits .labels 0 steps.length).reverse.flatMap
              (PlanStep.events Node.events (steps.map Node.stmt)) := by
          rw [flatMap_labels_visits, flatMap_labels_visits, flatMap_labels_insert]
        exact flatMap_insert (.event .openLabels :: (visits .labels 0 steps.length).reverse)
          (.event .openLabels :: (visits .labels 0
            (steps.take index ++ .discardRead name :: steps.drop index).length).reverse)
          .closeLabels [] (.discardRead name) inside (by simp; omega) rfl rfl
          (congrArg (Event.openLabels :: ·) labelsEq)
    · next exprs body colon =>
        cases leads
        cases owned
        let lead := visits .value 0 (exprs.getD []).length ++
          [event (.enter "case"), event .clause]
        exact flatMap_insert lead lead .leave ((exprs.getD []).map Node.expr) (.discardRead name)
          inside (by simp [lead]) (by simp [plan, lead]) (by simp [plan, insertStmt, lead]) (by simp [lead])
    · next comm body colon =>
        cases leads
        cases owned
        let lead := .event (.enter "case") :: visits .stmt 0 comm.toList.length
        exact flatMap_insert lead lead .leave (comm.toList.map Node.stmt) (.discardRead name)
          inside (by simp [lead]; omega) (by simp [plan, lead]) (by simp [plan, insertStmt, lead]) (by simp [lead])
    · cases leads
  · cases node with
    | stmt step => exact insertStmt_alike index name step
    | _ => cases owned

end Node

/-- The events of a package before and after the statement with the given index of the list of
statements at an address of one of its files, if the check of the package comes to the list. -/
def packageCut? (files : List File) (unit : Nat) (address : Node.Address) (index : Nat) :
    Option (List Event × List Event) := do
  let file ← files[unit]?
  let owner ← (Node.file file).get? address
  let context ← packageContext? files unit address
  let (before, after) ← owner.cut? index context.mode
  some (context.before ++ before, after ++ context.after)

/-- The files of a package with a discard read in the list of statements at an address. -/
def insertRead (files : List File) (unit : Nat) (address : Node.Address) (index : Nat)
    (name : String) : List File :=
  files.modify unit (·.modify (Node.insertStmt index (.discardRead name)) address)

/-- A discard read in a list of statements adds its own events where the list is cut. -/
theorem packageEvents_insertRead {files : List File} {unit index : Nat} {address : Node.Address}
    {before after : List Event} (name : String)
    (isCut : packageCut? files unit address index = some (before, after)) :
    packageEvents files = before ++ after ∧
      packageEvents (insertRead files unit address index name) =
        before ++ Node.readEvents name ++ after := by
  simp only [packageCut?, Option.bind_eq_bind, Option.bind_eq_some_iff] at isCut
  obtain ⟨file, isFile, owner, isOwner, context, isContext, ⟨left, right⟩, ownCut, cutEq⟩ := isCut
  cases cutEq
  obtain ⟨oldOwn, newOwn, alike⟩ := Node.events_insertStmt name ownCut
  obtain ⟨oldEvents, newEvents⟩ := packageEvents_modify isContext isFile isOwner alike
  have insertEq : insertRead files unit address index name =
      files.set unit (file.modify (Node.insertStmt index (.discardRead name)) address) := by
    rw [insertRead, List.modify_eq_set_getElem?, isFile]
    rfl
  rw [insertEq, oldEvents, newEvents, oldOwn, newOwn]
  simp only [List.append_assoc, and_self]

end GoMend
