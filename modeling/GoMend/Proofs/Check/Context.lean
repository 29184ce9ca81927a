import GoMend.Proofs.Check.Plan

/-!
# Changing a node inside a check

A check comes to a node after some events and goes on with others.  A change of the node that
declares the same names before the check leaves the events around the node alone: the events of
the whole are cut at the node, and those of the changed node stand between the same two parts.
-/

namespace GoMend

open PlanStep

/-- The events of a check before and after those of a node, and the way in which the node is
visited between them. -/
structure CheckContext where
  before : List Event
  mode : Mode
  after : List Event

namespace PlanStep

/-- How a step of a plan checks a child, if it does. -/
def checks? (index : Nat) : PlanStep → Option Mode
  | .event _ => none
  | .visit mode visited => if visited = index && !mode.isSkim then some mode else none

/-- The steps of a plan before and after the check of a child, and how the child is checked. -/
def splitAt? (index : Nat) : List PlanStep → Option (List PlanStep × Mode × List PlanStep)
  | [] => none
  | step :: steps =>
      match step.checks? index with
      | some mode => some ([], mode, steps)
      | none => (splitAt? index steps).map fun (before, rest) => (step :: before, rest)

theorem eq_append_of_splitAt? {index : Nat} {mode : Mode} {steps before after : List PlanStep}
    (split : splitAt? index steps = some (before, mode, after)) :
    steps = before ++ visit mode index :: after ∧ mode.isSkim = false := by
  induction steps generalizing before with
  | nil => cases split
  | cons step steps ih =>
      rw [splitAt?] at split
      cases checks : step.checks? index with
      | some visited =>
          simp only [checks, Option.some.injEq, Prod.mk.injEq] at split
          obtain ⟨rfl, rfl, rfl⟩ := split
          cases step with
          | event happens => cases checks
          | visit visited' child =>
              simp only [checks?, Option.ite_none_right_eq_some, Bool.and_eq_true,
                decide_eq_true_eq, Bool.not_eq_true', Option.some.injEq] at checks
              obtain ⟨⟨rfl, notSkim⟩, rfl⟩ := checks
              exact ⟨rfl, notSkim⟩
      | none =>
          simp only [checks, Option.map_eq_some_iff, Prod.mk.injEq] at split
          obtain ⟨⟨rest, mode', after'⟩, found, rfl, rfl, rfl⟩ := split
          obtain ⟨rfl, notSkim⟩ := ih found
          exact ⟨rfl, notSkim⟩

end PlanStep

namespace Node

/-- A node that takes the place of another one and declares the same names before it is checked. -/
structure Alike (new old : Node) : Prop where
  sort_eq : new.sort = old.sort
  notName : old.sort ≠ .ident
  events_eq : ∀ mode : Mode, mode.isSkim → new.events mode = old.events mode

/-- The context of the node at an address, if a check comes to the node. -/
def context? : Mode → Address → Node → Option CheckContext
  | mode, [], _ => some ⟨[], mode, []⟩
  | mode, child :: address, node => do
      let (before, visited, after) ← splitAt? child (node.plan mode)
      let inner ← node.children[child]?
      let context ← inner.context? visited address
      some
        { context with
          before := before.flatMap (PlanStep.events Node.events node.children) ++ context.before
          after := context.after ++ after.flatMap (PlanStep.events Node.events node.children) }

section Step

variable {child : Nat} {change : Node → Node} {children : List Node}

/-- A step that does not check the changed child has the same events as before. -/
theorem events_step_modify
    (alike : ∀ inner, children[child]? = some inner → Alike (change inner) inner)
    {step : PlanStep} (notChecked : child ∉ step.checked) :
    step.events Node.events (children.modify child change) = step.events Node.events children := by
  cases step with
  | event happens => rfl
  | visit mode index =>
      simp only [events_visit, List.getElem?_modify]
      by_cases same : child = index
      · subst same
        have skim : mode.isSkim := by
          by_contra notSkim
          simp [notSkim] at notChecked
        cases found : children[child]? with
        | none => rfl
        | some inner => simpa using (alike inner found).events_eq mode skim
      · simp [same]

theorem flatMap_events_modify
    (alike : ∀ inner, children[child]? = some inner → Alike (change inner) inner)
    {steps : List PlanStep} (notChecked : child ∉ steps.flatMap checked) :
    steps.flatMap (PlanStep.events Node.events (children.modify child change)) =
      steps.flatMap (PlanStep.events Node.events children) := by
  refine List.flatMap_congr fun step mem => events_step_modify alike fun isChecked => ?_
  exact notChecked (List.mem_flatMap.mpr ⟨step, mem, isChecked⟩)

end Step

/-- A node with children is no name. -/
theorem sort_ne_ident_of_child {node inner : Node} {child : Nat}
    (found : node.children[child]? = some inner) : node.sort ≠ .ident := by
  cases node with
  | expr value => cases value <;> simp [children, exprChildren] at found <;> simp [sort]
  | stmt step => cases step <;> simp [sort]
  | decl item => cases item <;> simp [sort]
  | _ => simp [sort]

/-- A node with one child replaced by a node that is like it. -/
theorem alike_withChildren {mode : Mode} {node inner : Node} {child : Nat} {change : Node → Node}
    {before after : List PlanStep} {visited : Mode}
    (split : splitAt? child (node.plan mode) = some (before, visited, after))
    (found : node.children[child]? = some inner) (alike : Alike (change inner) inner) :
    let new := node.withChildren (node.children.modify child change)
    new.events mode =
        before.flatMap (PlanStep.events Node.events node.children) ++
          (change inner).events visited ++
            after.flatMap (PlanStep.events Node.events node.children) ∧
      Alike new node := by
  have alikeChild : ∀ part, node.children[child]? = some part → Alike (change part) part := by
    intro part isChild
    obtain rfl := Option.some.inj (found.symm.trans isChild)
    exact alike
  have sameSorts : (node.children.modify child change).map sort = node.children.map sort := by
    refine List.ext_getElem? fun index => ?_
    simp only [List.getElem?_map, List.getElem?_modify]
    by_cases same : child = index
    · subst same
      simp [found, alike.sort_eq]
    · simp [same]
  obtain ⟨resembles, childrenEq⟩ := withChildren_resembles sameSorts
  obtain ⟨planEq, notSkim⟩ := eq_append_of_splitAt? split
  have isVisit : visit visited child ∈ node.plan mode := by simp [planEq]
  have notDefine : mode ≠ .define := by
    rintro rfl
    cases node with
    | expr value => cases value <;> simp [plan, namePlan] at isVisit
    | _ => simp [plan] at isVisit
  have notImport : ∀ item, node ≠ .spec (.importSpec item) := by
    rintro item rfl
    cases mode <;> simp [plan] at isVisit
    obtain ⟨rfl, -⟩ := isVisit
    cases notSkim
  refine ⟨?_, ?_⟩
  · have nodup := nodup_checked_plan mode node
    simp only [planEq, List.flatMap_append, List.flatMap_cons, checked_visit, notSkim,
      Bool.false_eq_true, if_false, List.nodup_append, List.nodup_cons, List.singleton_append]
      at nodup
    obtain ⟨-, ⟨notAfter, -⟩, apart⟩ := nodup
    have notBefore : child ∉ before.flatMap checked := fun isChecked =>
      apart child isChecked child List.mem_cons_self rfl
    rw [events_eq, resembles.plan_eq notDefine notImport, childrenEq, planEq, List.flatMap_append,
      List.flatMap_cons, flatMap_events_modify alikeChild notBefore,
      flatMap_events_modify alikeChild notAfter]
    simp [found]
  · refine ⟨resembles.sort_eq, sort_ne_ident_of_child found, fun skimMode skim => ?_⟩
    have notDefine : skimMode ≠ .define := by
      rintro rfl
      cases skim
    rw [events_eq, events_eq, resembles.plan_eq notDefine notImport, childrenEq]
    refine List.flatMap_congr fun step mem => ?_
    by_cases isChecked : child ∈ step.checked
    · cases step with
      | event happens => rfl
      | visit visitMode index =>
          -- A skim visits only names in another way, and the changed child is no name.
          simp only [checked_visit] at isChecked
          split at isChecked
          · cases isChecked
          · next notSkimmed =>
              obtain rfl := List.mem_singleton.mp isChecked
              exact absurd (isSkim_of_visit skim mem found alike.notName) notSkimmed
    · exact events_step_modify alikeChild isChecked

/-- A change of the node at an address that declares the same names before the check changes the
events of the node and no others. -/
theorem events_modify {change : Node → Node} {address : Address} {mode : Mode}
    {node inner : Node} {context : CheckContext}
    (isContext : node.context? mode address = some context)
    (found : node.get? address = some inner) (alike : Alike (change inner) inner) :
    node.events mode = context.before ++ inner.events context.mode ++ context.after ∧
      (node.modify change address).events mode =
        context.before ++ (change inner).events context.mode ++ context.after ∧
      Alike (node.modify change address) node := by
  induction address generalizing mode node context with
  | nil =>
      obtain rfl := Option.some.inj isContext
      obtain rfl := Option.some.inj found
      simpa [modify] using alike
  | cons child address ih =>
      simp only [context?, Option.bind_eq_bind, Option.bind_eq_some_iff] at isContext
      obtain ⟨⟨before, visited, after⟩, split, part, isChild, outer, isOuter, contextEq⟩ := isContext
      obtain rfl := Option.some.inj contextEq
      simp only [get?, isChild, Option.bind_some] at found
      obtain ⟨oldEvents, newEvents, partAlike⟩ := ih isOuter found
      obtain ⟨nodeEvents, nodeAlike⟩ := alike_withChildren split isChild partAlike
      refine ⟨?_, ?_, nodeAlike⟩
      · rw [events_eq, (eq_append_of_splitAt? split).1, List.flatMap_append, List.flatMap_cons]
        simp [isChild, oldEvents]
      · simp only [modify, nodeEvents, newEvents, List.append_assoc]

end Node

/-! ### Packages -/

/-- The context of the node at an address of one of the files of a package, if the check of the
package comes to the node. -/
def packageContext? (files : List File) (unit : Nat) (address : Node.Address) :
    Option CheckContext := do
  let file ← files[unit]?
  let context ← (Node.file file).context? .file address
  some
    { context with
      before := files.flatMap (fun source => (Node.file source).events .package) ++
        (files.take unit).flatMap (fun source => (Node.file source).events .file) ++ context.before
      after := context.after ++
        (files.drop (unit + 1)).flatMap fun source => (Node.file source).events .file }

/-- A change of a node of a package that declares the same names before the check changes the events
of the node and no others. -/
theorem packageEvents_modify {files : List File} {unit : Nat} {file : File}
    {address : Node.Address} {inner : Node} {context : CheckContext} {change : Node → Node}
    (isContext : packageContext? files unit address = some context)
    (isFile : files[unit]? = some file) (found : (Node.file file).get? address = some inner)
    (alike : Node.Alike (change inner) inner) :
    packageEvents files = context.before ++ inner.events context.mode ++ context.after ∧
      packageEvents (files.set unit (file.modify change address)) =
        context.before ++ (change inner).events context.mode ++ context.after := by
  simp only [packageContext?, isFile, Option.bind_eq_bind, Option.bind_some,
    Option.bind_eq_some_iff] at isContext
  obtain ⟨outer, isOuter, contextEq⟩ := isContext
  obtain rfl := Option.some.inj contextEq
  obtain ⟨oldEvents, newEvents, fileAlike⟩ := Node.events_modify isOuter found alike
  obtain ⟨source, isSource⟩ := Node.exists_file_of_sort fileAlike.sort_eq
  have sourceEq : file.modify change address = source := by
    simp [File.modify, isSource, Node.file?]
  rw [isSource] at newEvents fileAlike
  obtain ⟨inside, rfl⟩ := List.getElem?_eq_some_iff.mp isFile
  have filesEq : files = files.take unit ++ files[unit] :: files.drop (unit + 1) := by simp
  have setEq : files.set unit source = files.take unit ++ source :: files.drop (unit + 1) := by
    rw [List.set_eq_take_append_cons_drop, if_pos inside]
  have cut (mode : Mode) (file : File) :
      (files.take unit ++ file :: files.drop (unit + 1)).flatMap
          (fun file => (Node.file file).events mode) =
        (files.take unit).flatMap (fun file => (Node.file file).events mode) ++
          ((Node.file file).events mode ++
            (files.drop (unit + 1)).flatMap fun file => (Node.file file).events mode) := by
    simp only [List.flatMap_append, List.flatMap_cons]
  have oldEq (mode : Mode) := (congrArg (List.flatMap fun file =>
    (Node.file file).events mode) filesEq).trans (cut mode _)
  rw [sourceEq]
  refine ⟨?_, ?_⟩
  · simp only [packageEvents, oldEq .file, oldEvents, List.append_assoc]
  · simp only [packageEvents, oldEq .package, setEq, cut, fileAlike.events_eq .package rfl,
      newEvents, List.append_assoc]

end GoMend
