import GoMend.Proofs.Check.Trace
import Mathlib.Data.List.Nodup

/-!
# What plans visit

A plan checks no child twice.  Some visits are skims: they only look for names that are declared
before the node is checked.  Nodes that differ only in their children have the same plan.
-/

namespace GoMend

open PlanStep

/-! ### What plans visit -/

/-- Whether a node is looked at only for names that are declared before the node is checked. -/
def Mode.isSkim : Mode → Bool
  | .params | .labels | .imports | .package | .packageSpec _ => true
  | _ => false

namespace PlanStep

/-- The child that a step of a plan checks, if it is the visit of one. -/
def checked : PlanStep → List Nat
  | .event _ => []
  | .visit mode index => if mode.isSkim then [] else [index]

@[simp]
theorem checked_event (happens : Event) : (event happens).checked = [] :=
  rfl

@[simp]
theorem checked_visit (mode : Mode) (index : Nat) :
    (visit mode index).checked = if mode.isSkim then [] else [index] :=
  rfl

@[simp]
theorem visit_mem_visits {mode visited : Mode} {index start count : Nat} :
    visit visited index ∈ visits mode start count ↔
      visited = mode ∧ start ≤ index ∧ index < start + count := by
  simp only [visits, List.mem_map, List.mem_range'_1, visit.injEq]
  grind -ring -linarith

@[simp]
theorem length_visits (mode : Mode) (start count : Nat) :
    (visits mode start count).length = count := by
  simp [visits]

theorem take_visits {mode : Mode} {start count taken : Nat} (enough : taken ≤ count) :
    (visits mode start count).take taken = visits mode start taken := by
  rw [visits, ← List.map_take, List.take_range'_of_length_ge enough, visits]

theorem drop_visits (mode : Mode) (start count dropped : Nat) :
    (visits mode start count).drop dropped = visits mode (start + dropped) (count - dropped) := by
  rw [visits, ← List.map_drop, List.drop_range', Nat.mul_one, visits]

@[simp]
theorem flatMap_checked_visits (mode : Mode) (start count : Nat) :
    (visits mode start count).flatMap checked =
      if mode.isSkim then [] else List.range' start count := by
  cases skim : mode.isSkim <;> simp [visits, List.flatMap_map, skim]

@[simp]
theorem flatMap_checked_labels (start count : Nat) :
    (visits .labels start count).reverse.flatMap checked = [] := by
  rw [visits, ← List.map_reverse, List.flatMap_map]
  simp [Mode.isSkim]

end PlanStep

namespace Node

theorem nodup_checked_stmtPlan (step : Stmt) : ((stmtPlan step).flatMap checked).Nodup := by
  cases step with
  | assign span lhs tok rhs tokPos =>
      simp only [stmtPlan]
      split
      · simp [Mode.isSkim, List.nodup_append, List.nodup_range', List.mem_range'_1]
        grind -ring -linarith
      · split <;>
          simp [Mode.isSkim, List.nodup_append, List.nodup_range', List.mem_range'_1] <;> grind -ring -linarith
  | range span key value tok operand body tokPos =>
      simp only [stmtPlan]
      split
      · simp [Mode.isSkim, List.nodup_append, List.nodup_range', List.mem_range'_1]
        grind -ring -linarith
      · split
        · simp [Mode.isSkim, List.nodup_append, List.nodup_range', List.mem_range'_1]
          grind -ring -linarith
        · simp only [List.cons_append, List.nil_append, List.flatMap_cons, List.flatMap_append,
            List.flatMap_nil, List.append_nil, checked_visit, checked_event, flatMap_checked_visits,
            Mode.isSkim, Bool.false_eq_true, ↓reduceIte, List.nodup_cons, List.mem_range'_1]
          exact ⟨by lia, List.nodup_range' _ Nat.one_pos⟩
  | _ =>
      simp [stmtPlan, Mode.isSkim, List.nodup_append, List.nodup_range', List.mem_range'_1] <;>
        try grind -ring -linarith

theorem nodup_checked_exprPlan (isTarget isElement : Bool) (value : Expr) :
    ((exprPlan isTarget isElement value).flatMap checked).Nodup := by
  cases value <;> cases isTarget <;> cases isElement <;>
    simp [exprPlan, Mode.isSkim, List.nodup_append, List.nodup_range', List.mem_range'_1]
  all_goals grind -ring -linarith

theorem flatMap_checked_namePlan (mode : Mode) (name : Ident) :
    (namePlan mode name).flatMap checked = [] := by
  unfold namePlan
  split <;> (try split) <;> rfl

/-- No child is checked twice. -/
theorem nodup_checked_plan (mode : Mode) (node : Node) :
    ((node.plan mode).flatMap checked).Nodup := by
  unfold plan
  split <;>
    try simp [nodup_checked_stmtPlan, nodup_checked_exprPlan, flatMap_checked_namePlan, Mode.isSkim,
      List.nodup_append, List.nodup_range', List.mem_range'_1]
  · next lhs _ _ _ =>
      cases lhs <;> simp [Mode.isSkim]
      grind -ring -linarith
  · grind -ring -linarith
  · grind -ring -linarith
  · next tok _ _ _ _ =>
      by_cases isVar : tok = .kwVar <;> simp [isVar, List.nodup_range', List.mem_range'_1] <;> grind -ring -linarith
  · split <;> simp [Mode.isSkim]
  · grind -ring -linarith

/-! ### Skims -/

theorem sort_of_getElem?_names {names : List Ident} {others : List Node} {index : Nat}
    {child : Node} (found : (names.map ident ++ others)[index]? = some child)
    (inside : index < names.length) : child.sort = .ident := by
  rw [List.getElem?_append_left (by simpa using inside)] at found
  obtain ⟨name, -, rfl⟩ := List.mem_map.mp (List.mem_of_getElem? found)
  rfl

/-- What a skim visits is skimmed again, unless it is a name. -/
theorem isSkim_of_visit {mode visited : Mode} {index : Nat} {node child : Node}
    (skim : mode.isSkim) (mem : .visit visited index ∈ node.plan mode)
    (found : node.children[index]? = some child) (notName : child.sort ≠ .ident) :
    visited.isSkim := by
  -- Only names are visited by a skim in another way.
  suffices skimmed : visited.isSkim ∨ child.sort = .ident from skimmed.resolve_right notName
  cases mode with
  | params =>
      cases node with
      | field item =>
          simp only [plan, visit_mem_visits, Nat.zero_add] at mem
          exact .inr (sort_of_getElem?_names found mem.2.2)
      | expr value =>
          cases value <;> simp [plan, namePlan] at mem
          exact .inl (by rw [mem.1]; rfl)
      | fieldList list =>
          simp only [plan, visit_mem_visits] at mem
          exact .inl (by rw [mem.1]; rfl)
      | _ => simp [plan] at mem
  | labels =>
      have ofAll (mem : .visit visited index ∈ (visits .labels 0 node.children.length).reverse) :
          visited.isSkim ∨ child.sort = .ident := by
        simp only [List.mem_reverse, visit_mem_visits] at mem
        exact .inl (by rw [mem.1]; rfl)
      cases node with
      | expr value =>
          cases value with
          | ident name => simp [plan, namePlan] at mem
          | funcLit => simp [plan] at mem
          | _ => exact ofAll mem
      | stmt step =>
          cases step with
          | labeled span label inner =>
              simp only [plan, List.mem_cons, visit.injEq, List.not_mem_nil, or_false] at mem
              obtain ⟨-, rfl⟩ | ⟨rfl, -⟩ := mem
              · simp only [children, stmtChildren, List.getElem?_cons_zero, Option.some.injEq]
                  at found
                exact .inr (found ▸ rfl)
              · exact .inl rfl
          | _ => exact ofAll mem
      | _ => exact ofAll mem
  | imports =>
      cases node with
      | decl item =>
          cases item <;> simp [plan] at mem
          exact .inl (by rw [mem.1]; rfl)
      | spec item => cases item <;> simp [plan] at mem
      | expr value => cases value <;> simp [plan, namePlan] at mem
      | _ => simp [plan] at mem
  | package =>
      cases node with
      | decl item =>
          cases item with
          | gen item =>
              simp only [plan, visit_mem_visits] at mem
              exact .inl (by rw [mem.1]; rfl)
          | func item =>
              obtain ⟨span, recv, name, type, body⟩ := item
              cases recv <;> simp [plan] at mem
              obtain ⟨-, rfl⟩ := mem
              simp only [children, declChildren, Option.toList_none, List.map_nil, List.nil_append,
                List.getElem?_cons_zero, Option.some.injEq] at found
              exact .inr (found ▸ rfl)
      | file source =>
          simp only [plan, visit_mem_visits] at mem
          exact .inl (by rw [mem.1]; rfl)
      | expr value => cases value <;> simp [plan, namePlan] at mem
      | _ => simp [plan] at mem
  | packageSpec tok =>
      cases node with
      | spec item =>
          cases item with
          | importSpec item => simp [plan] at mem
          | valueSpec span names type values =>
              simp only [plan, visit_mem_visits, Nat.zero_add] at mem
              exact .inr (sort_of_getElem?_names found mem.2.2)
          | typeSpec span name type isAlias =>
              simp only [plan, List.mem_singleton, visit.injEq] at mem
              obtain ⟨-, rfl⟩ := mem
              simp only [children, specChildren, List.getElem?_cons_zero, Option.some.injEq] at found
              exact .inr (found ▸ rfl)
      | expr value => cases value <;> simp [plan, namePlan] at mem
      | _ => simp [plan] at mem
  | _ => cases skim

theorem Resembles.plan_eq {node other : Node} (resembles : Resembles node other) {mode : Mode}
    (notDefine : mode ≠ .define) (notImport : ∀ item, node ≠ .spec (.importSpec item)) :
    other.plan mode = node.plan mode := by
  cases resembles <;> cases mode <;>
    first
    | rfl
    | exact absurd rfl notDefine
    | exact absurd rfl (notImport _)
    | simp [plan, exprPlan, stmtPlan, children, exprChildren, stmtChildren, specChildren,
        declChildren, Option.length_toList, *]

end Node

end GoMend
