import GoMend.Proofs.Check.Plan
import GoMend.Proofs.Layout.Total
import GoMend.Proofs.Tree.Trail

/-!
# The events of sound trees

A node that plays a role is visited in a way that suits the role.  Then no event ends the check, and
every variable is declared under the word that stands at a place of the tree.
-/

namespace GoMend

open PlanStep

namespace Event

/-- The name of the variable that an event may declare. -/
def declared? : Event → Option Ident
  | .declare name .var | .declareLocal name | .param name | .defineName name | .symbol name _ =>
      if name.isBlank then none else some name
  | _ => none

/-- The place where an event may declare a variable or report that there is none. -/
def spot? : Event → Option Pos
  | .endDefine tokPos => some tokPos
  | other => other.declared?.map (·.span.start)

/-- An event that belongs to a node itself. -/
structure Belongs (node : Node) (happens : Event) : Prop where
  succeeds : happens.failure? = none
  isWord : ∀ name, happens.declared? = some name → name.isWord
  atToken : ∀ pos, happens.spot? = some pos → ∃ count, node.token? = some (count, pos)

/-- What is true of an event of a sound node or of one below it. -/
structure Fits (node : Node) (happens : Event) : Prop where
  succeeds : happens.failure? = none
  isWord : ∀ name, happens.declared? = some name → name.isWord
  onTrail : ∀ pos, happens.spot? = some pos → ∃ address, Node.Trail pos node address

theorem Belongs.fits {node : Node} {happens : Event} (belongs : happens.Belongs node)
    (positioned : node.isPositioned) : happens.Fits node where
  succeeds := belongs.succeeds
  isWord := belongs.isWord
  onTrail pos isSpot :=
    have ⟨_, token⟩ := belongs.atToken pos isSpot
    ⟨[], .stop positioned token⟩

end Event

/-! ### Roles and ways of visiting -/

namespace Role

/-- Whether a node of a role can be visited in some way. -/
def allows (role : Role) : Mode → Bool
  | .caseClause => role = .caseClause
  | .commClause => role = .commClause
  | .caseBody => role = .caseBody
  | .commBody => role = .commBody
  | .guard => role = .guard
  | .stmt | .function =>
      role ≠ .caseClause && role ≠ .commClause && role ≠ .caseBody && role ≠ .commBody
  | _ => true

/-- Whether a role is neither that of clauses nor that of one. -/
def isFree (role : Role) : Bool :=
  role ≠ .caseClause && role ≠ .commClause && role ≠ .caseBody && role ≠ .commBody

end Role

/-- Whether a way of visiting is for all nodes but clauses and their blocks. -/
def Mode.isFree : Mode → Bool
  | .caseClause | .commClause | .caseBody | .commBody | .guard => false
  | _ => true

theorem Role.allows_of_isFree {role : Role} {mode : Mode} (free : role.isFree)
    (modeFree : mode.isFree) : role.allows mode := by
  cases mode <;> first | exact free | rfl | cases modeFree

/-- A step of a plan that suits a node of a role. -/
def PlanStep.Suits (role : Role) (node : Node) : PlanStep → Prop
  | .event happens => happens.Belongs node
  | .visit mode index => ∀ part, (node.parts role)[index]? = some part → part.1.allows mode

/-- A step of a plan that suits a node all of whose parts are free. -/
def PlanStep.IsFree (node : Node) : PlanStep → Prop
  | .event happens => happens.Belongs node
  | .visit mode _ => mode.isFree

namespace Node

variable {role : Role} {mode : Mode} {node : Node}

theorem isFree_visits {visited : Mode} {start count : Nat} (free : visited.isFree) :
    ∀ step ∈ visits visited start count, step.IsFree node := by
  intro step mem
  obtain ⟨index, -, rfl⟩ := List.mem_map.mp mem
  exact free

theorem suits_of_isFree (partsFree : ∀ part ∈ node.parts role, part.1.isFree) {step : PlanStep}
    (free : step.IsFree node) : step.Suits role node := by
  cases step with
  | event happens => exact free
  | visit mode index =>
      exact fun part isPart => Role.allows_of_isFree (partsFree part (List.mem_of_getElem? isPart)) free

/-- An event that declares nothing and does not fail belongs to any node. -/
theorem belongs_of_none {happens : Event} (succeeds : happens.failure? = none)
    (noSpot : happens.spot? = none) : happens.Belongs node := by
  refine ⟨succeeds, fun name declares => ?_, fun pos isSpot => by simp [noSpot] at isSpot⟩
  cases happens <;> simp_all [Event.spot?, Event.declared?]

theorem fits_of_none {happens : Event} (succeeds : happens.failure? = none)
    (noSpot : happens.spot? = none) : happens.Fits node := by
  have belongs : happens.Belongs node := belongs_of_none succeeds noSpot
  refine ⟨succeeds, belongs.isWord, fun pos isSpot => ?_⟩
  simp [noSpot] at isSpot

/-! ### Plans of sound nodes -/

theorem exprPlan_isFree (isTarget isElement : Bool) (value : Expr) :
    ∀ step ∈ exprPlan isTarget isElement value, step.IsFree node := by
  cases value <;> simp only [exprPlan, List.forall_mem_append, List.forall_mem_cons]
  case funcLit => exact ⟨belongs_of_none rfl rfl, rfl, rfl, rfl, belongs_of_none rfl rfl, by simp⟩
  case paren => cases isTarget <;> exact ⟨rfl, by simp⟩
  case keyValue => cases isElement <;> exact ⟨rfl, rfl, by simp⟩
  case selector => exact ⟨rfl, by simp⟩
  case composite => exact ⟨isFree_visits rfl, isFree_visits rfl⟩
  all_goals exact isFree_visits rfl

/-- Whether a statement has no clauses. -/
def hasFreeParts : Stmt → Bool
  | .switch .. | .typeSwitch .. | .select .. => false
  | _ => true

theorem isFree_parts_stmt {step : Stmt} (free : role.member.isFree)
    (noClauses : hasFreeParts step) : ∀ part ∈ (Node.stmt step).parts role, part.1.isFree := by
  cases step <;> try cases noClauses
  all_goals
    simp only [parts, children, stmtChildren, List.forall_mem_append, List.forall_mem_map,
      List.forall_mem_cons, List.map_map, List.map_append]
  case block => exact fun _ _ => free
  all_goals simp [Role.isFree]

theorem belongs_endDefine {count : Nat} {tokPos : Pos}
    (token : node.token? = some (count, tokPos)) : (Event.endDefine tokPos).Belongs node := by
  refine ⟨rfl, nofun, fun pos isSpot => ⟨count, ?_⟩⟩
  rw [token, Option.some.inj isSpot]

/-- The steps of a statement without clauses are free. -/
theorem stmtPlan_isFree {step : Stmt} (noClauses : hasFreeParts step) (notClause : step.isClause = false) :
    ∀ planned ∈ stmtPlan step, planned.IsFree (.stmt step) := by
  have enter (kind : String) : (event (.enter kind)).IsFree (.stmt step) := belongs_of_none rfl rfl
  have leave : (event .leave).IsFree (.stmt step) := belongs_of_none rfl rfl
  cases step with
  | assign span lhs tok rhs tokPos =>
      simp only [stmtPlan]
      split
      · simp only [List.forall_mem_append, List.forall_mem_cons]
        exact ⟨isFree_visits rfl, isFree_visits rfl, belongs_endDefine rfl, by simp⟩
      · split <;> simp only [List.forall_mem_append] <;>
          exact ⟨isFree_visits rfl, isFree_visits rfl⟩
  | range span key value tok operand body tokPos =>
      simp only [stmtPlan, List.forall_mem_append, List.forall_mem_cons]
      refine ⟨⟨rfl, enter _, ?_⟩, isFree_visits rfl, leave, by simp⟩
      split
      · next isDefine =>
          subst isDefine
          simp only [List.forall_mem_append, List.forall_mem_cons]
          exact ⟨isFree_visits rfl, belongs_endDefine rfl, by simp⟩
      · split
        · exact isFree_visits rfl
        · simp
  | block body =>
      simp only [stmtPlan, List.forall_mem_append, List.forall_mem_cons]
      exact ⟨⟨enter _, isFree_visits rfl⟩, leave, by simp⟩
  | ifElse span init cond body otherwise =>
      simp only [stmtPlan, List.forall_mem_append, List.forall_mem_cons]
      exact ⟨⟨enter _, isFree_visits rfl⟩, ⟨rfl, rfl, isFree_visits rfl⟩, leave, by simp⟩
  | loop span init cond post body =>
      simp only [stmtPlan, List.forall_mem_append, List.forall_mem_cons]
      exact ⟨⟨enter _, isFree_visits rfl⟩, isFree_visits rfl, isFree_visits rfl, isFree_visits rfl,
        leave, by simp⟩
  | labeled | decl =>
      simp only [stmtPlan, List.forall_mem_cons]
      exact ⟨rfl, by simp⟩
  | switch | typeSwitch | select => cases noClauses
  | caseClause | commClause => cases notClause
  | _ => exact isFree_visits rfl

theorem suits_visits {visited : Mode} {start count : Nat}
    (always : ∀ part ∈ node.parts role, part.1.allows visited) :
    ∀ planned ∈ visits visited start count, planned.Suits role node := by
  intro planned mem
  obtain ⟨index, -, rfl⟩ := List.mem_map.mp mem
  exact fun part isPart => always part (List.mem_of_getElem? isPart)

/-- The first parts of a statement with a header are simple statements. -/
theorem suits_visits_init {init : Option Stmt} {others : List (Role × Node)}
    (partsEq : node.parts role =
      init.toList.map (fun step => (Role.simple, Node.stmt step)) ++ others) :
    ∀ planned ∈ visits .stmt 0 init.toList.length, planned.Suits role node := by
  intro planned mem
  obtain ⟨index, isIndex, rfl⟩ := List.mem_map.mp mem
  intro part isPart
  have inside : index < init.toList.length := by simpa using isIndex
  rw [partsEq, List.getElem?_append_left (by simpa using inside)] at isPart
  obtain ⟨step, -, rfl⟩ := List.mem_map.mp (List.mem_of_getElem? isPart)
  rfl

theorem suits_visit {mode : Mode} {index : Nat} (before : List (Role × Node))
    (part : Role × Node) (others : List (Role × Node)) (partsEq : node.parts role = before ++ part :: others)
    (isIndex : index = before.length) (allowed : part.1.allows mode) :
    (visit mode index).Suits role node := by
  intro other isOther
  subst isIndex
  rw [partsEq, List.getElem?_append_right (Nat.le_refl _)] at isOther
  obtain rfl : part = other := by simpa using isOther
  exact allowed

/-- The steps of a statement suit its role. -/
theorem stmtPlan_suits {step : Stmt} (notClause : step.isClause = false) (free : role.isFree) :
    ∀ planned ∈ stmtPlan step, planned.Suits role (.stmt step) := by
  cases noClauses : hasFreeParts step with
  | true =>
      have memberFree : role.member.isFree := by cases role <;> first | rfl | cases free
      exact fun planned mem => suits_of_isFree (isFree_parts_stmt memberFree noClauses)
        (stmtPlan_isFree noClauses notClause planned mem)
  | false =>
      have quiet {happens : Event} (succeeds : happens.failure? = none)
          (noSpot : happens.spot? = none) :
          (event happens).Suits role (.stmt step) := belongs_of_none succeeds noSpot
      cases step with
      | switch span init tag body =>
          simp only [stmtPlan, List.forall_mem_append, List.forall_mem_cons]
          refine ⟨⟨quiet rfl rfl, suits_visits_init rfl⟩, suits_visits fun _ _ => rfl, quiet rfl rfl, ?_,
            quiet rfl rfl, quiet rfl rfl, by simp⟩
          refine suits_visit (init.toList.map (fun step => (Role.simple, Node.stmt step)) ++
              tag.toList.map fun value => (Role.plain, Node.expr value)) (.caseBody, .block body) []
            ?_ (by simp) rfl
          simp [parts]
      | typeSwitch span init guard body =>
          simp only [stmtPlan, List.forall_mem_append, List.forall_mem_cons]
          refine ⟨⟨quiet rfl rfl, suits_visits_init rfl⟩, quiet rfl rfl, ?_, ?_, quiet rfl rfl,
            quiet rfl rfl, by simp⟩
          · exact suits_visit _ (.guard, .stmt guard) _ rfl (by simp) rfl
          · refine suits_visit (init.toList.map (fun step => (Role.simple, Node.stmt step)) ++
                [(Role.guard, Node.stmt guard)]) (.caseBody, .block body) [] ?_ (by simp) rfl
            simp [parts]
      | select span body =>
          simp only [stmtPlan, List.forall_mem_cons]
          exact ⟨suits_visit [] _ _ rfl rfl rfl, by simp⟩
      | _ => cases noClauses

/-- The steps of a name declare it at its place. -/
theorem namePlan_isFree {name : Ident} (isWord : name.isWord) : ∀ planned ∈ namePlan mode name, planned.IsFree (ident name) := by
  have fits {happens : Event} (succeeds : happens.failure? = none)
      (declares : happens.declared? = none ∨ happens.declared? = some name)
      (spotEq : happens.spot? = happens.declared?.map (·.span.start)) :
      (event happens).IsFree (ident name) := by
    refine ⟨succeeds, fun other isOther => ?_, fun pos isSpot => ?_⟩
    · obtain none | some := declares
      · exact absurd (none.symm.trans isOther) nofun
      · exact Option.some.inj (some.symm.trans isOther) ▸ isWord
    · obtain none | some := declares
      · simp [spotEq, none] at isSpot
      · obtain rfl : name.span.start = pos := by simpa [spotEq, some] using isSpot
        exact ⟨0, rfl⟩
  have ofName {happens : Event} (succeeds : happens.failure? = none)
      (declares : happens.declared? = if name.isBlank then none else some name)
      (spotEq : happens.spot? = happens.declared?.map (·.span.start)) :
      (event happens).IsFree (ident name) := by
    refine fits succeeds ?_ spotEq
    rw [declares]
    split
    · exact .inl rfl
    · exact .inr rfl
  unfold namePlan
  split <;> (try split) <;> try simp only [List.forall_mem_cons]
  case h_8 kind =>
    refine ⟨?_, by simp⟩
    cases kind <;> first | exact belongs_of_none rfl rfl | exact ofName rfl rfl rfl
  all_goals
    first
    | exact ⟨belongs_of_none rfl rfl, by simp⟩
    | exact ⟨ofName rfl rfl rfl, by simp⟩
    | simp

/-- A node that is no statement plays a role of its own. -/
theorem role_eq_plain (admitted : role.admits node) (notStmt : ∀ step, node ≠ .stmt step) :
    role = .plain := by
  cases node with
  | stmt step => exact absurd rfl (notStmt step)
  | _ => cases role <;> first | rfl | simp [Role.admits] at admitted

theorem isFree_parts (notStmt : ∀ step, node ≠ .stmt step) :
    ∀ part ∈ node.parts .plain, part.1.isFree := by
  have all (nodes : List Node) :
      ∀ part ∈ nodes.map fun child => (Role.plain, child), part.1.isFree := by
    simp [Role.isFree]
  cases node with
  | stmt step => exact absurd rfl (notStmt step)
  | expr value =>
      cases value with
      | funcLit => simp [parts, Role.isFree]
      | _ => exact all _
  | decl item =>
      cases item with
      | func item =>
          simp only [parts, List.forall_mem_append, List.forall_mem_map, List.forall_mem_cons]
          simp [Role.isFree]
      | gen item => exact all _
  | _ => exact all _

/-- The steps of a node that is no statement are free. -/
theorem plan_isFree (stands : node.Stands .plain) (notStmt : ∀ step, node ≠ .stmt step)
    (parts : ∀ part ∈ node.parts .plain, Sound part.1 part.2)
    (modeFree : mode.isFree) : ∀ planned ∈ node.plan mode, planned.IsFree node := by
  have quiet {happens : Event} (succeeds : happens.failure? = none)
      (noSpot : happens.spot? = none) : (event happens).IsFree node := belongs_of_none succeeds noSpot
  unfold plan
  split <;> (try exact absurd rfl (notStmt _)) <;> (try cases modeFree)
  case h_1 name => exact namePlan_isFree stands.admitted
  case h_7 value _ =>
    obtain ⟨text, printed⟩ := print_of_sound (.placed stands parts)
    have succeeds : (Event.notAName value).failure? = none := by simp [Event.failure?, printed]
    exact List.forall_mem_singleton.mpr (quiet succeeds rfl)
  case h_8 => exact List.forall_mem_singleton.mpr (quiet rfl rfl)
  case h_16 =>
    intro planned mem
    exact isFree_visits rfl planned (List.mem_reverse.mp mem)
  case h_28 tok span names type values =>
    simp only [List.forall_mem_append]
    refine ⟨isFree_visits rfl, ?_⟩
    split <;> exact isFree_visits rfl
  case h_29 => exact List.forall_mem_cons.mpr ⟨rfl, List.forall_mem_singleton.mpr rfl⟩
  case h_32 => split <;> simp [PlanStep.IsFree, Mode.isFree]
  case h_36 => exact List.forall_mem_singleton.mpr (quiet rfl rfl)
  case h_40 item =>
    simp only [List.forall_mem_append, List.forall_mem_cons]
    exact ⟨⟨quiet rfl rfl, isFree_visits rfl⟩, ⟨rfl, isFree_visits rfl⟩,
      ⟨rfl, isFree_visits rfl⟩, quiet rfl rfl, by simp⟩
  case h_41 source =>
    simp only [List.forall_mem_append, List.forall_mem_cons]
    exact ⟨⟨quiet rfl rfl, quiet rfl rfl, isFree_visits rfl⟩, isFree_visits rfl, quiet rfl rfl,
      by simp⟩
  all_goals
    first
    | exact isFree_visits rfl
    | exact exprPlan_isFree _ _ _
    | exact List.forall_mem_singleton.mpr rfl
    | simp

theorem isClause_of_admits {step : Stmt} (admitted : role.admits (.stmt step))
    (free : role.isFree) : step.isClause = false := by
  cases role with
  | stmt =>
      simp only [Role.admits, Bool.and_eq_true, Bool.not_eq_true'] at admitted
      exact admitted.1
  | plain | caseClause | commClause | caseBody | commBody => simp_all [Role.admits, Role.isFree]
  | _ =>
      cases step <;> first
      | rfl
      | simp [Role.admits, Layout.isSimple, Layout.isElseBranch] at admitted

/-- The steps of a statement suit its role, however it is visited. -/
theorem plan_stmt_suits {step : Stmt} (stands : (Node.stmt step).Stands role)
    (allowed : role.allows mode) :
    ∀ planned ∈ (Node.stmt step).plan mode, planned.Suits role (.stmt step) := by
  have admitted := stands.admitted
  have quiet {happens : Event} (succeeds : happens.failure? = none)
      (noSpot : happens.spot? = none) :
      (event happens).Suits role (.stmt step) := belongs_of_none succeeds noSpot
  unfold plan
  split <;> rename_i nodeEq <;> (try cases nodeEq)
  case h_15 =>
    exact List.forall_mem_cons.mpr ⟨fun _ _ => rfl, List.forall_mem_singleton.mpr fun _ _ => rfl⟩
  case h_16 =>
    intro planned mem
    exact suits_visits (fun _ _ => rfl) planned (List.mem_reverse.mp mem)
  case h_17 => exact stmtPlan_suits (isClause_of_admits admitted allowed) allowed
  case h_18 span lhs tok rhs tokPos =>
    obtain rfl : role = .guard := of_decide_eq_true allowed
    have hasTarget : lhs.length ≠ 0 := by
      simp only [Role.admits, decide_eq_true_eq] at admitted
      omega
    simp only [hasTarget, if_false, List.forall_mem_append]
    exact ⟨suits_visits fun _ _ => rfl, List.forall_mem_singleton.mpr fun _ _ => rfl⟩
  case h_19 =>
    obtain rfl : role = .guard := of_decide_eq_true allowed
    exact stmtPlan_suits (isClause_of_admits admitted rfl) rfl
  case h_20 body =>
    have partsFree : ∀ part ∈ (Node.stmt (.block body)).parts role, part.1.isFree := by
      refine isFree_parts_stmt ?_ rfl
      cases role <;> first | rfl | cases allowed
    simp only [List.forall_mem_append, List.forall_mem_cons, List.mem_reverse]
    refine ⟨⟨quiet rfl rfl, suits_visits fun _ _ => rfl⟩, suits_visits fun part isPart => ?_,
      quiet rfl rfl, by simp⟩
    exact Role.allows_of_isFree (partsFree part isPart) rfl
  case h_21 body =>
    obtain rfl : role = .caseBody := of_decide_eq_true allowed
    refine suits_visits fun part isPart => ?_
    obtain ⟨clause, -, rfl⟩ := List.mem_map.mp isPart
    rfl
  case h_22 body =>
    obtain rfl : role = .commBody := of_decide_eq_true allowed
    refine suits_visits fun part isPart => ?_
    obtain ⟨clause, -, rfl⟩ := List.mem_map.mp isPart
    rfl
  case h_23 span exprs body colon =>
    obtain rfl : role = .caseClause := of_decide_eq_true allowed
    simp only [List.forall_mem_append, List.forall_mem_cons]
    refine ⟨suits_visits fun _ _ => rfl, ⟨quiet rfl rfl, quiet rfl rfl,
      suits_visits fun part isPart => ?_⟩, quiet rfl rfl, by simp⟩
    exact Role.allows_of_isFree (isFree_parts_stmt rfl rfl part isPart) rfl
  case h_24 span comm body colon =>
    obtain rfl : role = .commClause := of_decide_eq_true allowed
    have stmtsSuit (start count : Nat) :
        ∀ planned ∈ visits .stmt start count,
          planned.Suits .commClause (.stmt (.commClause span comm body colon)) :=
      suits_visits fun part isPart =>
        Role.allows_of_isFree (isFree_parts_stmt rfl rfl part isPart) rfl
    simp only [List.forall_mem_append, List.forall_mem_cons]
    exact ⟨⟨quiet rfl rfl, stmtsSuit _ _⟩, stmtsSuit _ _, quiet rfl rfl, by simp⟩
  case h_25 notClause =>
    obtain rfl : role = .caseClause := of_decide_eq_true allowed
    cases step <;> first | exact absurd rfl (nodeEq _ _ _ _) | cases admitted
  case h_26 notClause =>
    obtain rfl : role = .commClause := of_decide_eq_true allowed
    cases step <;> first | exact absurd rfl (nodeEq _ _ _ _) | cases admitted
  case h_42 => simp

/-! ### Events of sound nodes -/

/-- The skim for labels finds labels only. -/
theorem eq_label_of_mem {happens : Event} (mem : happens ∈ node.events .labels) :
    ∃ label, happens = .label label := by
  have labels := flatMap_events_labels [node]
  rw [List.flatMap_cons, List.flatMap_nil, List.append_nil] at labels
  rw [labels] at mem
  obtain ⟨label, -, rfl⟩ := List.mem_map.mp mem
  exact ⟨label, rfl⟩

/-- The blank name declares nothing. -/
theorem fits_of_blank {other : Node} {happens : Event}
    (mem : happens ∈ (ident { name := "_" }).events mode) : happens.Fits other := by
  rw [ident, events_ident] at mem
  unfold namePlan at mem
  split at mem <;> (try split at mem) <;>
    simp only [List.flatMap_cons, List.flatMap_nil, events_event, List.append_nil,
      List.mem_singleton, List.not_mem_nil] at mem
  all_goals subst mem
  case h_8 kind => cases kind <;> exact fits_of_none rfl rfl
  all_goals exact fits_of_none rfl rfl

/-- What an event of a child declares lies on a trail from the parent. -/
theorem fits_of_child {child : Node} {index : Nat} {visited : Mode} {happens : Event}
    (positioned : node.isPositioned) (isPlanned : visit visited index ∈ node.plan mode)
    (isChild : node.children[index]? = some child) (mem : happens ∈ child.events visited)
    (fits : happens.Fits child) : happens.Fits node := by
  refine ⟨fits.succeeds, fits.isWord, fun pos isSpot => ?_⟩
  obtain ⟨address, trail⟩ := fits.onTrail pos isSpot
  refine ⟨index :: address, .step positioned ?_ isChild trail⟩
  -- An import is only skimmed for labels.
  rintro item rfl
  cases mode <;> simp [plan] at isPlanned
  rw [isPlanned.1] at mem
  obtain ⟨label, rfl⟩ := eq_label_of_mem mem
  cases isSpot

/-- The steps of a plan of a sound node suit its role. -/
theorem plan_suits (stands : node.Stands role)
    (parts : ∀ part ∈ node.parts role, Sound part.1 part.2) (allowed : role.allows mode) :
    ∀ planned ∈ node.plan mode, planned.Suits role node := by
  by_cases isStmt : ∃ step, node = .stmt step
  · obtain ⟨step, rfl⟩ := isStmt
    exact plan_stmt_suits stands allowed
  · have notStmt := not_exists.mp isStmt
    obtain rfl := role_eq_plain stands.admitted notStmt
    have modeFree : mode.isFree := by cases mode <;> first | rfl | cases allowed
    exact fun planned mem => suits_of_isFree (isFree_parts notStmt)
      (plan_isFree stands notStmt parts modeFree planned mem)

/-- The child that a step visits is a part of a role that the visit suits. -/
theorem exists_part {visited : Mode} {index : Nat} {child : Node}
    (suits : (visit visited index).Suits role node) (isChild : node.children[index]? = some child) :
    ∃ part, (node.parts role)[index]? = some (part, child) ∧ part.allows visited := by
  rw [← map_snd_parts role, List.getElem?_map, Option.map_eq_some_iff] at isChild
  obtain ⟨⟨part, child⟩, isPart, rfl⟩ := isChild
  exact ⟨part, isPart, suits _ isPart⟩

/-- Every event of a sound node suits it. -/
theorem events_fit (sound : Sound role node) (allowed : role.allows mode) :
    ∀ happens ∈ node.events mode, happens.Fits node := by
  induction sound generalizing mode with
  | @placed role node stands parts ih =>
      have positioned := isPositioned_of_pos stands.positive
      have suits := plan_suits stands parts allowed
      intro happens mem
      rw [events_eq, List.mem_flatMap] at mem
      obtain ⟨planned, isPlanned, mem⟩ := mem
      cases planned with
      | event own =>
          obtain rfl := List.mem_singleton.mp mem
          exact (suits _ isPlanned).fits positioned
      | visit visited index =>
          rw [events_visit] at mem
          cases isChild : node.children[index]? with
          | none => simp [isChild] at mem
          | some child =>
              simp only [isChild, Option.elim_some] at mem
              obtain ⟨part, isPart, partAllows⟩ := exists_part (suits _ isPlanned) isChild
              have childFits := ih (part, child) (List.mem_of_getElem? isPart) partAllows happens mem
              exact fits_of_child positioned isPlanned isChild mem childFits
  | read name isWord =>
      intro happens mem
      have cases : mode = .stmt ∨ mode = .labels ∨
          (Node.stmt (.discardRead name)).events mode = [] := by
        cases mode <;> first | exact .inl rfl | exact .inr (.inl rfl) | cases allowed
        all_goals exact .inr (.inr (by rw [events_eq]; simp [plan, Stmt.discardRead]))
      obtain rfl | rfl | none := cases
      · rw [events_eq] at mem
        simp [Stmt.discardRead, plan, stmtPlan, children, stmtChildren, namePlan] at mem
        obtain rfl | rfl := mem <;> exact fits_of_none rfl rfl
      · obtain ⟨label, rfl⟩ := eq_label_of_mem mem
        exact fits_of_none rfl rfl
      · simp [none] at mem
  | blank => exact fun happens mem => fits_of_blank mem

end Node

end GoMend
