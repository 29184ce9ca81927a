import GoMend.Proofs.Check.Spots
import GoMend.Proofs.Tree.Clear
import GoMend.Proofs.Tree.Written

/-!
# Every event is reported at a position of its own

In a tree that was read from a text, what happens to a name is reported where the name begins, what
is wrong with a `:=` at the `:=`, and what is wrong with an import where the import begins.  No two
events of a check are reported at the same position, although some nodes are visited twice.
-/

namespace GoMend

open PlanStep

namespace Node

/-- Where a node that is visited in some way has something to report itself. -/
inductive Anchors : Mode → Node → Pos → Prop
  /-- A name, or the `:=` next to it in the guard of a type switch. -/
  | name (mode : Mode) (name : Ident) : Anchors mode (ident name) name.span.start
  | symbol (tokPos : Pos) (value : Expr) : Anchors (.symbol tokPos) (.expr value) tokPos
  | target (value : Expr) : Anchors .define (.expr value) value.span.start
  | define {mode : Mode} {step : Stmt} {count : Nat} {tokPos : Pos}
      (isStmt : mode = .stmt ∨ mode = .guard ∧
        ∀ span lhs tok rhs tokPos, step ≠ .assign span lhs tok rhs tokPos)
      (token : (stmt step).token? = some (count, tokPos)) : Anchors mode (.stmt step) tokPos
  | bind (item : ImportSpec) : Anchors .imports (.spec (.importSpec item)) item.span.start

theorem anchors_namePlan {mode : Mode} {name : Ident} {happens : Event} {pos : Pos}
    (isEvent : event happens ∈ namePlan mode name) (isAnchor : happens.anchor? = some pos) :
    Anchors mode (ident name) pos := by
  unfold namePlan at isEvent
  split at isEvent
  case h_7 tokPos name =>
    obtain rfl := PlanStep.event.inj (List.mem_singleton.mp isEvent)
    simp only [Event.anchor?] at isAnchor
    split at isAnchor <;> obtain rfl := Option.some.inj isAnchor
    · exact .symbol _ _
    · exact .name _ _
  all_goals
    (try split at isEvent) <;> simp at isEvent <;> subst isEvent <;> simp [Event.anchor?] at isAnchor <;>
      subst isAnchor <;> exact .name _ _

theorem anchors_stmtPlan {step : Stmt} {happens : Event} {pos : Pos}
    (isEvent : event happens ∈ stmtPlan step) (isAnchor : happens.anchor? = some pos) :
    ∃ count, (stmt step).token? = some (count, pos) := by
  cases step with
  | assign span lhs tok rhs tokPos =>
      simp only [stmtPlan] at isEvent
      split at isEvent
      · simp [event_notMem_visits] at isEvent
        subst isEvent
        obtain rfl := Option.some.inj isAnchor
        exact ⟨lhs.length, rfl⟩
      · split at isEvent <;> simp [event_notMem_visits] at isEvent
  | range span key value tok operand body tokPos =>
      simp only [stmtPlan] at isEvent
      split at isEvent
      · next isDefine =>
        simp [event_notMem_visits] at isEvent
        obtain rfl | rfl | rfl := isEvent <;> cases isAnchor
        subst isDefine
        exact ⟨key.toList.length + value.toList.length, rfl⟩
      · split at isEvent <;> simp [event_notMem_visits] at isEvent <;>
          obtain rfl | rfl := isEvent <;> cases isAnchor
  | _ =>
      simp [stmtPlan, event_notMem_visits] at isEvent <;> grind -ring -linarith [Event.anchor?]

/-- What happens at a node can be reported only where the node anchors it. -/
theorem anchors_of_event {mode : Mode} {node : Node} {happens : Event} {pos : Pos}
    (isEvent : event happens ∈ node.plan mode) (isAnchor : happens.anchor? = some pos) :
    Anchors mode node pos := by
  unfold plan at isEvent
  split at isEvent
  case h_1 => exact anchors_namePlan isEvent isAnchor
  case h_7 =>
    obtain rfl := PlanStep.event.inj (List.mem_singleton.mp isEvent)
    obtain rfl := Option.some.inj isAnchor
    exact .target _
  case h_8 =>
    obtain rfl := PlanStep.event.inj (List.mem_singleton.mp isEvent)
    obtain rfl := Option.some.inj isAnchor
    exact .symbol _ _
  case h_17 =>
    obtain ⟨count, token⟩ := anchors_stmtPlan isEvent isAnchor
    exact .define (.inl rfl) token
  case h_19 notAssign =>
    obtain ⟨count, token⟩ := anchors_stmtPlan isEvent isAnchor
    exact .define (.inr ⟨rfl, notAssign⟩) token
  case h_36 =>
    obtain rfl := PlanStep.event.inj (List.mem_singleton.mp isEvent)
    obtain rfl := Option.some.inj isAnchor
    exact .bind _
  all_goals first
    | (obtain rfl | rfl := event_mem_exprPlan isEvent <;> cases isAnchor)
    | (simp [event_notMem_visits] at isEvent; done)
    | (simp [event_notMem_visits] at isEvent; grind -ring -linarith [Event.anchor?])

theorem notSymbol_exprPlan {isTarget isElement : Bool} {value : Expr} {tokPos : Pos} {index : Nat} :
    visit (.symbol tokPos) index ∉ exprPlan isTarget isElement value := by
  intro isVisit
  cases value <;> cases isTarget <;> cases isElement <;> simp [exprPlan] at isVisit

theorem notSymbol_stmtPlan {step : Stmt} {tokPos : Pos} {index : Nat} :
    visit (.symbol tokPos) index ∉ stmtPlan step := by
  intro isVisit
  cases step <;> simp [stmtPlan] at isVisit <;> grind -ring -linarith [visit_mem_visits]

theorem token?_assign (span : Span) (lhs : List Expr) (tok : Token) (rhs : List Expr) (tokPos : Pos) :
    (stmt (.assign span lhs tok rhs tokPos)).token? = some (lhs.length, tokPos) :=
  rfl

/-- What is visited next to a `:=` is the first target in the guard of a type switch. -/
theorem token_of_symbol {mode : Mode} {node : Node} {tokPos : Pos} {index : Nat}
    (isVisit : visit (.symbol tokPos) index ∈ node.plan mode) :
    mode = .guard ∧ index = 0 ∧
      ∃ span lhs tok rhs, node = .stmt (.assign span lhs tok rhs tokPos) := by
  unfold plan at isVisit
  split at isVisit
  case h_1 => exact absurd isVisit (visit_notMem_namePlan _ _ _ _)
  case h_18 span lhs tok rhs tokPos' =>
    simp only [List.mem_append, visit_mem_visits, List.mem_singleton] at isVisit
    obtain ⟨isValue, -⟩ | isVisit := isVisit
    · cases isValue
    · split at isVisit <;> cases isVisit
      exact ⟨rfl, rfl, span, lhs, tok, rhs, rfl⟩
  all_goals first
    | exact absurd isVisit notSymbol_exprPlan
    | exact absurd isVisit notSymbol_stmtPlan
    | (simp at isVisit; done)
    | (simp at isVisit; grind -ring -linarith [visit_mem_visits])

/-- Beside an expression on the left of a `:=` only labels are visited. -/
theorem labels_of_visit {mode other visited : Mode} {value : Expr} {index : Nat}
    (isLeft : mode = .define ∨ ∃ tokPos, mode = .symbol tokPos)
    (isVisit : visit visited index ∈ (Node.expr value).plan other)
    (related : mode = other ∨ mode.isBeside other ∨ other.isBeside mode) :
    visited = .labels ∧ ¬(Node.expr value).isFuncLit := by
  have isLabels : other = .labels := by
    obtain rfl | beside | beside := related
    · cases value <;> obtain rfl | ⟨tokPos, rfl⟩ := isLeft <;> simp [plan, namePlan] at isVisit
    · obtain rfl | ⟨tokPos, rfl⟩ := isLeft <;> cases other <;> simp [Mode.isBeside] at beside
    · obtain rfl | ⟨tokPos, rfl⟩ := isLeft <;> cases other <;> first | rfl | simp [Mode.isBeside] at beside
  subst isLabels
  obtain ⟨notLit, ⟨_, same⟩ | ⟨isLabeled, -⟩⟩ := visit_of_labels isVisit
  · exact ⟨(PlanStep.visit.inj same).1, notLit⟩
  · cases isLabeled

/-- Whether a node is an expression or a part of a type. -/
def isValue : Node → Bool
  | .expr _ | .field _ | .fieldList _ => true
  | _ => false

theorem isValue_of_child {node child : Node} (isValue : node.isValue) (notLit : ¬node.isFuncLit)
    (isChild : child ∈ node.children) : child.isValue := by
  cases node with
  | expr value =>
      cases value <;> simp [children, exprChildren] at isChild <;>
        grind -ring -linarith [Node.isValue, isFuncLit, ident]
  | _ => cases isValue <;> simp [children] at isChild <;> grind -ring -linarith [Node.isValue, ident, lit]

/-- There are no labels in an expression outside of function literals. -/
theorem events_labels_of_isValue {node : Node} (isValue : node.isValue) : node.events .labels = [] := by
  induction node using induction_children with
  | _ node ih =>
      cases isLit : node.isFuncLit with
      | true =>
          unfold isFuncLit at isLit
          split at isLit
          · rw [events_eq]
            rfl
          · cases isLit
      | false =>
          have notLit : ¬node.isFuncLit := by simp [isLit]
          have noLabel : node.ownLabel? = none := by
            cases node <;> first | rfl | cases isValue
          rw [events_labels notLit, noLabel]
          refine List.flatMap_eq_nil_iff.mpr fun child isChild => ?_
          have isChild := List.mem_reverse.mp isChild
          exact ih child isChild (isValue_of_child isValue notLit isChild)

/-- A node that has something to report itself visits its children only if it reports at its token,
or else looks for labels in an expression. -/
theorem token_of_visit {mode other visited : Mode} {node : Node} {pos : Pos} {index : Nat}
    (anchors : Anchors mode node pos) (isVisit : visit visited index ∈ node.plan other)
    (related : mode = other ∨ mode.isBeside other ∨ other.isBeside mode) :
    (∃ count, node.token? = some (count, pos)) ∧ visited ≠ .symbol pos ∨
      visited = .labels ∧ node.isValue ∧ ¬node.isFuncLit := by
  cases anchors with
  | name mode name => exact absurd (plan_ident other name ▸ isVisit) (visit_notMem_namePlan _ _ _ _)
  | define isStmt token =>
      refine .inl ⟨⟨_, token⟩, ?_⟩
      rintro rfl
      obtain ⟨rfl, -, span, lhs, tok, rhs, same⟩ := token_of_symbol isVisit
      obtain rfl := Node.stmt.inj same
      obtain rfl | ⟨rfl, notAssign⟩ := isStmt
      · obtain same | beside | beside := related
        · cases same
        · cases beside
        · cases beside
      · exact notAssign _ _ _ _ _ rfl
  | symbol tokPos value =>
      obtain ⟨isLabels, notLit⟩ := labels_of_visit (.inr ⟨_, rfl⟩) isVisit related
      exact .inr ⟨isLabels, rfl, notLit⟩
  | target value =>
      obtain ⟨isLabels, notLit⟩ := labels_of_visit (.inl rfl) isVisit related
      exact .inr ⟨isLabels, rfl, notLit⟩
  | bind item =>
      exfalso
      obtain rfl | beside | beside := related
      · simp [plan] at isVisit
      · cases other <;> first | (simp [Mode.isBeside] at beside; done) | simp [plan] at isVisit
      · cases other <;> simp [Mode.isBeside, Mode.isInner] at beside

/-! ### Sites -/

/-- The positions where a node or one below it begins, and those of the tokens between them. -/
def sites (node : Node) : List Pos :=
  node.starts ++ node.places

/-- A tree that was read from lexemes. -/
structure Legible (lexemes : List Lexeme) (node : Node) : Prop where
  positive : ∀ lexeme ∈ lexemes, lexeme.token = .ident → 0 < lexeme.pos
  sound : ∃ role, Sound role node
  clear : node.Clear
  written : node.Written lexemes

namespace Legible

variable {lexemes : List Lexeme} {node : Node} {pos : Pos} {index : Nat}

/-- No node of a tree that was read was added later. -/
theorem stands (legible : Legible lexemes node) :
    ∃ role, node.Stands role ∧ ∀ part ∈ node.parts role, Sound part.1 part.2 := by
  have notBlank : ¬(ident { name := "_" }).Written lexemes := by
    intro written
    obtain isLexeme | ⟨isPoint, -⟩ := written.token
    · exact absurd (legible.positive _ isLexeme rfl) (by decide)
    · exact absurd isPoint (by decide)
  obtain ⟨role, sound⟩ := legible.sound
  cases sound with
  | placed stands parts => exact ⟨role, stands, parts⟩
  | read name => exact absurd (legible.written.child List.mem_cons_self) notBlank
  | blank => exact absurd legible.written notBlank

theorem isPositioned (legible : Legible lexemes node) : node.isPositioned := by
  obtain ⟨role, stands, -⟩ := legible.stands
  exact isPositioned_of_pos stands.positive

theorem child {child : Node} (legible : Legible lexemes node) (isChild : child ∈ node.children) :
    Legible lexemes child where
  positive := legible.positive
  sound := by
    obtain ⟨role, -, parts⟩ := legible.stands
    rw [← map_snd_parts role node] at isChild
    obtain ⟨part, isPart, rfl⟩ := List.mem_map.mp isChild
    exact ⟨part.1, parts part isPart⟩
  clear := legible.clear.child isChild
  written := legible.written.child isChild

/-- A node that is not empty begins at a site. -/
theorem start_mem_sites (legible : Legible lexemes node) (notEmpty : node.isEmptyStmt = false) :
    node.span.start ∈ node.sites := by
  have room := legible.written.room.resolve_left (by simp [notEmpty])
  exact List.mem_append_left _ (mem_starts_self (isSolid_iff.mpr ⟨legible.isPositioned, room⟩))

theorem token_mem_sites (legible : Legible lexemes node) {count : Nat}
    (token : node.token? = some (count, pos)) : pos ∈ node.sites := by
  refine List.mem_append_right _ ?_
  rw [places_eq legible.isPositioned, token]
  exact List.mem_append_left _ List.mem_cons_self

theorem mem_sites_of_child {child : Node} (legible : Legible lexemes node)
    (isChild : child ∈ node.children) (isSite : pos ∈ child.sites) : pos ∈ node.sites := by
  obtain isStart | isPlace := List.mem_append.mp isSite
  · exact List.mem_append_left _ (mem_starts_of_child isChild isStart)
  · refine List.mem_append_right _ ?_
    rw [places_eq legible.isPositioned]
    exact List.mem_append_right _ (List.mem_flatMap.mpr ⟨child, isChild, isPlace⟩)

/-- The sites of a node lie in its range. -/
theorem contains_of_site (legible : Legible lexemes node) (isSite : pos ∈ node.sites) :
    node.span.contains pos := by
  obtain isStart | isPlace := List.mem_append.mp isSite
  · exact legible.clear.clearAt.holds pos isStart
  · obtain ⟨role, sound⟩ := legible.sound
    exact span_contains_iff.mpr (sound.holds isPlace)

/-- Among the children of a node the first one that holds a site is the one whose site it is. -/
theorem find?_of_site {child : Node} (legible : Legible lexemes node)
    (isChild : node.children[index]? = some child) (isSite : pos ∈ child.sites) :
    node.children.find? (·.span.contains pos) = some child ∧
      node.children.findIdx (·.span.contains pos) = index := by
  obtain isStart | isPlace := List.mem_append.mp isSite
  · exact legible.clear.find?_of_starts isChild isStart
  · obtain ⟨role, sound⟩ := legible.sound
    exact find?_of_child sound legible.isPositioned isChild isPlace

/-- The token of a node is no site of a child. -/
theorem notMem_sites_of_token {child : Node} {count : Nat} (legible : Legible lexemes node)
    (token : node.token? = some (count, pos)) (isChild : child ∈ node.children) :
    pos ∉ child.sites := by
  intro isSite
  obtain ⟨role, sound⟩ := legible.sound
  obtain ⟨index, isChild⟩ := List.getElem?_of_mem isChild
  have found := (legible.find?_of_site isChild isSite).1
  exact absurd ((find?_of_token sound legible.isPositioned token).symm.trans found)
    (Option.some_ne_none _).symm

end Legible

end Node

/-! ### Anchors -/

/-- The anchors of some events in their order. -/
def anchors (events : List Event) : List Pos :=
  events.filterMap Event.anchor?

theorem anchors_append (first second : List Event) :
    anchors (first ++ second) = anchors first ++ anchors second :=
  List.filterMap_append

theorem anchors_flatMap {α : Type} (parts : List α) (eventsOf : α → List Event) :
    anchors (parts.flatMap eventsOf) = parts.flatMap fun part => anchors (eventsOf part) := by
  induction parts with
  | nil => rfl
  | cons part parts ih => rw [List.flatMap_cons, List.flatMap_cons, anchors_append, ih]

namespace Node

variable {lexemes : List Lexeme} {node : Node} {mode other : Mode} {pos : Pos}

/-- Where a step of a plan has something to report. -/
theorem mem_anchors_step {planned : PlanStep}
    (mem : pos ∈ anchors (planned.events Node.events node.children)) :
    match planned with
    | .event happens => happens.anchor? = some pos
    | .visit visited index => ∃ child, node.children[index]? = some child ∧
        pos ∈ anchors (child.events visited) := by
  cases planned with
  | event happens => simpa [anchors, PlanStep.events] using mem
  | visit visited index =>
      rw [events_visit] at mem
      cases isChild : node.children[index]? with
      | none => simp [isChild, anchors] at mem
      | some child =>
          simp only [isChild, Option.elim_some] at mem
          exact ⟨child, isChild, mem⟩

/-- What a node has to report it reports at its sites, or else at the `:=` next to it. -/
theorem mem_sites_of_anchor (legible : Legible lexemes node)
    (mem : pos ∈ anchors (node.events mode)) : pos ∈ node.sites ∨ mode = .symbol pos := by
  induction node using induction_children generalizing mode with
  | _ node ih =>
      rw [events_eq, anchors_flatMap] at mem
      obtain ⟨planned, isPlanned, mem⟩ := List.mem_flatMap.mp mem
      have located := mem_anchors_step mem
      cases planned with
      | event happens =>
          cases anchors_of_event isPlanned located with
          | name mode name => exact .inl (legible.start_mem_sites rfl)
          | symbol tokPos value => exact .inr rfl
          | target value => exact .inl (legible.start_mem_sites rfl)
          | define isStmt token => exact .inl (legible.token_mem_sites token)
          | bind item => exact .inl (legible.start_mem_sites rfl)
      | visit visited index =>
          obtain ⟨child, isChild, mem⟩ := located
          have isMember := List.mem_of_getElem? isChild
          obtain isSite | rfl := ih child isMember (legible.child isMember) mem
          · exact .inl (legible.mem_sites_of_child isMember isSite)
          · obtain ⟨-, -, span, lhs, tok, rhs, rfl⟩ := token_of_symbol isPlanned
            exact .inl (legible.token_mem_sites (token?_assign span lhs tok rhs _))

/-- What a node reports itself no child reports that is visited then. -/
theorem notMem_anchors_of_visit {visited : Mode} {index : Nat} {child : Node}
    (legible : Legible lexemes node) (anchors : Anchors mode node pos)
    (isVisit : .visit visited index ∈ node.plan other)
    (related : mode = other ∨ mode.isBeside other ∨ other.isBeside mode)
    (isChild : node.children[index]? = some child) : pos ∉ GoMend.anchors (child.events visited) := by
  intro mem
  have isMember := List.mem_of_getElem? isChild
  obtain ⟨⟨count, token⟩, notSymbol⟩ | ⟨rfl, isValue, notLit⟩ := token_of_visit anchors isVisit related
  · obtain isSite | isSymbol := mem_sites_of_anchor (legible.child isMember) mem
    · exact legible.notMem_sites_of_token token isMember isSite
    · exact notSymbol isSymbol
  · rw [events_labels_of_isValue (isValue_of_child isValue notLit isMember)] at mem
    cases mem

/-- Children that are visited in plans that lie apart report at different positions. -/
theorem notMem_anchors_of_visits {visited visited' : Mode} {index index' : Nat} {first second : Node}
    (legible : Legible lexemes node) (isVisit : .visit visited index ∈ node.plan mode)
    (isVisit' : .visit visited' index' ∈ node.plan other)
    (apart : Apart (.visit visited index) (.visit visited' index'))
    (isFirst : node.children[index]? = some first) (isSecond : node.children[index']? = some second)
    (beside : ∀ child ∈ node.children, ∀ mode other : Mode, mode.isBeside other →
      (anchors (child.events mode)).Disjoint (anchors (child.events other)))
    (inFirst : pos ∈ anchors (first.events visited)) : pos ∉ anchors (second.events visited') := by
  intro inSecond
  have firstMember := List.mem_of_getElem? isFirst
  have secondMember := List.mem_of_getElem? isSecond
  obtain isSite | rfl := mem_sites_of_anchor (legible.child firstMember) inFirst
  · obtain isSite' | rfl := mem_sites_of_anchor (legible.child secondMember) inSecond
    · obtain ⟨-, indexEq⟩ := legible.find?_of_site isFirst isSite
      obtain ⟨-, indexEq'⟩ := legible.find?_of_site isSecond isSite'
      obtain rfl := indexEq.symm.trans indexEq'
      obtain rfl := Option.some.inj (isFirst.symm.trans isSecond)
      exact beside first firstMember visited visited' (apart rfl) inFirst inSecond
    · obtain ⟨-, -, span, lhs, tok, rhs, rfl⟩ := token_of_symbol isVisit'
      exact legible.notMem_sites_of_token (token?_assign span lhs tok rhs _) firstMember isSite
  · obtain ⟨-, rfl, span, lhs, tok, rhs, rfl⟩ := token_of_symbol isVisit
    obtain isSite' | rfl := mem_sites_of_anchor (legible.child secondMember) inSecond
    · exact legible.notMem_sites_of_token (token?_assign span lhs tok rhs _) secondMember isSite'
    · obtain ⟨-, rfl, -⟩ := token_of_symbol isVisit'
      exact absurd (apart rfl) Bool.false_ne_true

/-- Steps of plans that lie apart report at different positions. -/
theorem anchors_disjoint_of_apart {first second : PlanStep} (legible : Legible lexemes node)
    (isFirst : first ∈ node.plan mode) (isSecond : second ∈ node.plan other)
    (related : mode = other ∨ mode.isBeside other) (apart : Apart first second)
    (beside : ∀ child ∈ node.children, ∀ mode other : Mode, mode.isBeside other →
      (anchors (child.events mode)).Disjoint (anchors (child.events other))) :
    (anchors (first.events Node.events node.children)).Disjoint
      (anchors (second.events Node.events node.children)) := by
  intro pos inFirst inSecond
  have firstMem := mem_anchors_step inFirst
  have secondMem := mem_anchors_step inSecond
  cases first with
  | event happens =>
      have anchored := anchors_of_event isFirst firstMem
      cases second with
      | event other =>
          obtain none | none := apart
          · exact absurd (none.symm.trans firstMem) (Option.some_ne_none _).symm
          · exact absurd (none.symm.trans secondMem) (Option.some_ne_none _).symm
      | visit visited index =>
          obtain ⟨child, isChild, mem⟩ := secondMem
          exact notMem_anchors_of_visit legible anchored isSecond (related.imp_right .inl) isChild mem
  | visit visited index =>
      obtain ⟨child, isChild, mem⟩ := firstMem
      cases second with
      | event happens =>
          exact notMem_anchors_of_visit legible (anchors_of_event isSecond secondMem) isFirst
            (related.imp Eq.symm .inr) isChild mem
      | visit visited' index' =>
          obtain ⟨child', isChild', mem'⟩ := secondMem
          exact notMem_anchors_of_visits legible isFirst isSecond apart isChild isChild' beside mem mem'

/-- Two ways of visiting a node one beside the other report at different positions. -/
theorem anchors_disjoint_of_isBeside (legible : Legible lexemes node) (isBeside : mode.isBeside other) :
    (anchors (node.events mode)).Disjoint (anchors (node.events other)) := by
  induction node using induction_children generalizing mode other with
  | _ node ih =>
      rw [events_eq, events_eq, anchors_flatMap, anchors_flatMap]
      intro pos inFirst inSecond
      obtain ⟨first, isFirst, inFirst⟩ := List.mem_flatMap.mp inFirst
      obtain ⟨second, isSecond, inSecond⟩ := List.mem_flatMap.mp inSecond
      exact anchors_disjoint_of_apart legible isFirst isSecond (.inr isBeside)
        (apart_of_isBeside isBeside _ first isFirst second isSecond)
        (fun child isChild mode other => ih child isChild (legible.child isChild)) inFirst inSecond

/-- No two events of a tree that was read are reported at the same position. -/
theorem nodup_anchors (legible : Legible lexemes node) : (anchors (node.events mode)).Nodup := by
  induction node using induction_children generalizing mode with
  | _ node ih =>
      rw [events_eq, anchors_flatMap, List.nodup_flatMap]
      refine ⟨fun planned isPlanned => ?_, ?_⟩
      · cases planned with
        | event happens => cases isAnchor : happens.anchor? <;> simp [anchors, PlanStep.events, isAnchor]
        | visit visited index =>
            rw [events_visit]
            cases isChild : node.children[index]? with
            | none => exact List.nodup_nil
            | some child =>
                have isMember := List.mem_of_getElem? isChild
                exact ih child isMember (legible.child isMember)
      · refine (pairwise_apart_plan mode node).imp_of_mem ?_
        intro first second isFirst isSecond apart
        exact anchors_disjoint_of_apart legible isFirst isSecond (.inl rfl) apart
          fun child isChild mode other => anchors_disjoint_of_isBeside (legible.child isChild)

end Node

end GoMend
