import GoMend.Proofs.Tree.Sound

/-!
# Trees as they were written

A tree that was read is made of lexemes, and stands in the order in which they were written.  Its
names, literals and tokens are lexemes of the text.  Printing asks for the comments before certain
positions of a tree: where a node begins and where its bracket closes.  These lie in the ranges of
the nodes around them, and in a type assertion those of the operand come before those of the type.
-/

namespace GoMend

namespace Node

/-! ### Where printing asks for comments -/

/-- Whether printing a node asks for the comments before its last character, which is a bracket.  A
statement that takes over the lines of a removed assignment ends where that did, so an assignment
counts as well. -/
def asksAtStop : Node → Bool
  | .expr (.call ..) | .expr (.composite ..) | .fieldList _ | .decl (.gen _) => true
  | .stmt (.block _) | .stmt (.assign ..) => true
  | _ => false

/-- Whether a node is an empty statement, which is not printed. -/
def isEmptyStmt : Node → Bool
  | .stmt step => Layout.isEmptyStmt step
  | _ => false

/-- The positions at which printing the node itself may ask for comments. -/
def ownQueries (node : Node) : List Pos :=
  if node.isPositioned && !node.isEmptyStmt then
    node.span.start :: if node.asksAtStop then [node.span.stop - 1] else []
  else
    []

/-- The positions at which printing the node and the nodes below it may ask for comments. -/
def queries (node : Node) : List Pos :=
  node.ownQueries ++ node.children.attach.flatMap fun child => queries child.val
termination_by sizeOf node
decreasing_by exact sizeOf_lt_of_mem_children child.property

theorem queries_eq (node : Node) : node.queries = node.ownQueries ++ node.children.flatMap queries := by
  rw [queries]
  simp only [List.flatMap_def]
  rw [List.attach_map_val (f := queries)]

theorem mem_queries {node : Node} {pos : Pos} :
    pos ∈ node.queries ↔ pos ∈ node.ownQueries ∨ pos ∈ node.children.flatMap queries := by
  rw [queries_eq, List.mem_append]

theorem mem_queries_of_child {node child : Node} {pos : Pos} (isChild : child ∈ node.children)
    (mem : pos ∈ child.queries) : pos ∈ node.queries :=
  mem_queries.mpr (.inr (List.mem_flatMap.mpr ⟨child, isChild, mem⟩))

/-- A node that was read and is no empty statement asks where it begins. -/
theorem start_mem_queries {node : Node} (positioned : node.isPositioned)
    (notEmpty : node.isEmptyStmt = false) : node.span.start ∈ node.queries := by
  refine mem_queries.mpr (.inl ?_)
  simp [ownQueries, positioned, notEmpty]

theorem stop_mem_queries {node : Node} (positioned : node.isPositioned)
    (asks : node.asksAtStop) : node.span.stop - 1 ∈ node.queries := by
  have notEmpty : node.isEmptyStmt = false := by
    unfold asksAtStop at asks
    split at asks <;> first | rfl | exact absurd asks Bool.false_ne_true
  refine mem_queries.mpr (.inl ?_)
  simp [ownQueries, positioned, notEmpty, asks]

/-- A node without a position asks nowhere if its children do not. -/
theorem queries_of_unread {node : Node} (unread : node.isPositioned = false)
    (children : ∀ child ∈ node.children, child.queries = []) : node.queries = [] := by
  rw [queries_eq, ownQueries, unread]
  simpa using children

/-- An empty statement asks nowhere. -/
theorem queries_of_emptyStmt {node : Node} (isEmpty : node.isEmptyStmt)
    (noChildren : node.children = []) : node.queries = [] := by
  rw [queries_eq, ownQueries, isEmpty, noChildren]
  simp

/-- A node that does not ask at its end asks itself only where it begins. -/
theorem eq_start_of_ownQuery {node : Node} (asksAtStart : node.asksAtStop = false) {pos : Pos}
    (mem : pos ∈ node.ownQueries) : pos = node.span.start := by
  unfold ownQueries at mem
  split at mem
  · simpa [asksAtStart] using mem
  · cases mem

/-- What a node that takes up room asks for itself lies in its range. -/
theorem bounds_of_ownQuery {node : Node} (room : node.span.start < node.span.stop) {pos : Pos}
    (mem : pos ∈ node.ownQueries) : node.span.start ≤ pos ∧ pos < node.span.stop := by
  unfold ownQueries at mem
  split at mem
  · obtain rfl | mem := List.mem_cons.mp mem
    · exact ⟨Int.le_refl _, room⟩
    · split at mem
      · obtain rfl := List.mem_singleton.mp mem
        lia
      · cases mem
  · cases mem

/-! ### Straight trees -/

/-- Whether a node asks for comments before another one does. -/
def AsksBefore (first second : Node) : Prop :=
  ∀ pos ∈ first.queries, ∀ later ∈ second.queries, pos ≤ later

/-- Whether a node is a type assertion, whose type is printed before its operand. -/
def isAssertion : Node → Bool
  | .expr (.typeAssert ..) => true
  | _ => false

theorem ownStmts?_of_isAssertion {node : Node} (isAssertion : node.isAssertion) :
    node.ownStmts? = none := by
  unfold Node.isAssertion at isAssertion
  split at isAssertion
  · rfl
  · cases isAssertion

/-- A tree in whose type assertions the operand asks for comments before the type does. -/
inductive Straight : Node → Prop where
  | node {node : Node} (inOrder : node.isAssertion → node.children.Pairwise AsksBefore)
      (children : ∀ child ∈ node.children, Straight child) : Straight node

namespace Straight

variable {node : Node}

theorem inOrder (straight : Straight node) (isAssertion : node.isAssertion) :
    node.children.Pairwise AsksBefore := by
  cases straight with
  | node inOrder => exact inOrder isAssertion

theorem child {child : Node} (straight : Straight node) (isChild : child ∈ node.children) :
    Straight child := by
  cases straight with
  | node _ children => exact children child isChild

end Straight

/-! ### Written trees -/

/-- Whether the token of a node is one of the lexemes.  A name is an identifier, except for the point
before the path of an import.  An import begins with its name, or else with its path, an item that
declares values has a name, and the guard of a type switch assigns with `:=` only. -/
def TokenWritten (lexemes : List Lexeme) : Node → Prop
  | .expr (.ident name) =>
      ⟨.ident, name.name, name.span.start⟩ ∈ lexemes ∨
        name.name = "." ∧ ∃ text, ⟨.period, text, name.span.start⟩ ∈ lexemes
  | .expr (.lit literal) =>
      literal.kind.isLiteral ∧ ⟨literal.kind, literal.value, literal.span.start⟩ ∈ lexemes
  | .stmt (.assign _ _ tok _ tokPos) => ∃ text, ⟨tok, text, tokPos⟩ ∈ lexemes
  | .stmt (.range _ _ _ (some tok) _ _ tokPos) => ∃ text, ⟨tok, text, tokPos⟩ ∈ lexemes
  | .stmt (.typeSwitch _ _ (.assign _ _ tok _ _) _) => tok = .define
  | .spec (.importSpec item) =>
      item.path.kind = .string ∧
        item.span.start = (item.name.map (·.span.start)).getD item.path.span.start
  | .spec (.valueSpec _ names _ _) => names ≠ []
  | _ => True

/-- Whether no lexeme has to be known of a node itself. -/
def isBare : Node → Bool
  | .expr (.ident _) | .expr (.lit _) | .stmt (.assign ..) | .spec (.importSpec _) => false
  | .stmt (.typeSwitch ..) | .spec (.valueSpec ..) => false
  | .stmt (.range _ _ _ tok _ _ _) => tok.isNone
  | _ => true

theorem token?_of_isBare {node : Node} (bare : node.isBare) : node.token? = none := by
  unfold token?
  split <;> first | rfl | cases bare

theorem tokenWritten_of_isBare {lexemes : List Lexeme} {node : Node} (bare : node.isBare) :
    node.TokenWritten lexemes := by
  unfold TokenWritten
  split <;> trivial

/-- A tree whose tokens are lexemes and whose nodes take up room, except for empty statements. -/
inductive Written (lexemes : List Lexeme) : Node → Prop where
  | node {node : Node} (token : node.TokenWritten lexemes)
      (room : node.isEmptyStmt ∨ node.span.start < node.span.stop)
      (children : ∀ child ∈ node.children, Written lexemes child) : Written lexemes node

namespace Written

variable {lexemes : List Lexeme} {node : Node}

theorem token (written : Written lexemes node) : node.TokenWritten lexemes := by
  cases written with
  | node token => exact token

theorem room (written : Written lexemes node) :
    node.isEmptyStmt ∨ node.span.start < node.span.stop := by
  cases written with
  | node _ room => exact room

theorem child {child : Node} (written : Written lexemes node) (isChild : child ∈ node.children) :
    Written lexemes child := by
  cases written with
  | node _ _ children => exact children child isChild

end Written

/-- What is true of a tree that was read from lexemes. -/
structure Drawn (lexemes : List Lexeme) (node : Node) : Prop where
  written : Written lexemes node
  straight : Straight node
  holds : ∀ pos ∈ node.queries, node.span.start ≤ pos ∧ pos < node.span.stop

/-- A node that takes up room is drawn if its children are, and ask for comments in its range. -/
theorem Drawn.of_children {lexemes : List Lexeme} {node : Node}
    (token : node.TokenWritten lexemes) (room : node.span.start < node.span.stop)
    (bounds : ∀ pos ∈ node.children.flatMap queries, node.span.start ≤ pos ∧ pos < node.span.stop)
    (inOrder : node.isAssertion → node.children.Pairwise AsksBefore)
    (children : ∀ child ∈ node.children, Drawn lexemes child) : Drawn lexemes node where
  written := .node token (.inr room) fun child isChild => (children child isChild).written
  straight := .node inOrder fun child isChild => (children child isChild).straight
  holds pos mem := (mem_queries.mp mem).elim (bounds_of_ownQuery room) (bounds pos)

end Node

end GoMend
