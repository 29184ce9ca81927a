import GoMend.Proofs.Tree.Statements

/-!
# Operators that bind as they should

In a tree that was read, the left operand of a binary operator is no expression of a weaker operator
and the right operand is one of stronger operators only.
-/

namespace GoMend

/-- An expression may stand where binary operators of at least the given precedence are read. -/
def Expr.Binds (least : Nat) : Expr → Prop
  | .binary _ _ op _ => least ≤ op.precedence
  | _ => True

namespace Node

/-- A binary operator has the operands that its precedence calls for. -/
def JoinsWell : Node → Prop
  | .expr (.binary _ left op right) =>
      left.Binds op.precedence ∧ right.Binds (op.precedence + 1)
  | _ => True

/-- All binary operators of a tree have the operands that their precedences call for. -/
def IsGraded (node : Node) : Prop :=
  ∀ below ∈ node.walk, below.JoinsWell

theorem isGraded_iff {node : Node} :
    node.IsGraded ↔ node.JoinsWell ∧ ∀ child ∈ node.children, child.IsGraded := by
  unfold IsGraded
  rw [walk_eq, List.forall_mem_cons]
  refine and_congr_right fun _ => ?_
  simp only [List.mem_flatMap]
  constructor
  · intro all child isChild below isBelow
    exact all below ⟨child, isChild, isBelow⟩
  · rintro all below ⟨child, isChild, isBelow⟩
    exact all child isChild below isBelow

theorem IsGraded.child {node child : Node} (graded : node.IsGraded)
    (isChild : child ∈ node.children) : child.IsGraded :=
  (isGraded_iff.mp graded).2 child isChild

/-- A node that is no binary operator is graded if its children are. -/
theorem isGraded_of_children {node : Node} (joinsWell : node.JoinsWell)
    (children : ∀ child ∈ node.children, child.IsGraded) : node.IsGraded :=
  isGraded_iff.mpr ⟨joinsWell, children⟩

@[simp]
theorem isGraded_ident (name : Ident) : (ident name).IsGraded :=
  isGraded_of_children trivial (by simp [ident, children, exprChildren])

@[simp]
theorem isGraded_name (name : Ident) : (expr (.ident name)).IsGraded :=
  isGraded_ident name

@[simp]
theorem isGraded_lit (literal : BasicLit) : (lit literal).IsGraded :=
  isGraded_of_children trivial (by simp [lit, children, exprChildren])

end Node

end GoMend
