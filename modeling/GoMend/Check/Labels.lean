import GoMend.Tree.Walk

/-!
# Labels of a function body

The labelled statements of a body outside of nested function literals.  They are visited depth
first, and among siblings the last one comes first.
-/

namespace GoMend

namespace Node

/-- Whether a node is a function literal. -/
def isFuncLit : Node → Bool
  | .expr (.funcLit ..) => true
  | _ => false

/-- The label of a labelled statement, if it is not blank. -/
def ownLabel? : Node → Option Ident
  | .stmt (.labeled _ label _) => if label.isBlank then none else some label
  | _ => none

/-- The labels of the nodes of a stack, the first node first, and of everything below them. -/
def labelsOfStack : List Node → List Ident
  | [] => []
  | node :: stack =>
      if node.isFuncLit then
        labelsOfStack stack
      else
        node.ownLabel?.toList ++ labelsOfStack (node.children.reverse ++ stack)
termination_by stack => total (stack.map count)
decreasing_by
  · have := count_eq node
    simp only [List.map_cons, total_cons]
    omega
  · have := count_eq node
    simp only [List.map_append, List.map_reverse, total_append, total_reverse,
      List.map_cons, total_cons]
    omega

end Node

/-- The labels of a function body in the order in which they are visited. -/
def Block.labels (body : Block) : List Ident :=
  Node.labelsOfStack (Node.block body).children.reverse

end GoMend
