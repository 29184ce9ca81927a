import GoMend.Tree.Node

/-!
# Walking through a tree

A walk visits a node and then everything below it, depth first and in the written order.  The
walk keeps the nodes that wait on a stack.  Lists of statements are found on the way.
-/

namespace GoMend

namespace Node

/-- The number of nodes of the tree below and including a node. -/
def count (node : Node) : Nat :=
  1 + total (node.children.attach.map fun child => count child.val)
termination_by sizeOf node
decreasing_by exact sizeOf_lt_of_mem_children child.property

theorem count_eq (node : Node) : node.count = 1 + total (node.children.map count) := by
  rw [count, List.attach_map_val (f := count)]

/-- Visit the nodes of a stack, the first one first, each with everything below it. -/
def walkStack : List Node → List Node
  | [] => []
  | node :: stack => node :: walkStack (node.children ++ stack)
termination_by stack => total (stack.map count)
decreasing_by
  have := count_eq node
  simp only [List.map_append, total_append, List.map_cons, total_cons]
  omega

/-- The node and everything below it, depth first. -/
def walk (node : Node) : List Node :=
  walkStack [node]

/-- The list of statements that a node holds, if it is a block or a clause. -/
def ownStmts? : Node → Option (List Stmt)
  | .stmt (.block body) => some body.stmts
  | .stmt (.caseClause _ _ body _) => some body
  | .stmt (.commClause _ _ body _) => some body
  | _ => none

/-- Every list of statements of a tree with the node that holds it. -/
def stmtLists (node : Node) : List (Node × List Stmt) :=
  node.walk.filterMap fun owner => owner.ownStmts?.map (owner, ·)

/-! ### Addresses -/

/-- The way from a node down to another one: the index of a child at every step. -/
abbrev Address := List Nat

/-- The node at an address. -/
def get? (node : Node) : Address → Option Node
  | [] => some node
  | index :: rest => (node.children[index]?).bind (get? · rest)

/-- Change the node at an address. -/
def modify (change : Node → Node) : Address → Node → Node
  | [], node => change node
  | index :: rest, node =>
      node.withChildren (node.children.modify index (modify change rest))

/-- Change every node of a tree from the leaves up. -/
def changeAll (change : Node → Node) (node : Node) : Node :=
  change (node.withChildren (node.children.attach.map fun child => changeAll change child.val))
termination_by sizeOf node
decreasing_by exact sizeOf_lt_of_mem_children child.property

end Node

/-- Change the node at an address of a file. -/
def File.modify (change : Node → Node) (address : Node.Address) (file : File) : File :=
  ((Node.file file).modify change address).file?.getD file

/-- Change every node of a file from the leaves up. -/
def File.changeAll (change : Node → Node) (file : File) : File :=
  ((Node.file file).changeAll change).file?.getD file

end GoMend
