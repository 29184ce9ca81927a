import GoMend.Tree.Walk

/-!
# Finding a position in trees

The chain of nodes around a position goes from the innermost one to the file.  Only nodes that
were read from a file are entered, so that what edits have added never stands in a chain.
-/

namespace GoMend

/-- A node with its address in the file. -/
structure Located where
  node : Node
  address : Node.Address

namespace Node

/-- The node and those below it that hold a position, from the outermost one on.  At every step the
first child that holds the position is entered. -/
def descend (pos : Pos) (node : Node) (address : Address) : List Located :=
  ⟨node, address⟩ ::
    match _found : node.children.find? (·.span.contains pos) with
    | none => []
    | some child =>
        descend pos child (address ++ [node.children.findIdx (·.span.contains pos)])
termination_by sizeOf node
decreasing_by exact sizeOf_lt_of_mem_children (List.mem_of_find?_eq_some _found)

end Node

namespace File

/-- The nodes around a position, from the innermost one to the file. -/
def enclosing (file : File) (pos : Pos) : List Located :=
  ((Node.file file).descend pos []).reverse

/-- Whether the range of the file holds a position. -/
def owns (file : File) (pos : Pos) : Bool :=
  file.span.start ≤ pos && pos < file.span.stop

end File

/-- The index of the first file that owns a position. -/
def findUnit? (files : List File) (pos : Pos) : Option Nat :=
  files.findIdx? (·.owns pos)

end GoMend
