import GoMend.Proofs.Tree.Statements
import Mathlib.Data.List.Nodup

/-!
# Walks visit everything once

A walk keeps the nodes that wait on a stack.  It visits the nodes of a tree in the order in which a
recursion over the children would: a node, and then its children from the first one to the last one,
each with everything below it.  So every address of the tree is visited once, and every list of
statements is found.
-/

namespace GoMend

namespace Node

/-! ### The recursion over the children -/

/-- A node and, child by child, everything below it. -/
def preorder (node : Node) : List Node :=
  node :: (node.children.attach.map fun child => preorder child.val).flatten
termination_by sizeOf node
decreasing_by exact sizeOf_lt_of_mem_children child.property

theorem preorder_eq (node : Node) : node.preorder = node :: node.children.flatMap preorder := by
  rw [preorder, List.attach_map_val (f := preorder), List.flatMap_def]

/-- What waits on the stack is visited as the recursion visits it, the first node first. -/
theorem walkStack_eq_preorder (stack : List Node) : walkStack stack = stack.flatMap preorder := by
  fun_induction walkStack stack with
  | case1 => rfl
  | case2 node stack ih =>
      rw [ih, List.flatMap_append, List.flatMap_cons, preorder_eq node, List.cons_append]

theorem walk_eq_preorder (node : Node) : node.walk = node.preorder := by
  rw [walk, walkStack_eq_preorder, List.flatMap_singleton]

/-! ### Addresses in preorder -/

/-- The addresses of a tree, that of a node before those below it. -/
def addresses (node : Node) : List Address :=
  [] :: (node.children.attach.mapIdx fun index child =>
    (addresses child.val).map (index :: ·)).flatten
termination_by sizeOf node
decreasing_by exact sizeOf_lt_of_mem_children child.property

/-- The addresses below a node, given those below each child. -/
def addressesBelow (children : List Node) : List Address :=
  (children.mapIdx fun index child => child.addresses.map (index :: ·)).flatten

theorem addresses_eq (node : Node) : node.addresses = [] :: addressesBelow node.children := by
  have unattached : (node.children.attach.mapIdx fun index child =>
        child.val.addresses.map (index :: ·)) =
      node.children.mapIdx fun index child => child.addresses.map (index :: ·) := by
    refine List.ext_getElem (by simp) fun index _ _ => ?_
    simp only [List.getElem_mapIdx, List.getElem_attach]
  rw [addresses, unattached, addressesBelow]

theorem mem_addressesBelow {children : List Node} {address : Address} :
    address ∈ addressesBelow children ↔
      ∃ index child rest, children[index]? = some child ∧ rest ∈ child.addresses ∧
        address = index :: rest := by
  simp only [addressesBelow, List.mem_flatten, List.mem_mapIdx]
  constructor
  · rintro ⟨_, ⟨index, inRange, rfl⟩, isBelow⟩
    obtain ⟨rest, isRest, rfl⟩ := List.mem_map.mp isBelow
    exact ⟨index, children[index], rest, List.getElem?_eq_getElem inRange, isRest, rfl⟩
  · rintro ⟨index, child, rest, isChild, isRest, rfl⟩
    obtain ⟨inRange, rfl⟩ := List.getElem?_eq_some_iff.mp isChild
    exact ⟨_, ⟨index, inRange, rfl⟩, List.mem_map_of_mem isRest⟩

/-- The addresses of a tree are those at which there is a node. -/
theorem mem_addresses {node : Node} {address : Address} :
    address ∈ node.addresses ↔ (node.get? address).isSome := by
  induction address generalizing node with
  | nil => simp [addresses_eq, get?]
  | cons index rest ih =>
      rw [addresses_eq, List.mem_cons, mem_addressesBelow, get?]
      simp only [reduceCtorEq, false_or]
      cases isChild : node.children[index]? with
      | none => simp +contextual [isChild]
      | some child =>
          rw [Option.bind_some, ← ih]
          constructor
          · rintro ⟨_, _, _, isOther, isRest, same⟩
            obtain ⟨rfl, rfl⟩ := List.cons.inj same
            obtain rfl := Option.some.inj (isChild.symm.trans isOther)
            exact isRest
          · exact fun isRest => ⟨index, child, rest, isChild, isRest, rfl⟩

/-- No address is listed twice: those below different children begin differently. -/
theorem nodup_addresses (node : Node) : node.addresses.Nodup := by
  induction node using induction_children with
  | step node ih =>
      have notRoot : [] ∉ addressesBelow node.children := by simp [mem_addressesBelow]
      rw [addresses_eq, List.nodup_cons]
      refine ⟨notRoot, List.nodup_flatten.mpr ⟨?_, ?_⟩⟩
      · simp only [List.mem_mapIdx]
        rintro _ ⟨index, inRange, rfl⟩
        exact (ih _ (List.getElem_mem inRange)).map fun _ _ => List.tail_eq_of_cons_eq
      · refine List.pairwise_iff_getElem.mpr fun first second isFirst isSecond before => ?_
        simp only [List.getElem_mapIdx]
        refine List.disjoint_left.mpr fun _ inFirst inSecond => ?_
        obtain ⟨_, -, rfl⟩ := List.mem_map.mp inFirst
        obtain ⟨_, -, same⟩ := List.mem_map.mp inSecond
        exact Nat.ne_of_gt before (List.head_eq_of_cons_eq same)

/-- The addresses stand in the order of the nodes. -/
theorem map_get?_addresses (node : Node) :
    node.addresses.map node.get? = node.preorder.map some := by
  induction node using induction_children with
  | step node ih =>
      rw [addresses_eq, preorder_eq, List.map_cons, List.map_cons, List.map_flatMap, get?,
        addressesBelow, List.map_flatten, List.flatMap_def]
      refine congrArg (some node :: List.flatten ·) (List.ext_getElem? fun index => ?_)
      simp only [List.getElem?_map, List.getElem?_mapIdx]
      cases isChild : node.children[index]? with
      | none => rfl
      | some child =>
          have below : node.get? ∘ (index :: ·) = child.get? := by
            funext rest
            simp [get?, isChild]
          simp only [Option.map_some, List.map_map, below]
          rw [ih child (List.mem_of_getElem? isChild)]

/-! ### Lists of statements -/

/-- A node of the three kinds that hold statements, and the statements that it holds. -/
inductive ListsStatements : Node → List Stmt → Prop where
  | block (body : Block) : ListsStatements (.stmt (.block body)) body.stmts
  | caseClause (span : Span) (exprs : Option (List Expr)) (body : List Stmt) (colon : Pos) :
      ListsStatements (.stmt (.caseClause span exprs body colon)) body
  | commClause (span : Span) (comm : Option Stmt) (body : List Stmt) (colon : Pos) :
      ListsStatements (.stmt (.commClause span comm body colon)) body

/-- Whether a node is a block or a clause. -/
def isListOwner (node : Node) : Bool :=
  node.kind ∈ ["BlockStmt", "CaseClause", "CommClause"]

theorem listsStatements_of_ownStmts? {node : Node} {stmts : List Stmt}
    (own : node.ownStmts? = some stmts) : ListsStatements node stmts := by
  unfold ownStmts? at own
  split at own <;> try cases own
  · exact .block ..
  · exact .caseClause ..
  · exact .commClause ..

theorem isSome_ownStmts? (node : Node) : node.ownStmts?.isSome = node.isListOwner := by
  rcases node with value | item | list | step | item | decl | file | comment
  case expr => cases value <;> rfl
  case stmt => cases step <;> rfl
  case spec => cases item <;> rfl
  case decl => cases decl <;> rfl
  all_goals rfl

/-- The owners of the lists of statements are the blocks and clauses of a walk. -/
theorem map_fst_stmtLists (node : Node) :
    node.stmtLists.map Prod.fst = node.walk.filter isListOwner := by
  rw [stmtLists, List.map_filterMap, ← List.filterMap_eq_filter]
  refine List.filterMap_congr fun owner _ => ?_
  rw [Option.guard, ← isSome_ownStmts?]
  cases owner.ownStmts? <;> rfl

theorem listsStatements_of_mem_stmtLists {node owner : Node} {stmts : List Stmt}
    (isList : (owner, stmts) ∈ node.stmtLists) : ListsStatements owner stmts := by
  obtain ⟨visited, -, isOwn⟩ := List.mem_filterMap.mp isList
  obtain ⟨own, ownStmts, same⟩ := Option.map_eq_some_iff.mp isOwn
  obtain ⟨rfl, rfl⟩ := Prod.mk.inj same
  exact listsStatements_of_ownStmts? ownStmts

/-- A walk with a stack visits what the recursion over the children visits, in the same order.  It
comes to every address of the tree once, and the lists of statements that are found on the way are
those of all blocks and clauses, each with the statements of its own. -/
theorem walk_exhausts (node : Node) :
    node.walk = node.preorder ∧
      (node.addresses.Nodup ∧
        (∀ address, address ∈ node.addresses ↔ (node.get? address).isSome) ∧
        node.walk.map some = node.addresses.map node.get?) ∧
      node.stmtLists.map Prod.fst = node.preorder.filter isListOwner ∧
      ∀ entry ∈ node.stmtLists, ListsStatements entry.1 entry.2 := by
  have walked := node.walk_eq_preorder
  refine ⟨walked, ⟨node.nodup_addresses, fun _ => mem_addresses, ?_⟩, ?_, ?_⟩
  · rw [walked, map_get?_addresses]
  · rw [map_fst_stmtLists, walked]
  · exact fun _ isList => listsStatements_of_mem_stmtLists isList

end Node

end GoMend
