import GoMend.Proofs.Tree.Sound
import GoMend.Tree.Locate

/-!
# Clear trees

A search enters the first child that holds a position, and never turns back.  It finds a node from
the position where it begins if that position lies in the ranges of all nodes around it, and in the
range of no child that stands before them.  In a clear tree this is so for every node that was read
and is not empty.
-/

namespace GoMend

namespace Node

/-- Whether a node was read from a file and takes up room in it. -/
def isSolid (node : Node) : Bool :=
  node.isPositioned && decide (node.span.start < node.span.stop)

/-- The positions where the node and the nodes below it begin, as far as these were read from a file
and take up room in it. -/
def starts (node : Node) : List Pos :=
  (if node.isSolid then [node.span.start] else []) ++
    node.children.attach.flatMap fun child => starts child.val
termination_by sizeOf node
decreasing_by exact sizeOf_lt_of_mem_children child.property

theorem starts_eq (node : Node) :
    node.starts = (if node.isSolid then [node.span.start] else []) ++
      node.children.flatMap starts := by
  rw [starts]
  simp only [List.flatMap_def]
  rw [List.attach_map_val (f := starts)]

theorem mem_starts_self {node : Node} (solid : node.isSolid) : node.span.start ∈ node.starts := by
  rw [starts_eq, if_pos solid]
  exact List.mem_append_left _ (List.mem_singleton.mpr rfl)

theorem mem_starts_of_child {node child : Node} {pos : Pos} (isChild : child ∈ node.children)
    (mem : pos ∈ child.starts) : pos ∈ node.starts := by
  rw [starts_eq]
  exact List.mem_append_right _ (List.mem_flatMap.mpr ⟨child, isChild, mem⟩)

/-- What begins in a node is the node itself or begins in a child. -/
theorem mem_starts {node : Node} {pos : Pos} (mem : pos ∈ node.starts) :
    (node.isSolid ∧ pos = node.span.start) ∨ pos ∈ node.children.flatMap starts := by
  rw [starts_eq, List.mem_append] at mem
  refine mem.imp_left fun isStart => ?_
  split at isStart
  · next solid => exact ⟨solid, List.mem_singleton.mp isStart⟩
  · cases isStart

/-- A node that stands below another one begins in it. -/
theorem mem_starts_of_get? {node inner : Node} {address : Address}
    (found : node.get? address = some inner) (solid : inner.isSolid) :
    inner.span.start ∈ node.starts := by
  induction address generalizing node with
  | nil =>
      obtain rfl := Option.some.inj found
      exact mem_starts_self solid
  | cons index address ih =>
      obtain ⟨child, isChild, found⟩ := Option.bind_eq_some_iff.mp found
      exact mem_starts_of_child (List.mem_of_getElem? isChild) (ih found)

theorem isSolid_iff {node : Node} :
    node.isSolid ↔ node.isPositioned ∧ node.span.start < node.span.stop := by
  simp [isSolid]

/-- Nothing begins in a node that takes up no room and holds nothing. -/
theorem starts_of_empty {node : Node} (noRoom : node.span.stop ≤ node.span.start)
    (noChildren : node.children = []) : node.starts = [] := by
  have notSolid : ¬node.isSolid := fun solid => Int.not_lt.mpr noRoom (isSolid_iff.mp solid).2
  rw [starts_eq, if_neg notSolid, noChildren]
  rfl

/-- Whether a node ends before everything begins that begins in another one. -/
def Before (first second : Node) : Prop :=
  ∀ pos ∈ second.starts, first.span.stop ≤ pos

/-- Whether a node holds nothing of what begins in another one. -/
def Misses (first second : Node) : Prop :=
  ∀ pos ∈ second.starts, first.span.contains pos = false

theorem Before.misses {first second : Node} (before : Before first second) :
    Misses first second := by
  intro pos isStart
  have notInside := Int.not_lt.mpr (before pos isStart)
  simp only [Span.contains, notInside, decide_false, Bool.and_false]

/-- The list of statements of a node is among its children. -/
theorem ownStmts_sublist (node : Node) :
    ((node.ownStmts?.getD []).map stmt).Sublist node.children := by
  unfold ownStmts?
  split
  · exact .refl _
  · exact List.sublist_append_right _ _
  · exact List.sublist_append_right _ _
  · exact List.nil_sublist _

/-! ### Clear trees -/

/-- What is true of every node of a clear tree. -/
structure ClearAt (node : Node) : Prop where
  /-- What begins in the node begins in its range. -/
  holds : ∀ pos ∈ node.starts, node.span.contains pos
  misses : node.children.Pairwise Misses
  lined : ((node.ownStmts?.getD []).map stmt).Pairwise Before
  /-- A statement of a list that was read takes up room. -/
  roomy : ∀ step ∈ node.ownStmts?.getD [], (stmt step).isPositioned → (stmt step).isSolid

/-- A tree in which searches find what begins at a position. -/
inductive Clear : Node → Prop where
  | node {node : Node} (here : ClearAt node) (children : ∀ child ∈ node.children, Clear child) :
      Clear node

namespace Clear

variable {node inner : Node} {address : Address}

theorem clearAt (clear : Clear node) : ClearAt node := by
  cases clear with
  | node here => exact here

theorem child {child : Node} (clear : Clear node) (isChild : child ∈ node.children) : Clear child := by
  cases clear with
  | node here children => exact children child isChild

/-- A node that takes up room is clear if what begins in its children begins in its range. -/
theorem of_children (solid : node.isSolid)
    (bounds : ∀ pos ∈ node.children.flatMap starts, node.span.start ≤ pos ∧ pos < node.span.stop)
    (misses : node.children.Pairwise Misses)
    (lined : ((node.ownStmts?.getD []).map stmt).Pairwise Before)
    (roomy : ∀ step ∈ node.ownStmts?.getD [], (stmt step).isPositioned → (stmt step).isSolid)
    (children : ∀ child ∈ node.children, Clear child) : Clear node := by
  obtain ⟨positioned, room⟩ := isSolid_iff.mp solid
  refine .node ⟨?_, misses, lined, roomy⟩ children
  intro pos isStart
  refine span_contains_iff.mpr ⟨positioned, ?_⟩
  obtain ⟨-, rfl⟩ | inChild := mem_starts isStart
  · exact ⟨Int.le_refl _, room⟩
  · exact bounds pos inChild

/-- A node in which nothing begins is clear if the nodes below it are. -/
theorem of_silent (silent : node.starts = []) (children : ∀ child ∈ node.children, Clear child)
    (unread : ∀ step ∈ node.ownStmts?.getD [], (stmt step).isPositioned = false) : Clear node := by
  have childSilent : ∀ child ∈ node.children, child.starts = [] := fun child isChild =>
    List.eq_nil_iff_forall_not_mem.mpr fun pos isStart =>
      List.not_mem_nil (silent ▸ mem_starts_of_child isChild isStart)
  have lined : node.children.Pairwise Before := by
    refine List.pairwise_of_forall_mem_list fun first _ second isSecond pos isStart => ?_
    rw [childSilent second isSecond] at isStart
    exact absurd isStart List.not_mem_nil
  refine .node ⟨by simp [silent], lined.imp Before.misses, lined.sublist node.ownStmts_sublist, ?_⟩
    children
  intro step isOwn positioned
  exact absurd (positioned.symm.trans (unread step isOwn)) Bool.false_ne_true.symm

/-- A node that takes up no room and holds nothing is clear. -/
theorem of_empty (noRoom : node.span.stop ≤ node.span.start) (noChildren : node.children = [])
    (noList : node.ownStmts? = none) : Clear node :=
  .of_silent (starts_of_empty noRoom noChildren) (by simp [noChildren]) (by simp [noList])

/-- Among the children of a clear node the first one that holds a position is the one in which
something begins there. -/
theorem find?_of_starts {child : Node} {index : Nat} {pos : Pos} (clear : Clear node)
    (isChild : node.children[index]? = some child) (isStart : pos ∈ child.starts) :
    node.children.find? (·.span.contains pos) = some child ∧
      node.children.findIdx (·.span.contains pos) = index := by
  have contains := (clear.child (List.mem_of_getElem? isChild)).clearAt.holds pos isStart
  obtain ⟨inside, rfl⟩ := List.getElem?_eq_some_iff.mp isChild
  have misses := List.pairwise_iff_getElem.mp clear.clearAt.misses
  have earlier : ∀ other (isBefore : other < index),
      node.children[other].span.contains pos = false := fun other isBefore =>
    misses other index (Nat.lt_trans isBefore inside) inside isBefore pos isStart
  have isIndex : node.children.findIdx (·.span.contains pos) = index :=
    (List.findIdx_eq inside).mpr ⟨contains, earlier⟩
  refine ⟨?_, isIndex⟩
  rw [List.find?_eq_some_iff_getElem]
  exact ⟨contains, index, inside, rfl, fun other isBefore => by simp [earlier other isBefore]⟩

/-- The search for the position where a node begins finds the node. -/
theorem mem_descend (clear : Clear node) (found : node.get? address = some inner)
    (solid : inner.isSolid) (start : Address) :
    ⟨inner, start ++ address⟩ ∈ node.descend inner.span.start start := by
  induction address generalizing node start with
  | nil =>
      obtain rfl := Option.some.inj found
      rw [descend, List.append_nil]
      exact List.mem_cons_self
  | cons index address ih =>
      obtain ⟨child, isChild, found⟩ := Option.bind_eq_some_iff.mp found
      have childClear := clear.child (List.mem_of_getElem? isChild)
      obtain ⟨isFound, isIndex⟩ := clear.find?_of_starts isChild (mem_starts_of_get? found solid)
      rw [descend]
      refine List.mem_cons_of_mem _ ?_
      split
      · next notFound => exact absurd (isFound.symm.trans notFound) (Option.some_ne_none _)
      · next other isOther =>
          obtain rfl := Option.some.inj (isFound.symm.trans isOther)
          have below := ih childClear found (start ++ [index])
          rw [List.append_assoc, List.singleton_append] at below
          rwa [isIndex]

end Clear

end Node

end GoMend
