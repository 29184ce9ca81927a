import GoMend.Fix.DiscardRead
import GoMend.Layout.Render
import GoMend.Proofs.Tree.Resemble
import Mathlib.Data.List.Forall2

/-!
# Sound trees

A tree is sound when it could have been read from a text and then mended.  Every node plays a role
in the tree, and the role says which nodes are admitted: a header holds a simple statement, the
body of a `switch` holds clauses, and so on.  Names and assignment tokens that were read from a text
have places in it, which lie in the ranges of all nodes around them and in no range of an earlier
sibling of these.  Literals have places too.  Only two things have no position: the discard reads
that were added to statements, and the blank names of imports.

Soundness is the invariant of everything that mends files.
-/

namespace GoMend

namespace Span

/-- Whether a range lies in another one. -/
def Within (inner outer : Span) : Prop :=
  outer.start ≤ inner.start ∧ inner.stop ≤ outer.stop

theorem Within.refl (span : Span) : Within span span :=
  ⟨Int.le_refl _, Int.le_refl _⟩

end Span

/-! ### Places -/

namespace Node

/-- Whether a node was read from a file. -/
def isPositioned (node : Node) : Bool :=
  node.span.isPositioned

theorem isPositioned_of_pos {node : Node} (positive : 0 < node.span.start) :
    node.isPositioned := by
  simp only [isPositioned, Span.isPositioned, noPos, bne_iff_ne]
  lia

theorem span_contains_iff {node : Node} {pos : Pos} : node.span.contains pos ↔
    node.isPositioned ∧ node.span.start ≤ pos ∧ pos < node.span.stop := by
  simp [Span.contains, isPositioned]

/-- The position of a token between the children of a node, with the number of children before it.
The characters of a name or a literal count as such a token. -/
def token? : Node → Option (Nat × Pos)
  | .expr (.ident name) => some (0, name.span.start)
  | .expr (.lit literal) => some (0, literal.span.start)
  | .stmt (.assign _ lhs _ _ tokPos) => some (lhs.length, tokPos)
  | .stmt (.range _ key value (some _) _ _ tokPos) =>
      some (key.toList.length + value.toList.length, tokPos)
  | _ => none

/-- The positions of the names and tokens of a node and everything below it, as far as they were
read from a file. -/
def places (node : Node) : List Pos :=
  if node.isPositioned then
    node.token?.toList.map Prod.snd ++ node.children.attach.flatMap fun child => places child.val
  else
    []
termination_by sizeOf node
decreasing_by exact sizeOf_lt_of_mem_children child.property

theorem places_eq_nil {node : Node} (notPositioned : node.isPositioned = false) :
    node.places = [] := by
  rw [places]
  simp [notPositioned]

theorem places_eq {node : Node} (positioned : node.isPositioned) :
    node.places = node.token?.toList.map Prod.snd ++ node.children.flatMap places := by
  rw [places]
  simp only [positioned, if_true, List.flatMap_def]
  rw [List.attach_map_val (f := places)]

/-- A place of a child is one of the node. -/
theorem mem_places_of_child {node child : Node} {pos : Pos} (positioned : node.isPositioned)
    (isChild : child ∈ node.children) (mem : pos ∈ child.places) : pos ∈ node.places := by
  rw [places_eq positioned]
  exact List.mem_append_right _ (List.mem_flatMap.mpr ⟨child, isChild, mem⟩)

/-- A place of a node is that of its token or one of a child. -/
theorem mem_places {node : Node} {pos : Pos} (mem : pos ∈ node.places) :
    (∃ count, node.token? = some (count, pos)) ∨ ∃ child ∈ node.children, pos ∈ child.places := by
  cases positioned : node.isPositioned with
  | false => simp [places_eq_nil positioned] at mem
  | true =>
      rw [places_eq positioned, List.mem_append, List.mem_flatMap] at mem
      refine mem.imp_left ?_
      intro isToken
      obtain ⟨⟨count, _⟩, inToken, rfl⟩ := List.mem_map.mp isToken
      exact ⟨count, Option.mem_toList.mp inToken⟩

/-- A place of a node without a token is one of a child. -/
theorem mem_places_of_noToken {node : Node} (noToken : node.token? = none) {pos : Pos}
    (mem : pos ∈ node.places) : ∃ child ∈ node.children, pos ∈ child.places := by
  obtain ⟨count, token⟩ | inChild := mem_places mem
  · exact absurd (noToken.symm.trans token) (Option.some_ne_none _).symm
  · exact inChild

end Node

/-! ### Roles -/

/-- What a node is in the tree around it. -/
inductive Role where
  /-- Any part that is not a statement. -/
  | plain
  /-- A statement of a list of statements. -/
  | stmt
  /-- A statement in a header. -/
  | simple
  /-- The guard of a type switch. -/
  | guard
  /-- What follows an `else`. -/
  | elseBranch
  /-- A block of statements. -/
  | body
  /-- The clauses of a `switch`. -/
  | caseBody
  /-- The clauses of a `select`. -/
  | commBody
  | caseClause
  | commClause
  deriving DecidableEq

/-- The role of the statements of a block of a role. -/
def Role.member : Role → Role
  | .caseBody => .caseClause
  | .commBody => .commClause
  | _ => .stmt

/-- Whether a statement is a clause. -/
def Stmt.isClause : Stmt → Bool
  | .caseClause .. | .commClause .. => true
  | _ => false

/-- Whether a statement has a body if it is a loop. -/
def Stmt.hasBody : Stmt → Bool
  | .loop _ _ _ _ body => body.isSome
  | .range _ _ _ _ _ body _ => body.isSome
  | _ => true

/-- Whether a name is one word of a message. -/
def Ident.isWord (ident : Ident) : Bool :=
  ident.name.toList.all fun char => char ≠ ' ' && char ≠ ':'

/-- Whether a node can play a role. -/
def Role.admits : Role → Node → Bool
  | .plain, .stmt _ => false
  | .plain, .expr (.ident name) => name.isWord
  | .plain, .decl (.gen item) => item.grouped || 0 < item.specs.length
  | .plain, _ => true
  | .stmt, .stmt step => !step.isClause && step.hasBody
  | .simple, .stmt step => Layout.isSimple step
  | .guard, .stmt (.expr ..) => true
  | .guard, .stmt (.assign _ lhs _ _ _) => 0 < lhs.length
  | .elseBranch, .stmt step => Layout.isElseBranch step
  | .body, .stmt (.block _) => true
  | .caseBody, .stmt (.block _) => true
  | .commBody, .stmt (.block _) => true
  | .caseClause, .stmt (.caseClause ..) => true
  | .commClause, .stmt (.commClause ..) => true
  | _, _ => false

namespace Node

/-- The children of a node with their roles, given the role of the node. -/
def parts (role : Role) : Node → List (Role × Node)
  | .expr (.funcLit _ type body) => [(.plain, .expr (.funcType type)), (.body, block body)]
  | .stmt (.labeled _ label inner) => [(.plain, ident label), (.stmt, .stmt inner)]
  | .stmt (.block body) => body.stmts.map fun step => (role.member, .stmt step)
  | .stmt (.ifElse _ init cond body otherwise) =>
      init.toList.map (fun step => (.simple, .stmt step)) ++
        ((.plain, .expr cond) :: (.body, block body) ::
          otherwise.toList.map fun step => (.elseBranch, .stmt step))
  | .stmt (.caseClause _ exprs body _) =>
      (exprs.getD []).map (fun value => (.plain, .expr value)) ++
        body.map fun step => (.stmt, .stmt step)
  | .stmt (.switch _ init tag body) =>
      init.toList.map (fun step => (.simple, .stmt step)) ++
        (tag.toList.map (fun value => (.plain, .expr value)) ++ [(.caseBody, block body)])
  | .stmt (.typeSwitch _ init guard body) =>
      init.toList.map (fun step => (.simple, .stmt step)) ++
        [(.guard, .stmt guard), (.caseBody, block body)]
  | .stmt (.commClause _ comm body _) =>
      comm.toList.map (fun step => (.simple, .stmt step)) ++
        body.map fun step => (.stmt, .stmt step)
  | .stmt (.select _ body) => [(.commBody, block body)]
  | .stmt (.loop _ init cond post body) =>
      init.toList.map (fun step => (.simple, .stmt step)) ++
        (cond.toList.map (fun value => (.plain, .expr value)) ++
          (post.toList.map (fun step => (.simple, .stmt step)) ++
            body.toList.map fun body => (.body, block body)))
  | .stmt (.range _ key value _ operand body _) =>
      key.toList.map (fun key => (.plain, .expr key)) ++
        (value.toList.map (fun value => (.plain, .expr value)) ++
          ((.plain, .expr operand) :: body.toList.map fun body => (.body, block body)))
  | .decl (.func item) =>
      item.recv.toList.map (fun recv => (.plain, .fieldList recv)) ++
        ((.plain, ident item.name) :: (.plain, .expr (.funcType item.type)) ::
          item.body.toList.map fun body => (.body, block body))
  | node => node.children.map fun child => (.plain, child)

/-- The parts of a node are its children. -/
theorem map_snd_parts (role : Role) (node : Node) :
    (node.parts role).map Prod.snd = node.children := by
  cases node with
  | expr value =>
      cases value <;> simp [parts, children, exprChildren, Function.comp_def]
  | stmt step =>
      cases step <;> simp [parts, children, stmtChildren, Function.comp_def]
  | decl item =>
      cases item <;> simp [parts, children, declChildren, Function.comp_def]
  | _ => simp [parts, Function.comp_def]

end Node

namespace Node

/-- The role of a node matters to its children only as far as they are the statements of a block. -/
theorem parts_congr {role other : Role} (same : role.member = other.member) (node : Node) :
    node.parts role = node.parts other := by
  unfold parts
  split <;> simp [same]

/-- Whether the token of a node stands between its children. -/
def TokenBetween (node : Node) : Prop :=
  ∀ count pos, node.token? = some (count, pos) →
    (∀ child ∈ node.children.take count, child.span.stop ≤ pos) ∧
      ∀ child ∈ node.children.drop count, pos < child.span.start

theorem tokenBetween_of_none {node : Node} (noToken : node.token? = none) : node.TokenBetween := by
  intro count pos isToken
  rw [noToken] at isToken
  cases isToken

/-- Whether no place of a node lies in the range of another one or before it. -/
def Precedes (first second : Node) : Prop :=
  ∀ pos ∈ second.places, first.span.stop ≤ pos

end Node

namespace Node

/-- The children whose ranges begin in the range of the node whatever happens to it: those of a file
and of a declaration of items. -/
def nested (node : Node) : List Node :=
  match node with
  | .decl (.gen _) | .file _ => node.children
  | _ => []

theorem nested_eq (node : Node) : node.nested = node.children ∨ node.nested = [] := by
  unfold nested
  split
  · exact .inl rfl
  · exact .inl rfl
  · exact .inr rfl

/-- The first target of an assignment, with which its range begins. -/
def opener? : Node → Option Node
  | .stmt (.assign _ (first :: _) _ _ _) => some (.expr first)
  | _ => none

theorem opener?_eq_none {node : Node} (noToken : node.token? = none) : node.opener? = none := by
  unfold opener?
  split
  · cases noToken
  · rfl

/-- What is true of a node that was read from a text. -/
structure Stands (role : Role) (node : Node) : Prop where
  admitted : role.admits node
  positive : 0 < node.span.start
  holds : ∀ pos ∈ node.places, node.span.start ≤ pos ∧ pos < node.span.stop
  tokenBetween : node.TokenBetween
  apart : node.children.Pairwise Node.Precedes
  inside : ∀ child ∈ node.nested, node.span.start ≤ child.span.start
  opens : ∀ first, node.opener? = some first → first.span.start = node.span.start

end Node

/-- The trees that can be read from a text and mended. -/
inductive Sound : Role → Node → Prop
  /-- A node that was read. -/
  | placed {role : Role} {node : Node} (stands : node.Stands role)
      (parts : ∀ part ∈ node.parts role, Sound part.1 part.2) : Sound role node
  /-- A discard read that was added. -/
  | read (name : String) (isWord : Ident.isWord { name }) : Sound .stmt (.stmt (.discardRead name))
  /-- The blank name that was given to an import. -/
  | blank : Sound .plain (.ident { name := "_" })

namespace Node

/-! ### What nodes of one form have in common -/

namespace Resembles

variable {node other : Node}

theorem token?_eq (resembles : Resembles node other) : other.token? = node.token? := by
  cases resembles with
  | assign span tok tokPos sameLeft sameRight => simp [token?, sameLeft]
  | range span tok operand operand' tokPos sameKey sameValue sameBody =>
      cases tok <;> simp [token?, Option.length_toList, sameKey, sameValue]
  | _ => rfl

theorem admits_eq (resembles : Resembles node other) (role : Role) :
    role.admits other = role.admits node := by
  cases resembles <;> cases role <;>
    simp [Role.admits, Stmt.isClause, Stmt.hasBody, Layout.isSimple, Layout.isElseBranch, *]

theorem nested_eq (resembles : Resembles node other) :
    node.nested = node.children ∧ other.nested = other.children ∨ other.nested = [] := by
  cases resembles <;> first | exact .inl ⟨rfl, rfl⟩ | exact .inr rfl

theorem roles_eq (resembles : Resembles node other) (role : Role) :
    (other.parts role).map Prod.fst = (node.parts role).map Prod.fst := by
  cases resembles <;>
    simp [parts, children, exprChildren, stmtChildren, specChildren, declChildren,
      Function.comp_def, List.map_const', Option.length_toList, *]

end Resembles

end Node

namespace Sound

variable {role : Role} {node : Node}

/-- A sound node that has a position was read from a text. -/
theorem of_isPositioned (sound : Sound role node) (positioned : node.isPositioned) :
    node.Stands role ∧ ∀ part ∈ node.parts role, Sound part.1 part.2 := by
  cases sound with
  | placed stands parts => exact ⟨stands, parts⟩
  | read name => exact absurd positioned Bool.false_ne_true
  | blank => exact absurd positioned Bool.false_ne_true

theorem admits (sound : Sound role node) : role.admits node := by
  cases sound with
  | placed stands => exact stands.admitted
  | read name => rfl
  | blank => rfl

/-- A node that was read can play another role that admits it. -/
theorem withRole {other : Role} (sound : Sound role node) (positioned : node.isPositioned)
    (admitted : other.admits node) (same : role.member = other.member) : Sound other node := by
  obtain ⟨stands, parts⟩ := sound.of_isPositioned positioned
  rw [Node.parts_congr same] at parts
  exact .placed { stands with admitted } parts

/-- The places of a sound node lie in its range. -/
theorem holds (sound : Sound role node) {pos : Pos} (mem : pos ∈ node.places) :
    node.isPositioned ∧ node.span.start ≤ pos ∧ pos < node.span.stop := by
  cases positioned : node.isPositioned with
  | false => simp [Node.places_eq_nil positioned] at mem
  | true =>
      obtain ⟨stands, -⟩ := sound.of_isPositioned positioned
      exact ⟨rfl, stands.holds pos mem⟩

end Sound

/-! ### Other children for a sound node -/

namespace Node

/-- A node that takes the place of another one and needs no more room. -/
structure Shrinks (new old : Node) : Prop where
  sort_eq : new.sort = old.sort
  isPositioned_eq : new.isPositioned = old.isPositioned
  span_within : new.span.Within old.span
  places_subset : new.places ⊆ old.places
  /-- Only a block can begin later than before. -/
  start_eq : old.sort ≠ .block → new.span.start = old.span.start

theorem Shrinks.refl (node : Node) : Shrinks node node :=
  ⟨rfl, rfl, .refl _, fun _ mem => mem, fun _ => rfl⟩

theorem Shrinks.trans {new middle old : Node} (first : Shrinks new middle)
    (second : Shrinks middle old) : Shrinks new old where
  sort_eq := first.sort_eq.trans second.sort_eq
  isPositioned_eq := first.isPositioned_eq.trans second.isPositioned_eq
  span_within := ⟨Int.le_trans second.span_within.1 first.span_within.1,
    Int.le_trans first.span_within.2 second.span_within.2⟩
  places_subset := List.Subset.trans first.places_subset second.places_subset
  start_eq notBlock :=
    (first.start_eq (second.sort_eq ▸ notBlock)).trans (second.start_eq notBlock)

/-- Nodes that take the places of the parts of a node. -/
def Refills (nodes : List Node) (parts : List (Role × Node)) : Prop :=
  List.Forall₂ (fun new part => Shrinks new part.2 ∧ Sound part.1 new) nodes parts

theorem Refills.shrinks {nodes : List Node} {parts : List (Role × Node)}
    (refills : Refills nodes parts) : List.Forall₂ Shrinks nodes (parts.map Prod.snd) := by
  rw [List.forall₂_map_right_iff]
  exact refills.imp fun _ _ both => both.1

theorem Refills.sound {new old : List (Role × Node)}
    (rolesEq : new.map Prod.fst = old.map Prod.fst) (refills : Refills (new.map Prod.snd) old) :
    ∀ part ∈ new, Sound part.1 part.2 := by
  induction old generalizing new with
  | nil =>
      obtain rfl : new = [] := by simpa using rolesEq
      simp
  | cons oldPart old ih =>
      cases new with
      | nil => simp at rolesEq
      | cons newPart new =>
          simp only [List.map_cons, List.cons.injEq] at rolesEq
          obtain ⟨roleEq, rolesEq⟩ := rolesEq
          cases refills with
          | cons first rest =>
              refine List.forall_mem_cons.mpr ⟨?_, ih rolesEq rest⟩
              rw [roleEq]
              exact first.2

section Shrinking

variable {new old : List Node}

theorem map_sort_of_shrinks (shrinks : List.Forall₂ Shrinks new old) :
    new.map sort = old.map sort := by
  induction shrinks with
  | nil => rfl
  | cons first _ ih => simp [first.sort_eq, ih]

theorem flatMap_places_subset (shrinks : List.Forall₂ Shrinks new old) :
    new.flatMap places ⊆ old.flatMap places := by
  induction shrinks with
  | nil => exact fun _ mem => mem
  | cons first _ ih =>
      simp only [List.flatMap_cons]
      exact List.append_subset.mpr
        ⟨List.subset_append_of_subset_left _ first.places_subset,
          List.subset_append_of_subset_right _ ih⟩

/-- What holds of all old nodes and only gets easier holds of all new nodes. -/
theorem forall_of_shrinks {holds : Node → Prop}
    (keeps : ∀ ⦃new old⦄, Shrinks new old → holds old → holds new)
    (shrinks : List.Forall₂ Shrinks new old) (all : ∀ node ∈ old, holds node) :
    ∀ node ∈ new, holds node := by
  induction shrinks with
  | nil => exact all
  | cons first _ ih =>
      obtain ⟨firstHolds, othersHold⟩ := List.forall_mem_cons.mp all
      exact List.forall_mem_cons.mpr ⟨keeps first firstHolds, ih othersHold⟩

theorem pairwise_precedes_of_shrinks (shrinks : List.Forall₂ Shrinks new old)
    (apart : old.Pairwise Precedes) : new.Pairwise Precedes := by
  induction shrinks with
  | nil => exact .nil
  | cons first others ih =>
      obtain ⟨firstPrecedes, othersApart⟩ := List.pairwise_cons.mp apart
      refine List.pairwise_cons.mpr ⟨?_, ih othersApart⟩
      refine forall_of_shrinks ?_ others ?_
      · intro newNode oldNode shrinks precedes pos mem
        exact precedes pos (shrinks.places_subset mem)
      · intro node mem pos place
        exact Int.le_trans first.span_within.2 (firstPrecedes node mem pos place)

end Shrinking

/-- The first target of an assignment that is refilled begins where the old one did. -/
theorem Resembles.opens {node other : Node} (resembles : Resembles node other)
    (shrinks : List.Forall₂ Shrinks other.children node.children)
    (opens : ∀ first, node.opener? = some first → first.span.start = node.span.start) :
    ∀ first, other.opener? = some first → first.span.start = other.span.start := by
  intro first isFirst
  rw [resembles.span_eq]
  cases resembles with
  | @assign span lhs lhs' tok rhs rhs' tokPos sameLeft sameRight =>
      cases lhs' with
      | nil => cases isFirst
      | cons target' targets' =>
          cases lhs with
          | nil => cases sameLeft
          | cons target targets =>
              obtain rfl := Option.some.inj isFirst
              cases shrinks with
              | cons shrinks others =>
                  have notBlock : (Node.expr target).sort ≠ .block := by
                    cases target <;> simp [sort]
                  exact (shrinks.start_eq notBlock).trans (opens _ rfl)
  | _ => cases isFirst

/-- Refilling a sound node that was read with parts that play the same roles and need no more
room gives a sound node that needs no more room. -/
theorem Refills.withChildren {node : Node} {role : Role} {nodes : List Node}
    (sound : Sound role node) (positioned : node.isPositioned)
    (refills : Refills nodes (node.parts role)) :
    Sound role (node.withChildren nodes) ∧ Shrinks (node.withChildren nodes) node := by
  have shrinks := refills.shrinks
  rw [map_snd_parts] at shrinks
  obtain ⟨resembles, childrenEq⟩ := withChildren_resembles (map_sort_of_shrinks shrinks)
  obtain ⟨stands, -⟩ := sound.of_isPositioned positioned
  rw [← childrenEq] at refills shrinks
  generalize node.withChildren nodes = other at resembles refills shrinks
  have spanEq := resembles.span_eq
  have tokenEq := resembles.token?_eq
  have otherPositioned : other.isPositioned := by simpa [isPositioned, spanEq] using positioned
  have subset : other.places ⊆ node.places := by
    rw [places_eq positioned, places_eq otherPositioned, tokenEq]
    exact List.append_subset.mpr ⟨List.subset_append_left _ _,
      List.subset_append_of_subset_right _ (flatMap_places_subset shrinks)⟩
  refine ⟨.placed ⟨?_, ?_, ?_, ?_, ?_, ?_, resembles.opens shrinks stands.opens⟩ ?_,
    resembles.sort_eq, ?_, ?_, subset, fun _ => by rw [spanEq]⟩
  · rw [resembles.admits_eq]
    exact stands.admitted
  · rw [spanEq]
    exact stands.positive
  · intro pos mem
    rw [spanEq]
    exact stands.holds pos (subset mem)
  · intro count pos token
    rw [tokenEq] at token
    obtain ⟨before, after⟩ := stands.tokenBetween count pos token
    refine ⟨forall_of_shrinks ?_ (List.forall₂_take count shrinks) before,
      forall_of_shrinks ?_ (List.forall₂_drop count shrinks) after⟩
    · intro new old shrinks stopLe
      exact Int.le_trans shrinks.span_within.2 stopLe
    · intro new old shrinks ltStart
      exact Int.lt_of_lt_of_le ltStart shrinks.span_within.1
  · exact pairwise_precedes_of_shrinks shrinks stands.apart
  · intro child isNested
    rw [spanEq]
    obtain ⟨nestedEq, otherEq⟩ | noneNested := resembles.nested_eq
    · have inside := stands.inside
      rw [nestedEq] at inside
      rw [otherEq] at isNested
      have keeps : ∀ ⦃new old : Node⦄, Shrinks new old → node.span.start ≤ old.span.start →
          node.span.start ≤ new.span.start :=
        fun _ _ shrinks startLe => Int.le_trans startLe shrinks.span_within.1
      exact forall_of_shrinks keeps shrinks inside child isNested
    · rw [noneNested] at isNested
      exact absurd isNested List.not_mem_nil
  · rw [← map_snd_parts role other] at refills
    exact refills.sound (resembles.roles_eq role)
  · rw [positioned, otherPositioned]
  · rw [spanEq]
    exact .refl _

/-- A node with other children of the same roles that need no more room. -/
theorem Resembles.sound {role : Role} {node other : Node} (resembles : Resembles node other)
    (sound : Sound role node) (positioned : node.isPositioned)
    (refills : Refills other.children (node.parts role)) :
    Sound role other ∧ Shrinks other node := by
  rw [← resembles.withChildren_children]
  exact refills.withChildren sound positioned

end Node

/-! ### Declarations and files -/

namespace Sound

theorem isPositioned_of_decl {item : Decl} (sound : Sound .plain (.decl item)) :
    (Node.decl item).isPositioned := by
  cases sound with
  | placed stands => exact Node.isPositioned_of_pos stands.positive

theorem isPositioned_of_file {file : File} (sound : Sound .plain (.file file)) :
    (Node.file file).isPositioned := by
  cases sound with
  | placed stands => exact Node.isPositioned_of_pos stands.positive

theorem parts_gen (item : GenDecl) :
    (Node.decl (.gen item)).parts .plain = item.specs.map fun spec => (.plain, .spec spec) := by
  simp [Node.parts, Node.children, Node.declChildren, Function.comp_def]

theorem parts_file (file : File) :
    (Node.file file).parts .plain =
      (.plain, .ident file.package) :: file.decls.map fun item => (.plain, .decl item) := by
  simp [Node.parts, Node.children, Function.comp_def]

/-- The items of a sound declaration are sound. -/
theorem spec {item : GenDecl} {spec : Spec} (sound : Sound .plain (.decl (.gen item)))
    (isSpec : spec ∈ item.specs) : Sound .plain (.spec spec) := by
  have parts := (sound.of_isPositioned sound.isPositioned_of_decl).2
  rw [parts_gen] at parts
  exact parts _ (List.mem_map_of_mem isSpec)

/-- The declarations of a sound file are sound. -/
theorem decl {file : File} {item : Decl} (sound : Sound .plain (.file file))
    (isDecl : item ∈ file.decls) : Sound .plain (.decl item) := by
  have parts := (sound.of_isPositioned sound.isPositioned_of_file).2
  rw [parts_file] at parts
  exact parts _ (List.mem_cons_of_mem _ (List.mem_map_of_mem isDecl))

/-- A sound declaration with other items that need no more room. -/
theorem withSpecs {item : GenDecl} {specs : List Spec} (sound : Sound .plain (.decl (.gen item)))
    (changed : List.Forall₂ (fun new old => Node.Shrinks (.spec new) (.spec old) ∧
      Sound .plain (.spec new)) specs item.specs) :
    Sound .plain (.decl (.gen { item with specs })) ∧
      Node.Shrinks (.decl (.gen { item with specs })) (.decl (.gen item)) := by
  obtain ⟨span, tok, old, grouped⟩ := item
  refine Node.Resembles.sound (.genDecl span tok grouped changed.length_eq) sound
    sound.isPositioned_of_decl ?_
  rw [parts_gen]
  exact List.forall₂_map_right_iff.mpr (List.forall₂_map_left_iff.mpr changed)

/-- A sound file with other declarations that need no more room. -/
theorem withDecls {file : File} {decls : List Decl} (sound : Sound .plain (.file file))
    (changed : List.Forall₂ (fun new old => Node.Shrinks (.decl new) (.decl old) ∧
      Sound .plain (.decl new)) decls file.decls) :
    Sound .plain (.file { file with decls }) ∧
      Node.Shrinks (.file { file with decls }) (.file file) := by
  refine Node.Resembles.sound
    (.file file.span file.name file.package file.package file.comments changed.length_eq) sound
    sound.isPositioned_of_file ?_
  have parts := (sound.of_isPositioned sound.isPositioned_of_file).2
  rw [parts_file] at parts ⊢
  refine .cons ⟨.refl _, parts _ List.mem_cons_self⟩ ?_
  exact List.forall₂_map_right_iff.mpr (List.forall₂_map_left_iff.mpr changed)

end Sound

end GoMend
