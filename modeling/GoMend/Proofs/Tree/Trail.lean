import GoMend.Proofs.Tree.Sound
import GoMend.Tree.Locate
import Mathlib.Data.List.Infix

/-!
# Trails

A trail leads from a node down to the token that stands at a position.  In a sound tree the nodes
around the position of a token are those on its trail, and a trail stays when a node on its way is
changed into one with the same trails.
-/

namespace GoMend

/-- The children of a sound node that was read are sound. -/
theorem Sound.children {role : Role} {node child : Node} (sound : Sound role node)
    (positioned : node.isPositioned) (mem : child ∈ node.children) :
    ∃ part, Sound part child := by
  rw [← Node.map_snd_parts role] at mem
  obtain ⟨part, isPart, rfl⟩ := List.mem_map.mp mem
  exact ⟨part.1, (sound.of_isPositioned positioned).2 part isPart⟩

namespace Node

/-- The way down to the node whose token stands at a position.  It goes through no import. -/
inductive Trail (pos : Pos) : Node → Address → Prop
  | stop {node : Node} {count : Nat} (positioned : node.isPositioned)
      (token : node.token? = some (count, pos)) : Trail pos node []
  | step {node child : Node} {index : Nat} {rest : Address} (positioned : node.isPositioned)
      (notImport : ∀ item, node ≠ .spec (.importSpec item))
      (isChild : node.children[index]? = some child) (trail : Trail pos child rest) :
      Trail pos node (index :: rest)

section Trail

variable {pos : Pos} {node : Node} {address : Address} {role : Role}

theorem Trail.isPositioned (trail : Trail pos node address) : node.isPositioned := by
  cases trail with
  | stop positioned => exact positioned
  | step positioned => exact positioned

theorem Trail.mem_places (trail : Trail pos node address) : pos ∈ node.places := by
  induction trail with
  | stop positioned token =>
      rw [places_eq positioned, token]
      exact List.mem_append_left _ (by simp)
  | step positioned notImport isChild trail ih =>
      exact mem_places_of_child positioned (List.mem_of_getElem? isChild) ih

/-- The part of a trail that begins at a node on the way. -/
theorem Trail.drop {rest : Address} (trail : Trail pos node (address ++ rest)) :
    ∃ inner, node.get? address = some inner ∧ Trail pos inner rest := by
  induction address generalizing node with
  | nil => exact ⟨node, rfl, trail⟩
  | cons index address ih =>
      cases trail with
      | step positioned notImport isChild trail =>
          obtain ⟨inner, found, trail⟩ := ih trail
          exact ⟨inner, by simp [get?, isChild, found], trail⟩

/-! ### The nodes around a position -/

/-- No child of a sound node holds the position of its own token. -/
theorem find?_of_token {count : Nat} (sound : Sound role node) (positioned : node.isPositioned)
    (token : node.token? = some (count, pos)) :
    node.children.find? (·.span.contains pos) = none := by
  obtain ⟨before, after⟩ := (sound.of_isPositioned positioned).1.tokenBetween count pos token
  rw [List.find?_eq_none]
  intro child mem contains
  obtain ⟨-, startLe, ltStop⟩ := span_contains_iff.mp contains
  rw [← List.take_append_drop count node.children, List.mem_append] at mem
  obtain isBefore | isAfter := mem
  · exact absurd (before child isBefore) (Int.not_le.mpr ltStop)
  · exact absurd (after child isAfter) (Int.not_lt.mpr startLe)

/-- Among the children of a sound node the first one that holds a place is the one whose place it
is. -/
theorem find?_of_child {index : Nat} {child : Node} (sound : Sound role node)
    (positioned : node.isPositioned) (isChild : node.children[index]? = some child)
    (mem : pos ∈ child.places) :
    node.children.find? (·.span.contains pos) = some child ∧
      node.children.findIdx (·.span.contains pos) = index := by
  obtain ⟨part, childSound⟩ := sound.children positioned (List.mem_of_getElem? isChild)
  have contains : child.span.contains pos := span_contains_iff.mpr (childSound.holds mem)
  obtain ⟨inside, rfl⟩ := List.getElem?_eq_some_iff.mp isChild
  have apart := List.pairwise_iff_getElem.mp (sound.of_isPositioned positioned).1.apart
  have earlier : ∀ other (isBefore : other < index),
      node.children[other].span.contains pos = false := by
    intro other isBefore
    have stopLe := apart other index (Nat.lt_trans isBefore inside) inside isBefore pos mem
    have notInside := Int.not_lt.mpr stopLe
    simp only [Span.contains, notInside, decide_false, Bool.and_false]
  have isIndex : node.children.findIdx (·.span.contains pos) = index :=
    (List.findIdx_eq inside).mpr ⟨contains, earlier⟩
  refine ⟨?_, isIndex⟩
  rw [List.find?_eq_some_iff_getElem]
  exact ⟨contains, index, inside, rfl, fun other isBefore => by simp [earlier other isBefore]⟩

/-- The nodes around the position of a token are those on its trail. -/
theorem Trail.map_descend (sound : Sound role node) (trail : Trail pos node address)
    (start : Address) :
    (node.descend pos start).map (·.address) = address.inits.map (start ++ ·) := by
  induction trail generalizing role start with
  | stop positioned token =>
      rw [descend]
      split
      · simp
      · next found => simp [find?_of_token sound positioned token] at found
  | step positioned notImport isChild trail ih =>
      obtain ⟨part, childSound⟩ := sound.children positioned (List.mem_of_getElem? isChild)
      obtain ⟨isFound, isIndex⟩ := find?_of_child sound positioned isChild trail.mem_places
      rw [descend]
      split
      · next found => simp [isFound] at found
      · next found =>
          obtain rfl := Option.some.inj (isFound.symm.trans found)
          rw [isIndex, List.map_cons, ih childSound]
          simp [Function.comp_def]

/-- There is one trail to a token. -/
theorem Trail.unique {other : Address} (sound : Sound role node) (trail : Trail pos node address)
    (otherTrail : Trail pos node other) : address = other := by
  have same := (trail.map_descend sound []).symm.trans (otherTrail.map_descend sound [])
  simp only [List.nil_append, List.map_id'] at same
  have isPrefix : address <+: other := by rw [← List.mem_inits, ← same]; simp
  have otherPrefix : other <+: address := by rw [← List.mem_inits, same]; simp
  exact isPrefix.eq_of_length (Nat.le_antisymm isPrefix.length_le otherPrefix.length_le)

/-- The nodes around the position of a token of a file, from the innermost one on. -/
theorem Trail.map_enclosing {file : File} (sound : Sound role (.file file))
    (trail : Trail pos (.file file) address) :
    (file.enclosing pos).map (·.address) = address.inits.reverse := by
  rw [File.enclosing, List.map_reverse, trail.map_descend sound]
  simp

/-! ### Changes -/

/-- A node that takes the place of another one and keeps its trails. -/
def Keeps (new old : Node) : Prop :=
  ∀ pos address, Trail pos old address → Trail pos new address

theorem Keeps.refl (node : Node) : Keeps node node :=
  fun _ _ trail => trail

theorem Resembles.ne_importSpec {other : Node} (resembles : Resembles node other)
    (notImport : ∀ item, node ≠ .spec (.importSpec item)) :
    ∀ item, other ≠ .spec (.importSpec item) := by
  cases resembles <;> first | exact absurd rfl (notImport _) | exact fun item => nofun

/-- A node keeps its trails when each of its children does. -/
theorem Keeps.withChildren {nodes : List Node} (same : nodes.map sort = node.children.map sort)
    (keeps : ∀ (index : Nat) new old, nodes[index]? = some new → node.children[index]? = some old →
      Keeps new old) : Keeps (node.withChildren nodes) node := by
  obtain ⟨resembles, childrenEq⟩ := withChildren_resembles same
  have lengthEq : nodes.length = node.children.length := by simpa using congrArg List.length same
  have positionedEq : (node.withChildren nodes).isPositioned = node.isPositioned := by
    simp [isPositioned, resembles.span_eq]
  intro pos address trail
  cases trail with
  | stop positioned token =>
      exact .stop (positionedEq.trans positioned) (resembles.token?_eq.trans token)
  | step positioned notImport isChild trail =>
      rename_i old index rest
      obtain ⟨inside, -⟩ := List.getElem?_eq_some_iff.mp isChild
      have isNew := List.getElem?_eq_getElem (lengthEq ▸ inside : index < nodes.length)
      refine .step (positionedEq.trans positioned) (resembles.ne_importSpec notImport) ?_
        (keeps index _ _ isNew isChild pos _ trail)
      rw [childrenEq, isNew]

theorem map_sort_modify {children : List Node} {index : Nat} {change : Node → Node}
    (same : ∀ child, children[index]? = some child → (change child).sort = child.sort) :
    (children.modify index change).map sort = children.map sort := by
  refine List.ext_getElem? fun other => ?_
  simp only [List.getElem?_map, List.getElem?_modify]
  by_cases isIndex : index = other
  · subst isIndex
    cases found : children[index]? with
    | none => rfl
    | some child => simp [same child found]
  · simp [isIndex]

/-- What a change of the node at an address does to the whole. -/
theorem modify_keeps {change : Node → Node} {inner : Node} (found : node.get? address = some inner)
    (sortEq : (change inner).sort = inner.sort) (keeps : Keeps (change inner) inner) :
    (node.modify change address).sort = node.sort ∧ Keeps (node.modify change address) node := by
  induction address generalizing node with
  | nil =>
      obtain rfl := Option.some.inj found
      exact ⟨sortEq, keeps⟩
  | cons index address ih =>
      simp only [get?, Option.bind_eq_some_iff] at found
      obtain ⟨child, isChild, found⟩ := found
      obtain ⟨childSort, childKeeps⟩ := ih found
      have same : (node.children.modify index (Node.modify change address)).map sort =
          node.children.map sort := by
        refine map_sort_modify fun part isPart => ?_
        obtain rfl := Option.some.inj (isChild.symm.trans isPart)
        exact childSort
      refine ⟨(withChildren_resembles same).1.sort_eq, Keeps.withChildren same ?_⟩
      intro other new old isNew isOld
      rw [List.getElem?_modify] at isNew
      split at isNew
      · next isIndex =>
          subst isIndex
          obtain rfl := Option.some.inj (isChild.symm.trans isOld)
          rw [isOld] at isNew
          exact Option.some.inj isNew ▸ childKeeps
      · rw [isOld] at isNew
        exact Option.some.inj isNew ▸ Keeps.refl old

theorem refills_modify {index : Nat} {change : Node → Node} {parts : List (Role × Node)}
    (sound : ∀ part ∈ parts, Sound part.1 part.2)
    (changed : ∀ part, parts[index]? = some part →
      Shrinks (change part.2) part.2 ∧ Sound part.1 (change part.2)) :
    Refills ((parts.map Prod.snd).modify index change) parts := by
  have unchanged (parts : List (Role × Node)) (sound : ∀ part ∈ parts, Sound part.1 part.2) :
      Refills (parts.map Prod.snd) parts := by
    rw [Refills, List.forall₂_map_left_iff]
    exact List.forall₂_same.mpr fun part mem => ⟨Shrinks.refl _, sound part mem⟩
  induction parts generalizing index with
  | nil =>
      simp only [List.map_nil, List.modify_nil]
      exact .nil
  | cons part parts ih =>
      obtain ⟨partSound, soundParts⟩ := List.forall_mem_cons.mp sound
      cases index with
      | zero => exact .cons (changed part rfl) (unchanged parts soundParts)
      | succ index => exact .cons ⟨Shrinks.refl _, partSound⟩ (ih soundParts changed)

/-- A discard read consists of two names that were not read. -/
theorem exists_name_of_discardRead {name : String} {child : Node}
    (mem : child ∈ (Node.stmt (.discardRead name)).children) :
    ∃ word, child = ident { name := word } := by
  simp only [Stmt.discardRead, children, stmtChildren, List.map_cons, List.map_nil,
    List.singleton_append, List.mem_cons, List.not_mem_nil, or_false] at mem
  obtain rfl | rfl := mem <;> exact ⟨_, rfl⟩

/-- Nothing below a sound node that was not read was read. -/
theorem not_isPositioned_of_get? {inner : Node} (sound : Sound role node)
    (notPositioned : node.isPositioned = false) (found : node.get? address = some inner) :
    inner.isPositioned = false := by
  cases address with
  | nil => exact Option.some.inj found ▸ notPositioned
  | cons index address =>
      cases sound with
      | placed stands =>
          exact absurd (isPositioned_of_pos stands.positive) (by simp [notPositioned])
      | read name isWord =>
          simp only [get?, Option.bind_eq_some_iff] at found
          obtain ⟨child, atIndex, found⟩ := found
          obtain ⟨word, rfl⟩ := exists_name_of_discardRead (List.mem_of_getElem? atIndex)
          cases address with
          | nil => exact Option.some.inj found ▸ rfl
          | cons => simp [get?, ident, children, exprChildren] at found
      | blank => simp [get?, ident, children, exprChildren] at found

/-- Every node of a sound tree that was read is sound in some role. -/
theorem exists_sound_of_get? {inner : Node} (sound : Sound role node)
    (found : node.get? address = some inner) (positioned : inner.isPositioned) :
    ∃ part, Sound part inner := by
  induction address generalizing node role with
  | nil => exact ⟨role, Option.some.inj found ▸ sound⟩
  | cons index address ih =>
      have nodePositioned : node.isPositioned := by
        by_contra notPositioned
        have := not_isPositioned_of_get? sound (by simpa using notPositioned) found
        simp [this] at positioned
      simp only [get?, Option.bind_eq_some_iff] at found
      obtain ⟨child, isChild, found⟩ := found
      obtain ⟨part, childSound⟩ := sound.children nodePositioned (List.mem_of_getElem? isChild)
      exact ih childSound found

/-- There is no statement in an expression without parts. -/
theorem get?_ne_stmt {value : Expr} (noChildren : exprChildren value = []) (step : Stmt) :
    (Node.expr value).get? address ≠ some (.stmt step) := by
  cases address with
  | nil => simp [get?]
  | cons index address => simp [get?, children, noChildren]

/-- The way down to a statement of a sound tree whose token was read. -/
theorem Trail.of_stmt {step : Stmt} {count : Nat} (sound : Sound role node)
    (found : node.get? address = some (.stmt step))
    (token : (Node.stmt step).token? = some (count, pos)) (isRead : pos ≠ noPos) :
    Trail pos node address := by
  induction address generalizing node role with
  | nil =>
      obtain rfl := Option.some.inj found
      refine .stop ?_ token
      generalize isNode : Node.stmt step = node at sound
      cases sound with
      | placed stands => exact isPositioned_of_pos stands.positive
      | read name =>
          rw [isNode] at token
          exact absurd (Prod.mk.inj (Option.some.inj token)).2.symm isRead
      | blank => cases isNode
  | cons index address ih =>
      simp only [get?, Option.bind_eq_some_iff] at found
      obtain ⟨child, isChild, found⟩ := found
      have isPart := List.mem_of_getElem? isChild
      cases sound with
      | placed stands parts =>
          have positioned := isPositioned_of_pos stands.positive
          obtain ⟨part, childSound⟩ := (Sound.placed stands parts).children positioned isPart
          refine .step positioned ?_ isChild (ih childSound found)
          rintro item rfl
          simp only [children, specChildren, List.mem_append, List.mem_map, List.mem_singleton]
            at isPart
          obtain ⟨name, -, rfl⟩ | rfl := isPart <;> exact get?_ne_stmt rfl step found
      | read name =>
          obtain ⟨word, rfl⟩ := exists_name_of_discardRead isPart
          exact absurd found (get?_ne_stmt rfl step)
      | blank => cases isChild

/-- A change of a node that was read, which leaves it sound and needs no more room, leaves the whole
sound. -/
theorem modify_sound {change : Node → Node} {inner : Node} (sound : Sound role node)
    (found : node.get? address = some inner) (positioned : inner.isPositioned)
    (keeps : ∀ part, Sound part inner → Sound part (change inner))
    (shrinks : Shrinks (change inner) inner) :
    Sound role (node.modify change address) ∧ Shrinks (node.modify change address) node := by
  induction address generalizing node role with
  | nil =>
      obtain rfl := Option.some.inj found
      exact ⟨keeps role sound, shrinks⟩
  | cons index address ih =>
      have nodePositioned : node.isPositioned := by
        by_contra notPositioned
        have := not_isPositioned_of_get? sound (by simpa using notPositioned) found
        simp [this] at positioned
      simp only [get?, Option.bind_eq_some_iff] at found
      obtain ⟨child, isChild, found⟩ := found
      have refills : Refills (node.children.modify index (Node.modify change address))
          (node.parts role) := by
        rw [← map_snd_parts role]
        refine refills_modify (sound.of_isPositioned nodePositioned).2 fun part isPart => ?_
        have same : part.2 = child := by
          rw [← map_snd_parts role, List.getElem?_map, isPart] at isChild
          exact Option.some.inj isChild
        have partSound := (sound.of_isPositioned nodePositioned).2 part (List.mem_of_getElem? isPart)
        rw [same] at partSound ⊢
        exact (ih partSound found).symm
      exact refills.withChildren sound nodePositioned

end Trail

end Node

end GoMend
