import GoMend.Fix.Edit
import GoMend.Proofs.Tree.Trail

/-!
# Changes below a node

Some relations between two trees need to be known only where the trees differ: they hold of two
nodes of one form as soon as they hold of what stands in the same places.  Such a relation climbs
from the node that was changed up to the root, and from a list with one more statement up to the
statement that was asked to hold it.
-/

namespace GoMend

namespace Node

variable {node other : Node}

/-! ### Nodes of one form -/

theorem Resembles.refl (node : Node) : Resembles node node := by
  cases node with
  | expr value =>
      cases value with
      | funcType type =>
          obtain ⟨span, params, results⟩ := type
          exact .funcType span params params rfl
      | _ => constructor <;> rfl
  | field item =>
      obtain ⟨span, names, type, tag⟩ := item
      exact .field span type type rfl rfl
  | fieldList list =>
      obtain ⟨span, fields⟩ := list
      exact .fieldList span rfl
  | stmt step =>
      cases step with
      | block body =>
          obtain ⟨span, stmts⟩ := body
          exact .block span rfl
      | caseClause span exprs body colon => cases exprs <;> constructor <;> rfl
      | _ => constructor <;> rfl
  | spec item => cases item <;> constructor <;> rfl
  | decl item =>
      cases item with
      | gen item =>
          obtain ⟨span, tok, specs, grouped⟩ := item
          exact .genDecl span tok grouped rfl
      | func item => constructor <;> rfl
  | file source => constructor; rfl
  | comment text => exact .comment text

/-- Nodes that resemble the same node resemble each other. -/
theorem Resembles.of_common {first second : Node} (resembles : Resembles node first)
    (resembles' : Resembles node second) : Resembles first second := by
  cases resembles <;> cases resembles' <;> constructor <;> simp [*]

/-- Nodes of one form are the same when they get the same children. -/
theorem Resembles.withChildren_eq (resembles : Resembles node other) {nodes : List Node}
    (same : nodes.map sort = node.children.map sort) :
    other.withChildren nodes = node.withChildren nodes := by
  obtain ⟨filled, resembles', rfl⟩ := exists_resembles node same
  rw [resembles'.withChildren_children, (resembles.of_common resembles').withChildren_children]

/-! ### Changes of all nodes -/

section ChangeAll

variable {change : Node → Node}

theorem changeAll_eq (change : Node → Node) (node : Node) :
    node.changeAll change = change (node.withChildren (node.children.map (changeAll change))) := by
  rw [changeAll]
  simp only [List.map_attach_eq_pmap, List.pmap_eq_map]

theorem changeAll_ident (change : Node → Node) (name : Ident) :
    (ident name).changeAll change = change (ident name) := by
  rw [changeAll_eq]
  rfl

theorem changeAll_lit (change : Node → Node) (literal : BasicLit) :
    (lit literal).changeAll change = change (lit literal) := by
  rw [changeAll_eq]
  rfl

/-- Nothing changes below a discard read, when no name changes. -/
theorem changeAll_discardRead (keepsName : ∀ name, change (ident name) = ident name)
    (name : String) :
    (Node.stmt (.discardRead name)).changeAll change = change (.stmt (.discardRead name)) := by
  have childrenEq : (Node.stmt (.discardRead name)).children =
      [ident { name := "_" }, ident { name }] := rfl
  rw [changeAll_eq, childrenEq, List.map_cons, List.map_cons, changeAll_ident, changeAll_ident,
    keepsName, keepsName]
  rfl

/-- A change that keeps the sort of every node can be made everywhere. -/
theorem sort_changeAll (keepsSort : ∀ node, (change node).sort = node.sort) (node : Node) :
    (node.changeAll change).sort = node.sort := by
  induction node using induction_children with
  | step node ih =>
      have same : (node.children.map (changeAll change)).map sort = node.children.map sort := by
        rw [List.map_map]
        exact List.map_congr_left ih
      rw [changeAll_eq, keepsSort]
      exact (withChildren_resembles same).1.sort_eq

theorem map_sort_changeAll (keepsSort : ∀ node, (change node).sort = node.sort)
    (nodes : List Node) : (nodes.map (changeAll change)).map sort = nodes.map sort := by
  rw [List.map_map]
  exact List.map_congr_left fun node _ => sort_changeAll keepsSort node

/-- The form of a node and the changed children determine the changed node. -/
theorem changeAll_congr (keepsSort : ∀ node, (change node).sort = node.sort)
    (resembles : Resembles node other)
    (same : other.children.map (changeAll change) = node.children.map (changeAll change)) :
    other.changeAll change = node.changeAll change := by
  rw [changeAll_eq, changeAll_eq, same]
  rw [resembles.withChildren_eq (map_sort_changeAll keepsSort _)]

end ChangeAll

/-- The part of a place with all of its nodes changed. -/
def Slot.changeAll {α : Type} (slot : Slot α) (change : Node → Node) (part : α) : α :=
  (slot.view ((slot.wrap part).changeAll change)).getD part

theorem Slot.changeAll_eq {α : Type} (slot : Slot α) {change : Node → Node} {part new : α}
    (same : (slot.wrap part).changeAll change = slot.wrap new) : slot.changeAll change part = new := by
  rw [Slot.changeAll, same, slot.view_wrap]
  rfl

section ChangedParts

variable {change : Node → Node} (keepsSort : ∀ node, (change node).sort = node.sort)

include keepsSort

theorem Slot.wrap_changeAll {α : Type} (slot : Slot α) (part : α) :
    (slot.wrap part).changeAll change = slot.wrap (slot.changeAll change part) := by
  obtain ⟨other, isOther⟩ := slot.eq_wrap_of_sort (sort_changeAll keepsSort (slot.wrap part))
  rw [Slot.changeAll, isOther, slot.view_wrap]
  rfl

theorem Slot.map_changeAll {α : Type} (slot : Slot α) (parts : List α) :
    (parts.map slot.wrap).map (Node.changeAll change) =
      (parts.map (slot.changeAll change)).map slot.wrap := by
  rw [List.map_map, List.map_map]
  exact List.map_congr_left fun part _ => slot.wrap_changeAll keepsSort part

theorem changeAll_block (span : Span) (stmts : List Stmt) :
    (Node.stmt (.block ⟨span, stmts⟩)).changeAll change =
      change (.stmt (.block ⟨span, stmts.map (Slot.stmt.changeAll change)⟩)) := by
  have childrenEq : (Node.stmt (.block ⟨span, stmts⟩)).children = stmts.map Slot.stmt.wrap := rfl
  rw [changeAll_eq, childrenEq, Slot.stmt.map_changeAll keepsSort]
  exact congrArg change (Resembles.block span (List.length_map _)).withChildren_children

theorem changeAll_caseClause (span : Span) (exprs : Option (List Expr)) (stmts : List Stmt)
    (colon : Pos) :
    (Node.stmt (.caseClause span exprs stmts colon)).changeAll change =
      change (.stmt (.caseClause span (exprs.map fun exprs =>
        exprs.map (Slot.expr.changeAll change)) (stmts.map (Slot.stmt.changeAll change)) colon)) := by
  have sameBody : (stmts.map (Slot.stmt.changeAll change)).length = stmts.length :=
    List.length_map _
  cases exprs with
  | none =>
      have childrenEq : (Node.stmt (.caseClause span none stmts colon)).children =
          stmts.map Slot.stmt.wrap := rfl
      rw [changeAll_eq, childrenEq, Slot.stmt.map_changeAll keepsSort]
      exact congrArg change (Resembles.defaultClause span colon sameBody).withChildren_children
  | some exprs =>
      have childrenEq : (Node.stmt (.caseClause span (some exprs) stmts colon)).children =
          exprs.map Slot.expr.wrap ++ stmts.map Slot.stmt.wrap := rfl
      rw [changeAll_eq, childrenEq, List.map_append, Slot.expr.map_changeAll keepsSort,
        Slot.stmt.map_changeAll keepsSort]
      exact congrArg change
        (Resembles.caseClause span colon (List.length_map _) sameBody).withChildren_children

theorem changeAll_commClause (span : Span) (comm : Option Stmt) (stmts : List Stmt) (colon : Pos) :
    (Node.stmt (.commClause span comm stmts colon)).changeAll change =
      change (.stmt (.commClause span (comm.map (Slot.stmt.changeAll change))
        (stmts.map (Slot.stmt.changeAll change)) colon)) := by
  have childrenEq : (Node.stmt (.commClause span comm stmts colon)).children =
      comm.toList.map Slot.stmt.wrap ++ stmts.map Slot.stmt.wrap := rfl
  rw [changeAll_eq, childrenEq, List.map_append, Slot.stmt.map_changeAll keepsSort,
    Slot.stmt.map_changeAll keepsSort, ← Option.toList_map]
  exact congrArg change
    (Resembles.commClause span colon Option.isSome_map (List.length_map _)).withChildren_children

theorem changeAll_importSpec (spec : ImportSpec) :
    (Node.spec (.importSpec spec)).changeAll change =
      change (.spec (.importSpec { spec with
        name := spec.name.map (Slot.ident.changeAll change)
        path := Slot.lit.changeAll change spec.path })) := by
  have childrenEq : (Node.spec (.importSpec spec)).children =
      spec.name.toList.map Slot.ident.wrap ++ [Slot.lit.wrap spec.path] := rfl
  rw [changeAll_eq, childrenEq, List.map_append, Slot.ident.map_changeAll keepsSort, List.map_cons,
    Slot.lit.wrap_changeAll keepsSort, ← Option.toList_map]
  exact congrArg change (Resembles.importSpec spec.span spec.path
    (Slot.lit.changeAll change spec.path) Option.isSome_map).withChildren_children

theorem changeAll_genDecl (span : Span) (tok : Token) (specs : List Spec) (grouped : Bool) :
    (Node.decl (.gen ⟨span, tok, specs, grouped⟩)).changeAll change =
      change (.decl (.gen ⟨span, tok, specs.map (Slot.spec.changeAll change), grouped⟩)) := by
  have childrenEq : (Node.decl (.gen ⟨span, tok, specs, grouped⟩)).children =
      specs.map Slot.spec.wrap := rfl
  rw [changeAll_eq, childrenEq, Slot.spec.map_changeAll keepsSort]
  exact congrArg change
    (Resembles.genDecl span tok grouped (List.length_map _)).withChildren_children

theorem changeAll_file (file : File) :
    (Node.file file).changeAll change =
      change (.file { file with
        package := Slot.ident.changeAll change file.package
        decls := file.decls.map (Slot.decl.changeAll change) }) := by
  have childrenEq : (Node.file file).children =
      Slot.ident.wrap file.package :: file.decls.map Slot.decl.wrap := rfl
  rw [changeAll_eq, childrenEq, List.map_cons, Slot.decl.map_changeAll keepsSort,
    Slot.ident.wrap_changeAll keepsSort]
  exact congrArg change
    (Resembles.file file.span file.name file.package (Slot.ident.changeAll change file.package)
      file.comments (List.length_map _)).withChildren_children

end ChangedParts

/-! ### Relations that climb -/

/-- A relation between nodes of one sort that climbs: when one child of a node was changed, it holds
of the nodes as soon as it holds of the child. -/
structure Climbs (related : Node → Node → Prop) : Prop where
  sort_eq : ∀ {new old}, related new old → new.sort = old.sort
  child : ∀ {node other : Node}, Resembles node other → ∀ (before after : List Node) {new old : Node},
    node.children = before ++ old :: after → other.children = before ++ new :: after →
    related new old → related other node

namespace Climbs

variable {related : Node → Node → Prop} (climbs : Climbs related)

include climbs

/-- A tree in which the node at an address was changed. -/
theorem modify {change : Node → Node} {address : Address} {inner : Node}
    (found : node.get? address = some inner) (changed : related (change inner) inner) :
    related (node.modify change address) node := by
  induction address generalizing node with
  | nil =>
      obtain rfl := Option.some.inj found
      exact changed
  | cons index address ih =>
      simp only [get?, Option.bind_eq_some_iff] at found
      obtain ⟨child, isChild, found⟩ := found
      have childRelated := ih found
      have same : (node.children.modify index (Node.modify change address)).map sort =
          node.children.map sort := by
        refine map_sort_modify fun part isPart => ?_
        obtain rfl := Option.some.inj (isChild.symm.trans isPart)
        exact climbs.sort_eq childRelated
      obtain ⟨resembles, childrenEq⟩ := withChildren_resembles same
      obtain ⟨inside, rfl⟩ := List.getElem?_eq_some_iff.mp isChild
      refine climbs.child resembles (node.children.take index)
        (node.children.drop (index + 1)) ?_ ?_ childRelated
      · rw [List.getElem_cons_drop, List.take_append_drop]
      · rw [Node.modify, childrenEq, List.modify_eq_take_cons_drop inside]

/-- A file in which the node at an address was changed is a related file. -/
theorem modifyFile {file : File} {address : Address} {inner changed : Node}
    (found : (Node.file file).get? address = some inner) (isRelated : related changed inner) :
    related (.file (file.modify (fun _ => changed) address)) (.file file) := by
  have whole : related ((Node.file file).modify (fun _ => changed) address) (.file file) :=
    climbs.modify found isRelated
  obtain ⟨source, isSource⟩ := exists_file_of_sort (climbs.sort_eq whole)
  have sourceEq : file.modify (fun _ => changed) address = source := by
    rw [File.modify, isSource]
    rfl
  rwa [sourceEq, ← isSource]

end Climbs

/-! ### Congruences -/

/-- What holds of every node and itself, and of nodes of one form when it holds of all that stands
in the same places, climbs. -/
theorem child_of_parts {related : Node → Node → Prop} (refl : ∀ node, related node node)
    (parts : ∀ {new old}, Resembles old new → List.Forall₂ related new.children old.children →
      related new old)
    (resembles : Resembles node other) (before after : List Node) {new old : Node}
    (oldChildren : node.children = before ++ old :: after)
    (newChildren : other.children = before ++ new :: after) (changed : related new old) :
    related other node := by
  have unchanged (nodes : List Node) : List.Forall₂ related nodes nodes :=
    List.forall₂_same.mpr fun node _ => refl node
  refine parts resembles ?_
  rw [oldChildren, newChildren]
  exact List.rel_append (unchanged before) (.cons changed (unchanged after))

/-- A relation between nodes of one sort that holds of two nodes of one form as soon as it holds of
what stands in the same places of theirs. -/
structure Congruence (related : Node → Node → Prop) : Prop extends Climbs related where
  refl : ∀ node, related node node
  parts : ∀ {new old}, Resembles old new → List.Forall₂ related new.children old.children →
    related new old
  child := child_of_parts refl parts

/-- Trees that become the same by a change of all nodes. -/
theorem Congruence.changeAll {change : Node → Node}
    (keepsSort : ∀ node, (change node).sort = node.sort) :
    Congruence fun new old => new.sort = old.sort ∧ new.changeAll change = old.changeAll change where
  refl _ := ⟨rfl, rfl⟩
  sort_eq := And.left
  parts resembles related := by
    refine ⟨resembles.sort_eq, changeAll_congr keepsSort resembles ?_⟩
    exact List.forall₂_eq_eq_eq ▸ List.forall₂_map_left_iff.mpr
      (List.forall₂_map_right_iff.mpr (related.imp fun _ _ same => same.2))

/-! ### Loops with bodies -/

/-- A tree in which every loop has a body. -/
inductive Whole : Node → Prop
  | node {node : Node} (hasBody : ∀ step, node = .stmt step → step.hasBody)
      (children : ∀ child ∈ node.children, Whole child) : Whole node

namespace Whole

theorem hasBody {step : Stmt} (whole : Whole (.stmt step)) : step.hasBody := by
  cases whole with
  | node hasBody children => exact hasBody step rfl

theorem child {child : Node} (whole : Whole node) (mem : child ∈ node.children) : Whole child := by
  cases whole with
  | node hasBody children => exact children child mem

end Whole

theorem Resembles.hasBody_eq {step step' : Stmt} (resembles : Resembles (.stmt step) (.stmt step')) :
    step'.hasBody = step.hasBody := by
  cases resembles <;> simp [Stmt.hasBody, *]

/-- Changes that leave a body to every loop. -/
theorem Congruence.whole : Congruence fun new old => new.sort = old.sort ∧ (Whole old → Whole new) where
  refl _ := ⟨rfl, id⟩
  sort_eq := And.left
  parts {new old} resembles related := by
    refine ⟨resembles.sort_eq, fun whole => .node ?_ fun child mem => ?_⟩
    · rintro step rfl
      cases old with
      | stmt oldStep => exact resembles.hasBody_eq.trans whole.hasBody
      | _ => cases resembles
    · obtain ⟨index, inside, rfl⟩ := List.getElem_of_mem mem
      have isOld : index < old.children.length := related.length_eq ▸ inside
      exact (related.get inside isOld).2 (whole.child (List.getElem_mem isOld))

/-- A relation between trees that is known where every loop of the older one has a body. -/
theorem Congruence.ofWhole {related : Node → Node → Prop} (congruence : Congruence related) :
    Congruence fun new old => new.sort = old.sort ∧ (Whole old → related new old) where
  refl node := ⟨rfl, fun _ => congruence.refl node⟩
  sort_eq := And.left
  parts resembles changed := by
    refine ⟨resembles.sort_eq, fun whole => congruence.parts resembles ?_⟩
    exact List.forall₂_iff_get.mpr ⟨changed.length_eq, fun index isNew isOld =>
      (changed.get isNew isOld).2 (whole.child (List.getElem_mem isOld))⟩

theorem Whole.ident (name : Ident) : Whole (ident name) :=
  .node (by simp [Node.ident]) (by simp [Node.ident, children, exprChildren])

theorem Whole.lit (literal : BasicLit) : Whole (lit literal) :=
  .node (by simp [Node.lit]) (by simp [Node.lit, children, exprChildren])

theorem Whole.importSpec (item : ImportSpec) : Whole (.spec (.importSpec item)) := by
  refine .node (by simp) (List.forall_mem_append.mpr ⟨fun child mem => ?_, ?_⟩)
  · obtain ⟨name, -, rfl⟩ := List.mem_map.mp mem
    exact .ident name
  · exact List.forall_mem_singleton.mpr (.lit item.path)

theorem Whole.discardRead (name : String) : Whole (.stmt (.discardRead name)) := by
  refine .node (by rintro step ⟨⟩; rfl) fun child mem => ?_
  obtain ⟨word, rfl⟩ := exists_name_of_discardRead mem
  exact .ident _

/-- Every loop of a sound tree has a body. -/
theorem Whole.of_sound {role : Role} (sound : Sound role node) : Whole node := by
  induction sound with
  | @placed role node stands parts ih =>
      refine .node ?_ fun child mem => ?_
      · rintro step rfl
        have admitted := stands.admitted
        cases role <;> cases step <;> first | rfl | cases admitted | skip
        all_goals simpa [Role.admits, Stmt.isClause] using admitted
      · rw [← map_snd_parts role] at mem
        obtain ⟨part, isPart, rfl⟩ := List.mem_map.mp mem
        exact ih part isPart
  | read name => exact .discardRead name
  | blank => exact .ident _

/-! ### One more statement -/

/-- A list of statements gets one more at its end. -/
theorem children_append {step changed added : Stmt} (isOwner : (Node.stmt step).ownStmts?.isSome)
    (appends : step.append? added = some changed) :
    (Node.stmt changed).sort = (Node.stmt step).sort ∧ changed.hasBody ∧
      (Node.stmt changed).children = (Node.stmt step).children ++ [Node.stmt added] := by
  cases step with
  | block body =>
      obtain rfl := Option.some.inj appends
      exact ⟨rfl, rfl, by simp [children, stmtChildren, Block.append]⟩
  | caseClause span exprs body colon | commClause span comm body colon =>
      obtain rfl := Option.some.inj appends
      exact ⟨rfl, rfl, by simp [children, stmtChildren]⟩
  | _ => cases isOwner

namespace Climbs

variable {related : Node → Node → Prop} (climbs : Climbs related) {added : Stmt}
  (atOwner : ∀ step changed, (Node.stmt step).ownStmts?.isSome → step.append? added = some changed →
    related (.stmt changed) (.stmt step))
  (atMissing : ∀ step changed, step.hasBody = false → step.append? added = some changed →
    related (.stmt changed) (.stmt step))

include climbs atOwner atMissing

/-- A statement that holds one more statement, where this is known of the lists of statements and of
the loops that had no body. -/
theorem append {step changed : Stmt} (appends : step.append? added = some changed) :
    related (.stmt changed) (.stmt step) := by
  have atBlock (body : Block) : related (block (body.append added)) (block body) :=
    atOwner (.block body) _ rfl rfl
  cases step with
  | block body => exact atOwner _ _ rfl appends
  | caseClause span exprs body colon => exact atOwner _ _ rfl appends
  | commClause span comm body colon => exact atOwner _ _ rfl appends
  | ifElse span init cond body otherwise =>
      obtain rfl := Option.some.inj appends
      exact climbs.child (.ifElse span cond cond body _ rfl rfl)
        (init.toList.map stmt ++ [expr cond]) (otherwise.toList.map stmt)
        (by simp [children, stmtChildren]) (by simp [children, stmtChildren]) (atBlock body)
  | loop span init cond post body =>
      cases body with
      | none => exact atMissing _ _ rfl appends
      | some body =>
          obtain rfl := Option.some.inj appends
          exact climbs.child (.loop span rfl rfl rfl rfl)
            (init.toList.map stmt ++ (cond.toList.map expr ++ post.toList.map stmt)) []
            (by simp [children, stmtChildren]) (by simp [children, stmtChildren]) (atBlock body)
  | range span key value tok operand body tokPos =>
      cases body with
      | none => exact atMissing _ _ rfl appends
      | some body =>
          obtain rfl := Option.some.inj appends
          exact climbs.child (.range span tok operand operand tokPos rfl rfl rfl)
            (key.toList.map expr ++ (value.toList.map expr ++ [expr operand])) []
            (by simp [children, stmtChildren]) (by simp [children, stmtChildren]) (atBlock body)
  | _ => cases appends

/-- A block of clauses whose first one holds one more statement. -/
theorem appendToFirst {body changed : Block} (appends : body.appendToFirst? added = some changed) :
    related (block changed) (block body) := by
  obtain ⟨span, stmts⟩ := body
  unfold Block.appendToFirst? at appends
  split at appends
  · cases appends
  · next first rest isStmts =>
      obtain rfl : stmts = first :: rest := isStmts
      obtain ⟨clause, isClause, rfl⟩ := Option.map_eq_some_iff.mp appends
      exact climbs.child (.block span (by simp)) [] (rest.map stmt) rfl rfl
        (climbs.append atOwner atMissing isClause)

/-- A node that got a read of a variable. -/
theorem withRead {changed : Node} (reads : node.withRead? added = some changed) :
    related changed node := by
  cases node with
  | stmt step =>
      simp only [withRead?, Option.map_eq_some_iff] at reads
      obtain ⟨changed, reads, rfl⟩ := reads
      unfold Stmt.withRead? at reads
      split at reads
      · next span init tag body =>
          obtain ⟨changed, appends, rfl⟩ := Option.map_eq_some_iff.mp reads
          exact climbs.child (.switch span body changed rfl rfl)
            (init.toList.map stmt ++ tag.toList.map expr) [] (by simp [children, stmtChildren])
            (by simp [children, stmtChildren])
            (climbs.appendToFirst atOwner atMissing appends)
      · next span init guard body =>
          obtain ⟨changed, appends, rfl⟩ := Option.map_eq_some_iff.mp reads
          exact climbs.child (.typeSwitch span guard guard body changed rfl)
            (init.toList.map stmt ++ [stmt guard]) [] (by simp [children, stmtChildren])
            (by simp [children, stmtChildren])
            (climbs.appendToFirst atOwner atMissing appends)
      · next span body =>
          obtain ⟨changed, appends, rfl⟩ := Option.map_eq_some_iff.mp reads
          exact climbs.child (.select span body changed) [] [] rfl rfl
            (climbs.appendToFirst atOwner atMissing appends)
      · exact climbs.append atOwner atMissing reads
  | _ => cases reads

end Climbs

/-! ### Lists with one more discard read -/

/-- A change that does not see a discard read at the end of a list does not see it either when all
nodes are changed. -/
theorem changeAll_append {change : Node → Node}
    (keepsSort : ∀ node, (change node).sort = node.sort) {name : String}
    (keepsRead : (Node.stmt (.discardRead name)).changeAll change = .stmt (.discardRead name))
    (absorbs : ∀ step changed, (Node.stmt step).ownStmts?.isSome →
      step.append? (.discardRead name) = some changed →
      change (.stmt changed) = change (.stmt step)) {step changed : Stmt}
    (isOwner : (Node.stmt step).ownStmts?.isSome)
    (appends : step.append? (.discardRead name) = some changed) :
    (Node.stmt changed).changeAll change = (Node.stmt step).changeAll change := by
  have map_append (stmts : List Stmt) :
      (stmts ++ [Stmt.discardRead name]).map (Slot.stmt.changeAll change) =
        stmts.map (Slot.stmt.changeAll change) ++ [Stmt.discardRead name] := by
    rw [List.map_append, List.map_singleton, Slot.stmt.changeAll_eq keepsRead]
  cases step with
  | block body =>
      obtain rfl := Option.some.inj appends
      obtain ⟨span, stmts⟩ := body
      rw [Block.append, changeAll_block keepsSort, changeAll_block keepsSort, map_append]
      exact absorbs (.block ⟨span, _⟩) _ rfl rfl
  | caseClause span exprs stmts colon =>
      obtain rfl := Option.some.inj appends
      rw [changeAll_caseClause keepsSort, changeAll_caseClause keepsSort, map_append]
      exact absorbs (.caseClause span _ _ colon) _ rfl rfl
  | commClause span comm stmts colon =>
      obtain rfl := Option.some.inj appends
      rw [changeAll_commClause keepsSort, changeAll_commClause keepsSort, map_append]
      exact absorbs (.commClause span _ _ colon) _ rfl rfl
  | _ => cases isOwner

end Node

end GoMend
