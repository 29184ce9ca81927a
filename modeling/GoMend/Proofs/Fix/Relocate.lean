import GoMend.Proofs.Check.Own
import GoMend.Proofs.Fix.InTurn
import GoMend.Proofs.Fix.Removal
import Mathlib.Data.Int.Order.Basic
import Mathlib.Order.Monotone.Basic

/-!
# Mending files elsewhere

What a fix does to a file depends on its tree alone.  A file that has the same tree at other
positions, and in the same order, is mended in the same way there.
-/

namespace GoMend

open Node (Slot)

/-! ### Edits elsewhere -/

section

variable {place : Pos → Pos}

theorem Span.relocated_absent (absent : place noPos = noPos) :
    Span.absent.relocated place = .absent := by
  simp [Span.relocated, Span.absent, absent]

theorem Stmt.discardRead_relocated (absent : place noPos = noPos) (name : String) :
    (Stmt.discardRead name).relocated place = .discardRead name := by
  have spanEq := Span.relocated_absent absent
  simp_all [Stmt.discardRead, Stmt.relocated, Expr.relocatedAll, Expr.relocated, Ident.relocated,
    Span.absent]

theorem Block.append_relocated (body : Block) (added : Stmt) :
    (body.append added).relocated place = (body.relocated place).append (added.relocated place) := by
  obtain ⟨span, stmts⟩ := body
  simp [Block.append, Block.relocated, Stmt.relocatedAll_eq]

theorem Block.missing_relocated (absent : place noPos = noPos) :
    Block.missing.relocated place = Block.missing := by
  simp [Block.missing, Block.relocated, Stmt.relocatedAll, Span.relocated, absent]

theorem Block.getD_missing_relocated (absent : place noPos = noPos) (body : Option Block) :
    (body.map (Block.relocated place)).getD .missing = (body.getD .missing).relocated place := by
  cases body with
  | none => exact (Block.missing_relocated absent).symm
  | some body => rfl

theorem Stmt.append?_relocated (absent : place noPos = noPos) (step added : Stmt) :
    (step.relocated place).append? (added.relocated place) =
      (step.append? added).map (Stmt.relocated place) := by
  cases step with
  | caseClause span exprs body colon =>
      cases exprs <;> simp [append?, Stmt.relocated, Stmt.relocatedAll_eq]
  | _ =>
      simp [append?, Stmt.relocated, Stmt.relocatedAll_eq, Block.relocatedOption_eq,
        Block.append_relocated, Block.getD_missing_relocated absent]

theorem Block.appendToFirst?_relocated (absent : place noPos = noPos) (body : Block) (added : Stmt) :
    (body.relocated place).appendToFirst? (added.relocated place) =
      (body.appendToFirst? added).map (Block.relocated place) := by
  obtain ⟨span, stmts⟩ := body
  cases stmts <;>
    simp [Block.appendToFirst?, Block.relocated, Stmt.relocatedAll_eq,
      Stmt.append?_relocated absent, Function.comp_def]

theorem Stmt.withRead?_relocated (absent : place noPos = noPos) (step added : Stmt) :
    (step.relocated place).withRead? (added.relocated place) =
      (step.withRead? added).map (Stmt.relocated place) := by
  have onAppend := Stmt.append?_relocated absent step added
  cases step with
  | switch span init tag body =>
      simp [withRead?, Stmt.relocated, Block.appendToFirst?_relocated absent, Function.comp_def]
  | typeSwitch span init guard body =>
      simp [withRead?, Stmt.relocated, Block.appendToFirst?_relocated absent, Function.comp_def]
  | select span body =>
      simp [withRead?, Stmt.relocated, Block.appendToFirst?_relocated absent, Function.comp_def]
  | _ => exact onAppend

theorem Stmt.hasNoClauses_relocated (step : Stmt) :
    (step.relocated place).hasNoClauses = step.hasNoClauses := by
  cases step <;> simp [Stmt.hasNoClauses, Stmt.relocated]

theorem Stmt.withoutDefine?_relocated (step : Stmt) :
    (step.relocated place).withoutDefine? = step.withoutDefine?.map (Stmt.relocated place) := by
  cases step with
  | assign span lhs tok rhs tokPos => cases tok <;> rfl
  | range span key value tok operand body tokPos =>
      cases tok with
      | none => rfl
      | some tok => cases tok <;> rfl
  | _ => rfl

namespace Node

variable {node changed : Node}

theorem withRead?_relocated (absent : place noPos = noPos) (node : Node) (added : Stmt) :
    (node.relocated place).withRead? (added.relocated place) =
      (node.withRead? added).map (Node.relocated place) := by
  cases node with
  | stmt step =>
      simp [withRead?, Node.relocated, Stmt.withRead?_relocated absent, Function.comp_def]
  | _ => rfl

theorem withoutDefine?_relocated (node : Node) :
    (node.relocated place).withoutDefine? = node.withoutDefine?.map (Node.relocated place) := by
  cases node with
  | stmt step =>
      simp [withoutDefine?, Node.relocated, Stmt.withoutDefine?_relocated, Function.comp_def]
  | _ => rfl

theorem hidesVariables_relocated (node : Node) :
    (node.relocated place).hidesVariables = node.hidesVariables := by
  cases node with
  | stmt step => exact Stmt.hasNoClauses_relocated step
  | expr value => cases value <;> rfl
  | decl item => cases item <;> rfl
  | _ => rfl

theorem sort_of_withRead? {added : Stmt} (reads : node.withRead? added = some changed)
    (isRead : ∃ name, added = .discardRead name) : changed.sort = node.sort := by
  obtain ⟨name, rfl⟩ := isRead
  have appended (step changed : Stmt) (appends : step.append? (.discardRead name) = some changed) :=
    SameWays.append appends
  exact (Congruence.sameWays.withRead (fun step changed _ => appended step changed)
    (fun step changed _ => appended step changed) reads).sort_eq

theorem sort_of_withoutDefine? (replaced : node.withoutDefine? = some changed) :
    changed.sort = node.sort := by
  cases node with
  | stmt step =>
      obtain ⟨new, isNew, rfl⟩ := Option.map_eq_some_iff.mp replaced
      exact (SameWays.withoutDefine isNew).sort_eq
  | _ => cases replaced

end Node

theorem changeFirst?_map {α : Type} {view : α → α} {change : α → Option α}
    (same : ∀ item, change (view item) = (change item).map view) (items : List α) :
    changeFirst? change (items.map view) = (changeFirst? change items).map (·.map view) := by
  induction items with
  | nil => rfl
  | cons item items ih =>
      rw [List.map_cons, changeFirst?, changeFirst?, same]
      cases change item with
      | none => simp [ih, Function.comp_def]
      | some changed => rfl

theorem ImportSpec.blanked?_relocated (absent : place noPos = noPos) (path : String)
    (spec : ImportSpec) :
    (spec.relocated place).blanked? path = (spec.blanked? path).map (ImportSpec.relocated place) := by
  have blank : ({ name := "_" } : Ident).relocated place = { name := "_" } := by
    simp [Ident.relocated, Span.relocated, absent]
  have sameName : (spec.name.map (Ident.relocated place)).any (·.isBlank) =
      spec.name.any (·.isBlank) := by
    cases spec.name <;> simp
  unfold blanked?
  rw [path_relocated, name_relocated, BasicLit.value_relocated, sameName]
  split
  · simp [ImportSpec.relocated, blank]
  · rfl

theorem Spec.blanked?_relocated (absent : place noPos = noPos) (path : String) (item : Spec) :
    (item.relocated place).blanked? path = (item.blanked? path).map (Spec.relocated place) := by
  cases item with
  | importSpec spec =>
      simp [Spec.blanked?, Spec.relocated, ImportSpec.blanked?_relocated absent, Function.comp_def]
  | _ => rfl

theorem Decl.blanked?_relocated (absent : place noPos = noPos) (path : String) (item : Decl) :
    (item.relocated place).blanked? path = (item.blanked? path).map (Decl.relocated place) := by
  cases item with
  | gen item =>
      obtain ⟨span, tok, specs, grouped⟩ := item
      simp [Decl.blanked?, Decl.relocated, GenDecl.relocated, Spec.relocatedAll_eq,
        changeFirst?_map (Spec.blanked?_relocated absent path), Function.comp_def]
  | func item => rfl

namespace File

variable {file : File}

theorem get?_relocated (file : File) (address : Node.Address) :
    (Node.file (file.relocated place)).get? address =
      ((Node.file file).get? address).map (Node.relocated place) := by
  rw [← Node.get?_relocated, Node.relocated_file]

theorem modify_relocated {address : Node.Address} {inner changed : Node}
    (found : (Node.file file).get? address = some inner) (sortEq : changed.sort = inner.sort) :
    (file.relocated place).modify (fun _ => changed.relocated place) address =
      (file.modify (fun _ => changed) address).relocated place := by
  have modified := @Node.modify_relocated place (.file file) (fun _ => changed)
    (fun _ => changed.relocated place) address fun other isOther => by
      obtain rfl := Option.some.inj (found.symm.trans isOther)
      exact ⟨sortEq, rfl⟩
  rw [Node.relocated_file] at modified
  rw [File.modify, File.modify, modified]
  cases (Node.file file).modify (fun _ => changed) address <;> rfl

theorem addRead_relocated (absent : place noPos = noPos) (name : String) (file : File)
    (chain : List Node.Address) :
    (file.relocated place).addRead name chain =
      (file.addRead name chain).map (Prod.map id (File.relocated place)) := by
  induction chain with
  | nil => rfl
  | cons address outer ih =>
      rw [addRead, addRead, get?_relocated]
      cases found : (Node.file file).get? address with
      | none => exact ih
      | some node =>
          have reads := Node.withRead?_relocated absent node (.discardRead name)
          rw [Stmt.discardRead_relocated absent] at reads
          simp only [Option.map_some, Node.hidesVariables_relocated, reads, Node.kind_relocated]
          split
          · rfl
          · cases isChanged : node.withRead? (.discardRead name) with
            | none => exact ih
            | some changed =>
                have sortEq := Node.sort_of_withRead? isChanged ⟨name, rfl⟩
                simp only [Option.map_some, modify_relocated found sortEq]
                rfl

theorem replaceDefine_relocated (file : File) (chain : List Node.Address) :
    (file.relocated place).replaceDefine chain =
      (file.replaceDefine chain).map (Prod.map id (File.relocated place)) := by
  induction chain with
  | nil => rfl
  | cons address outer ih =>
      rw [replaceDefine, replaceDefine, get?_relocated]
      cases found : (Node.file file).get? address with
      | none => exact ih
      | some node =>
          simp only [Option.map_some, Node.withoutDefine?_relocated, Node.kind_relocated]
          cases isChanged : node.withoutDefine? with
          | none => exact ih
          | some changed =>
              simp only [Option.map_some,
                modify_relocated found (Node.sort_of_withoutDefine? isChanged)]
              rfl

theorem blankImport_relocated (absent : place noPos = noPos) (path : String) (file : File)
    (chain : List Node.Address) :
    (file.relocated place).blankImport path chain =
      (file.blankImport path chain).map (Prod.map id (File.relocated place)) := by
  have declsEq : (file.relocated place).decls = file.decls.map (Decl.relocated place) := rfl
  rw [blankImport, blankImport, declsEq, changeFirst?_map (Decl.blanked?_relocated absent path)]
  split
  · cases changeFirst? (Decl.blanked? path) file.decls <;> rfl
  · rfl

end File

/-- A fix does elsewhere what it does here. -/
theorem Shape.mend_relocated (absent : place noPos = noPos) (shape : Shape)
    (chain : List Node.Address) (file : File) :
    shape.mend chain (file.relocated place) =
      (shape.mend chain file).map (Prod.map id (File.relocated place)) := by
  cases shape with
  | unusedVariable name => exact file.addRead_relocated absent name chain
  | unusedImport path => exact file.blankImport_relocated absent path chain
  | noNewVariables => exact file.replaceDefine_relocated chain

end

/-! ### The tree of a file -/

/-- The file with the package clause and the declarations of another one. -/
def File.withTree (file other : File) : File :=
  { file with
    package := other.package
    decls := other.decls }

namespace File

variable (file other : File)

theorem addRead_withTree (name : String) (chain : List Node.Address) :
    (file.withTree other).addRead name chain =
      (other.addRead name chain).map (Prod.map id file.withTree) := by
  induction chain with
  | nil => rfl
  | cons address outer ih =>
      cases address with
      | nil => exact ih
      | cons index rest =>
          have sameNode : (Node.file (file.withTree other)).get? (index :: rest) =
              (Node.file other).get? (index :: rest) := rfl
          rw [addRead, addRead, sameNode]
          cases (Node.file other).get? (index :: rest) with
          | none => exact ih
          | some node =>
              dsimp only
              split
              · rfl
              · cases node.withRead? (.discardRead name) with
                | none => exact ih
                | some changed => rfl

theorem replaceDefine_withTree (chain : List Node.Address) :
    (file.withTree other).replaceDefine chain =
      (other.replaceDefine chain).map (Prod.map id file.withTree) := by
  induction chain with
  | nil => rfl
  | cons address outer ih =>
      cases address with
      | nil => exact ih
      | cons index rest =>
          have sameNode : (Node.file (file.withTree other)).get? (index :: rest) =
              (Node.file other).get? (index :: rest) := rfl
          rw [replaceDefine, replaceDefine, sameNode]
          cases (Node.file other).get? (index :: rest) with
          | none => exact ih
          | some node =>
              dsimp only
              cases node.withoutDefine? with
              | none => exact ih
              | some changed => rfl

end File

/-- A fix looks at the tree of a file and changes nothing else. -/
theorem Shape.mend_withTree (shape : Shape) (chain : List Node.Address) (file other : File) :
    (shape.mend chain (file.withTree other)).toOption =
      (shape.mend chain other).toOption.map (Prod.map id file.withTree) := by
  have toOption_map (edited : Edited) : (edited.map (Prod.map id file.withTree)).toOption =
      edited.toOption.map (Prod.map id file.withTree) := by
    cases edited <;> rfl
  cases shape with
  | unusedVariable name =>
      rw [Shape.mend, Shape.mend, File.addRead_withTree, toOption_map]
  | unusedImport path =>
      rw [Shape.mend, Shape.mend, File.blankImport, File.blankImport]
      split
      · have declsEq : (file.withTree other).decls = other.decls := rfl
        rw [declsEq]
        cases changeFirst? (Decl.blanked? path) other.decls <;> rfl
      · rfl
  | noNewVariables =>
      rw [Shape.mend, Shape.mend, File.replaceDefine_withTree, toOption_map]

/-! ### Positions in the same order -/

theorem Node.map_descend_eq (pos : Pos) (node : Node) (start : Address) :
    (node.descend pos start).map (·.address) = start ::
      match node.children.find? (·.span.contains pos) with
      | none => []
      | some child =>
          (child.descend pos (start ++ [node.children.findIdx (·.span.contains pos)])).map
            (·.address) := by
  rw [descend]
  split
  · next notFound => simp [notFound]
  · next child isFound => simp [isFound]

/-- Positions are moved without a change of their order, and no position stays no position. -/
structure KeepsOrder (place : Pos → Pos) : Prop where
  absent : place noPos = noPos
  strict : StrictMono place

namespace KeepsOrder

variable {place : Pos → Pos} (keeps : KeepsOrder place)

include keeps

theorem eq_noPos_iff (pos : Pos) : place pos = noPos ↔ pos = noPos := by
  conv_lhs => rw [← keeps.absent]
  exact keeps.strict.injective.eq_iff

theorem isPositioned_relocated (span : Span) :
    (span.relocated place).isPositioned = span.isPositioned := by
  have startIff := keeps.eq_noPos_iff span.start
  rw [Bool.eq_iff_iff]
  simp [Span.isPositioned, startIff]

theorem contains_relocated (span : Span) (pos : Pos) :
    (span.relocated place).contains (place pos) = span.contains pos := by
  rw [Span.contains, Span.contains, keeps.isPositioned_relocated]
  simp [keeps.strict.le_iff_le, keeps.strict.lt_iff_lt]

/-- The end of a range that is moved with its last position. -/
theorem lt_stop_iff (stop pos : Pos) : place pos < place (stop - 1) + 1 ↔ pos < stop := by
  rw [Int.lt_add_one_iff, keeps.strict.le_iff_le]
  lia

theorem owns_relocated (file : File) (pos : Pos) :
    (file.relocated place).owns (place pos) = file.owns pos := by
  simp only [File.owns, File.relocated, keeps.strict.le_iff_le, keeps.lt_stop_iff]

theorem contains_node (node : Node) (pos : Pos) :
    (node.relocated place).span.contains (place pos) = node.span.contains pos := by
  cases node with
  | file source =>
      exact congrArg₂ (· && ·) (keeps.isPositioned_relocated source.span)
        (keeps.owns_relocated source pos)
  | expr value => simpa [Node.span] using keeps.contains_relocated value.span pos
  | field item => simpa [Node.span] using keeps.contains_relocated item.span pos
  | fieldList list => simpa [Node.span] using keeps.contains_relocated list.span pos
  | stmt step => simpa [Node.span] using keeps.contains_relocated step.span pos
  | spec item => simpa [Node.span] using keeps.contains_relocated item.span pos
  | decl item => simpa [Node.span] using keeps.contains_relocated item.span pos
  | comment text => simpa [Node.span] using keeps.contains_relocated text.span pos

/-- The same nodes stand around a position. -/
theorem map_descend (node : Node) (pos : Pos) (start : Node.Address) :
    ((node.relocated place).descend (place pos) start).map (·.address) =
      (node.descend pos start).map (·.address) := by
  have sameChild : (fun child : Node => child.span.contains (place pos)) ∘ Node.relocated place =
      fun child => child.span.contains pos := funext fun child => keeps.contains_node child pos
  induction node, start using Node.descend.induct pos with
  | case1 node start ih =>
      rw [Node.map_descend_eq, Node.map_descend_eq, Node.children_relocated, List.find?_map,
        List.findIdx_map, sameChild]
      cases isFound : node.children.find? (·.span.contains pos) with
      | none => rfl
      | some child => exact congrArg (start :: ·) (ih child isFound)

theorem map_enclosing (file : File) (pos : Pos) :
    ((file.relocated place).enclosing (place pos)).map (·.address) =
      (file.enclosing pos).map (·.address) := by
  have descended := keeps.map_descend (.file file) pos []
  rw [Node.relocated_file] at descended
  rw [File.enclosing, File.enclosing, List.map_reverse, List.map_reverse, descended]

end KeepsOrder

/-! ### Mending one file -/

namespace File

/-- The file of a name with the same tree at other positions. -/
def elsewhere (place : Pos → Pos) (name : String) (file : File) : File :=
  { file.relocated place with name }

variable {place : Pos → Pos} {name : String} {file edited : File}

/-- A fix changes nothing but the tree. -/
theorem withTree_of_mend {shape : Shape} {chain : List Node.Address} {edit : Edit}
    (outcome : shape.mend chain file = .ok (edit, edited)) : file.withTree edited = edited := by
  have framed := shape.mend_withTree chain file file
  rw [show file.withTree file = file from rfl, outcome] at framed
  exact (congrArg Prod.snd (Option.some.inj framed)).symm

end File

/-! ### Taking fixes back -/

theorem Stmt.withStop_relocated (place : Pos → Pos) (step : Stmt) (stop : Pos) :
    (step.withStop stop).relocated place = (step.relocated place).withStop (place stop) := by
  cases step <;> first | rfl | simp [withStop, Stmt.relocated, Block.relocated, Span.relocated]

theorem Expr.exists_of_relocated_ident {place : Pos → Pos} {value : Expr} {name : Ident}
    (same : value.relocated place = .ident name) :
    ∃ own, value = .ident own ∧ own.relocated place = name := by
  cases value with
  | ident own => exact ⟨own, rfl, Expr.ident.inj same⟩
  | _ => cases same

theorem Stmt.isDiscardRead_relocated (place : Pos → Pos) (step : Stmt) :
    (step.relocated place).isDiscardRead = step.isDiscardRead := by
  rw [Bool.eq_iff_iff]
  constructor
  · intro isRead
    obtain ⟨span, left, right, tokPos, same, isBlank⟩ := exists_of_isDiscardRead isRead
    cases step with
    | assign ownSpan lhs tok rhs ownPos =>
        simp only [Stmt.relocated, assign.injEq, Expr.relocatedAll_eq, List.map_eq_singleton_iff]
          at same
        obtain ⟨-, ⟨_, rfl, isLeft⟩, rfl, ⟨_, rfl, isRight⟩, -⟩ := same
        obtain ⟨ownLeft, rfl, rfl⟩ := Expr.exists_of_relocated_ident isLeft
        obtain ⟨ownRight, rfl, rfl⟩ := Expr.exists_of_relocated_ident isRight
        simpa [isDiscardRead] using isBlank
    | caseClause ownSpan exprs body colon => cases exprs <;> cases same
    | _ => cases same
  · intro isRead
    obtain ⟨span, left, right, tokPos, rfl, isBlank⟩ := exists_of_isDiscardRead isRead
    simpa [Stmt.relocated, Expr.relocatedAll, Expr.relocated, isDiscardRead] using isBlank

namespace Node

variable {place : Pos → Pos} {change change' : Node → Node}

theorem changeAll_relocated (keepsSort : ∀ node, (change node).sort = node.sort)
    (same : ∀ node, change' (node.relocated place) = (change node).relocated place) (node : Node) :
    (node.relocated place).changeAll change' = (node.changeAll change).relocated place := by
  induction node using Node.changeAll.induct with
  | case1 node ih =>
      have children : (node.children.map (Node.relocated place)).map (changeAll change') =
          (node.children.map (changeAll change)).map (Node.relocated place) := by
        simp only [List.map_map]
        exact List.map_congr_left fun child isChild => ih ⟨child, isChild⟩
      rw [changeAll_eq, changeAll_eq, children_relocated, children,
        withChildren_relocated (map_sort_changeAll keepsSort _), same]

/-- A change that keeps what stays in its place keeps it in the whole tree. -/
theorem changeAll_fixed (keepsSort : ∀ node, (change node).sort = node.sort)
    (keeps : ∀ node, node.relocated place = node → (change node).relocated place = change node)
    {node : Node} (fixed : node.relocated place = node) :
    (node.changeAll change).relocated place = node.changeAll change := by
  induction node using Node.changeAll.induct with
  | case1 node ih =>
      have childFixed : ∀ child ∈ node.children, child.relocated place = child := by
        have childrenEq := congrArg children fixed
        rw [children_relocated] at childrenEq
        exact List.map_inj_left.mp (childrenEq.trans (List.map_id _).symm)
      have children : (node.children.map (changeAll change)).map (Node.relocated place) =
          node.children.map (changeAll change) := by
        rw [List.map_map]
        exact List.map_congr_left fun child isChild => ih ⟨child, isChild⟩ (childFixed child isChild)
      rw [changeAll_eq]
      apply keeps
      rw [← withChildren_relocated (map_sort_changeAll keepsSort _), children, fixed]

end Node

namespace KeepsOrder

variable {place : Pos → Pos} (keeps : KeepsOrder place) (comments : List Comment)

include keeps

theorem commentBetween_relocated (start stop : Pos) :
    commentBetween (comments.map (Comment.relocated place)) (place start) (place stop) =
      commentBetween comments start stop := by
  simp only [commentBetween, List.any_map, Function.comp_def, Comment.span_relocated,
    Span.start_relocated, keeps.strict.le_iff_le, keeps.strict.lt_iff_lt]

theorem takeOver_relocated (removed : Span) (step : Stmt) :
    (step.relocated place).takeOver (comments.map (Comment.relocated place))
        (removed.relocated place) =
      (step.takeOver comments removed).relocated place := by
  unfold Stmt.takeOver
  simp only [Stmt.span_relocated, keeps.isPositioned_relocated, Span.stop_relocated,
    keeps.commentBetween_relocated]
  split
  · rw [Stmt.withStop_relocated, keeps.strict.monotone.map_max]
  · rfl

theorem moveOpening_relocated (opening : Pos) (removed : Span) :
    moveOpening (comments.map (Comment.relocated place)) (place opening) (removed.relocated place) =
      place (moveOpening comments opening removed) := by
  unfold moveOpening
  simp only [ne_eq, keeps.eq_noPos_iff, Span.stop_relocated, Span.start_relocated,
    keeps.commentBetween_relocated]
  split <;> rfl

theorem withoutReads_relocated (opening : Pos) (kept stmts : List Stmt) :
    withoutReads (comments.map (Comment.relocated place)) (place opening)
        (kept.map (Stmt.relocated place)) (stmts.map (Stmt.relocated place)) =
      Prod.map place (List.map (Stmt.relocated place))
        (withoutReads comments opening kept stmts) := by
  induction stmts generalizing opening kept with
  | nil => simp [withoutReads]
  | cons step stmts ih =>
      simp only [List.map_cons, withoutReads, Stmt.isDiscardRead_relocated, Stmt.span_relocated,
        keeps.isPositioned_relocated]
      split
      · exact ih opening (step :: kept)
      · split
        · exact ih opening kept
        · cases kept with
          | nil => exact (keeps.moveOpening_relocated comments opening step.span) ▸ ih _ []
          | cons last earlier =>
              have taken := ih opening (last.takeOver comments step.span :: earlier)
              rw [List.map_cons, ← keeps.takeOver_relocated] at taken
              exact taken

theorem withoutReads_node (node : Node) :
    (node.relocated place).withoutReads (comments.map (Comment.relocated place)) =
      (node.withoutReads comments).relocated place := by
  have trimmed := fun opening => keeps.withoutReads_relocated comments opening []
  simp only [List.map_nil] at trimmed
  cases node with
  | stmt step =>
      cases step with
      | block body =>
          obtain ⟨⟨start, stop⟩, stmts⟩ := body
          simp only [Node.relocated, Stmt.relocated, Block.relocated, Node.withoutReads,
            Stmt.relocatedAll_eq, Span.relocated]
          rw [trimmed]
          rfl
      | caseClause span exprs body colon =>
          cases exprs <;>
            simp only [Node.relocated, Stmt.relocated, Node.withoutReads, Stmt.relocatedAll_eq] <;>
            rw [trimmed] <;> rfl
      | commClause span comm body colon =>
          simp only [Node.relocated, Stmt.relocated, Node.withoutReads, Stmt.relocatedAll_eq]
          rw [trimmed]
          rfl
      | _ => rfl
  | _ => rfl

end KeepsOrder

theorem ImportSpec.isBlank_relocated (place : Pos → Pos) (spec : ImportSpec) :
    (spec.relocated place).isBlank = spec.isBlank := by
  obtain ⟨span, name, path⟩ := spec
  cases name <;> simp [isBlank]

theorem ImportSpec.isRestored_relocated (place : Pos → Pos) (keep : List String)
    (spec : ImportSpec) : (spec.relocated place).isRestored keep = spec.isRestored keep := by
  rw [isRestored, isRestored, isBlank_relocated]
  rfl

theorem ImportSpec.restored_relocated (place : Pos → Pos) (keep : List String) (spec : ImportSpec) :
    (spec.relocated place).restored keep = (spec.restored keep).relocated place := by
  rw [restored, restored, isRestored_relocated]
  split <;> rfl

theorem Spec.restored_relocated (place : Pos → Pos) (keep : List String) (item : Spec) :
    (item.relocated place).restored keep = (item.restored keep).relocated place := by
  cases item with
  | importSpec spec => exact congrArg Spec.importSpec (spec.restored_relocated place keep)
  | _ => rfl

theorem Decl.restored_relocated (place : Pos → Pos) (keep : List String) (item : Decl) :
    (item.relocated place).restored keep = (item.restored keep).relocated place := by
  cases item with
  | gen item =>
      obtain ⟨span, tok, specs, grouped⟩ := item
      simp [Decl.restored, Decl.relocated, GenDecl.relocated, Spec.relocatedAll_eq,
        Spec.restored_relocated]
  | func item => rfl

namespace File

variable {place : Pos → Pos}

/-- Fixes are taken back elsewhere as they are here. -/
theorem reverted_elsewhere (keeps : KeepsOrder place) (keep : List String) (name : String)
    (file : File) :
    (file.elsewhere place name).reverted keep = (file.reverted keep).elsewhere place name := by
  have onDecl (item : Decl) :
      ((Slot.decl.changeAll (Node.withoutReads (file.comments.map (Comment.relocated place)))
          (item.relocated place)).restored keep) =
        ((Slot.decl.changeAll (Node.withoutReads file.comments) item).restored keep).relocated
          place := by
    rw [← Decl.restored_relocated]
    refine congrArg (Decl.restored keep) (Slot.changeAll_eq Slot.decl ?_)
    have changed := Node.changeAll_relocated (Node.sort_withoutReads file.comments)
      (keeps.withoutReads_node file.comments) (.decl item)
    exact changed.trans (congrArg (Node.relocated place)
      (Slot.wrap_changeAll (Node.sort_withoutReads file.comments) Slot.decl item))
  rw [reverted_eq, reverted_eq]
  simp only [elsewhere, File.relocated, List.map_map, Function.comp_def, onDecl]

/-! ### Settled files -/

variable {file : File}

/-- A fix keeps a file settled. -/
theorem IsSettled.of_mend {shape : Shape} {chain : List Node.Address} {edited : File} {edit : Edit}
    (settled : file.IsSettled) (outcome : shape.mend chain file = .ok (edit, edited)) :
    edited.IsSettled := by
  have treeEq := withTree_of_mend outcome
  let keep := clamp (file.span.start + 1) (file.span.stop - 1)
  have sameTree : file.withTree (file.relocated keep) = file := by
    have declsEq : (file.relocated keep).decls = file.decls := settled.decls
    have packageEq : (file.relocated keep).package = file.package := settled.package
    rw [withTree, declsEq, packageEq]
  -- The fix does to the tree what it does to the same tree with its positions kept in the file.
  have framed := shape.mend_withTree chain file (file.relocated keep)
  rw [sameTree, shape.mend_relocated (clamp_noPos _ _ : keep noPos = noPos), outcome] at framed
  have same : edited = file.withTree (edited.relocated keep) :=
    congrArg Prod.snd (Option.some.inj framed)
  have spanEq : edited.span = file.span := by
    rw [← treeEq]
    rfl
  constructor
  · exact spanEq ▸ settled.begins
  · exact spanEq ▸ settled.hasRoom
  · rw [spanEq]
    exact (congrArg File.package same).symm
  · rw [spanEq]
    exact (congrArg File.decls same).symm
  · rw [← treeEq]
    exact settled.comments

/-- What a list of statements is trimmed to stays where it is, if the list does. -/
theorem withoutReads_fixed (comments : List Comment) {opening : Pos} {kept stmts : List Stmt}
    (openingFixed : place opening = opening) (keptFixed : ∀ step ∈ kept, step.relocated place = step)
    (fixed : ∀ step ∈ stmts, step.relocated place = step) :
    place (withoutReads comments opening kept stmts).1 =
        (withoutReads comments opening kept stmts).1 ∧
      ∀ step ∈ (withoutReads comments opening kept stmts).2, step.relocated place = step := by
  induction stmts generalizing opening kept with
  | nil => exact ⟨openingFixed, by simpa [withoutReads] using keptFixed⟩
  | cons step stmts ih =>
      obtain ⟨stepFixed, othersFixed⟩ := List.forall_mem_cons.mp fixed
      have spanFixed : step.span.relocated place = step.span := by
        rw [← Stmt.span_relocated, stepFixed]
      have startFixed : place step.span.start = step.span.start := congrArg Span.start spanFixed
      have stopFixed : place step.span.stop = step.span.stop := congrArg Span.stop spanFixed
      unfold withoutReads
      split
      · exact ih openingFixed (List.forall_mem_cons.mpr ⟨stepFixed, keptFixed⟩) othersFixed
      · split
        · exact ih openingFixed keptFixed othersFixed
        · cases kept with
          | nil =>
              refine ih ?_ keptFixed othersFixed
              unfold moveOpening
              split
              · exact startFixed
              · exact openingFixed
          | cons last earlier =>
              obtain ⟨lastFixed, earlierFixed⟩ := List.forall_mem_cons.mp keptFixed
              refine ih openingFixed (List.forall_mem_cons.mpr ⟨?_, earlierFixed⟩) othersFixed
              unfold Stmt.takeOver
              split
              · have lastSpan : last.span.relocated place = last.span := by
                  rw [← Stmt.span_relocated, lastFixed]
                have ownStop : place last.span.stop = last.span.stop := congrArg Span.stop lastSpan
                rw [Stmt.withStop_relocated, lastFixed]
                rcases max_choice last.span.stop step.span.stop with isMax | isMax <;>
                  simp only [isMax, ownStop, stopFixed]
              · exact lastFixed

theorem node_withoutReads_fixed (comments : List Comment) {node : Node}
    (fixed : node.relocated place = node) :
    (node.withoutReads comments).relocated place = node.withoutReads comments := by
  have ofList {opening : Pos} {stmts : List Stmt} (openingFixed : place opening = opening)
      (stmtsFixed : stmts.map (Stmt.relocated place) = stmts) :
      place (withoutReads comments opening [] stmts).1 =
          (withoutReads comments opening [] stmts).1 ∧
        (withoutReads comments opening [] stmts).2.map (Stmt.relocated place) =
          (withoutReads comments opening [] stmts).2 := by
    obtain ⟨openingKept, kept⟩ := @withoutReads_fixed place comments opening [] stmts openingFixed
      (by simp) (List.map_inj_left.mp (stmtsFixed.trans (List.map_id _).symm))
    exact ⟨openingKept, (List.map_congr_left kept).trans (List.map_id _)⟩
  cases node with
  | stmt step =>
      cases step with
      | block body =>
          obtain ⟨⟨start, stop⟩, stmts⟩ := body
          simp only [Node.relocated, Stmt.relocated, Block.relocated, Stmt.relocatedAll_eq,
            Span.relocated, Node.stmt.injEq, Stmt.block.injEq, Block.mk.injEq, Span.mk.injEq] at fixed
          obtain ⟨⟨startFixed, stopFixed⟩, stmtsFixed⟩ := fixed
          obtain ⟨openingKept, kept⟩ := ofList startFixed stmtsFixed
          simp [Node.withoutReads, Node.relocated, Stmt.relocated, Block.relocated,
            Stmt.relocatedAll_eq, Span.relocated, openingKept, kept, stopFixed]
      | caseClause span exprs body colon =>
          cases exprs with
          | none =>
              simp only [Node.relocated, Stmt.relocated, Stmt.relocatedAll_eq, Node.stmt.injEq,
                Stmt.caseClause.injEq] at fixed
              obtain ⟨spanFixed, -, bodyFixed, colonFixed⟩ := fixed
              obtain ⟨colonKept, kept⟩ := ofList colonFixed bodyFixed
              simp [Node.withoutReads, Node.relocated, Stmt.relocated, Stmt.relocatedAll_eq,
                colonKept, kept, spanFixed]
          | some exprs =>
              simp only [Node.relocated, Stmt.relocated, Stmt.relocatedAll_eq, Expr.relocatedAll_eq,
                Node.stmt.injEq, Stmt.caseClause.injEq, Option.some.injEq] at fixed
              obtain ⟨spanFixed, exprsFixed, bodyFixed, colonFixed⟩ := fixed
              obtain ⟨colonKept, kept⟩ := ofList colonFixed bodyFixed
              simp [Node.withoutReads, Node.relocated, Stmt.relocated, Stmt.relocatedAll_eq,
                colonKept, kept, spanFixed, exprsFixed]
      | commClause span comm body colon =>
          simp only [Node.relocated, Stmt.relocated, Stmt.relocatedAll_eq, Stmt.relocatedOption_eq,
            Node.stmt.injEq, Stmt.commClause.injEq] at fixed
          obtain ⟨spanFixed, commFixed, bodyFixed, colonFixed⟩ := fixed
          obtain ⟨colonKept, kept⟩ := ofList colonFixed bodyFixed
          simp [Node.withoutReads, Node.relocated, Stmt.relocated, Stmt.relocatedAll_eq,
            colonKept, kept, spanFixed, commFixed]
      | _ => exact fixed
  | _ => exact fixed

/-- A file stays settled when fixes are taken back. -/
theorem IsSettled.reverted (settled : file.IsSettled) (keep : List String) :
    (file.reverted keep).IsSettled := by
  let kept := clamp (file.span.start + 1) (file.span.stop - 1)
  have declsFixed : ∀ item ∈ file.decls, item.relocated kept = item :=
    List.map_inj_left.mp (settled.decls.trans (List.map_id _).symm)
  rw [reverted_eq]
  refine ⟨settled.begins, settled.hasRoom, settled.package, ?_, settled.comments⟩
  simp only [List.map_map]
  refine List.map_congr_left fun item isItem => ?_
  simp only [Function.comp_apply, ← Decl.restored_relocated]
  refine congrArg (Decl.restored keep) (Node.decl.inj ?_)
  have itemFixed : (Node.decl item).relocated kept = .decl item :=
    congrArg Node.decl (declsFixed item isItem)
  have changed := Node.changeAll_fixed (Node.sort_withoutReads file.comments)
    (fun node => node_withoutReads_fixed file.comments) itemFixed
  rw [show Node.decl item = Slot.decl.wrap item from rfl,
    Slot.wrap_changeAll (Node.sort_withoutReads file.comments)] at changed
  exact changed

end File

end GoMend
