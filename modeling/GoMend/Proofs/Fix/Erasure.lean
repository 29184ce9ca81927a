import GoMend.Proofs.Fix.Absorb
import GoMend.Proofs.Tree.Statements

/-!
# Lists without discard reads

Removing the discard reads of a list may move the opening of the list and the ends of the statements
that stay.  What is seen of a tree when these are erased does not change, and every list keeps its
other statements in their order.
-/

namespace GoMend

open Node

/-- The list without discard reads. -/
def withoutDiscards (stmts : List Stmt) : List Stmt :=
  stmts.filter fun step => !step.isDiscardRead

namespace Node

/-- A change of nodes that erases discard reads and the positions that move when these are
removed. -/
structure Erases (erase : Node → Node) : Prop where
  sort_eq : ∀ node, (erase node).sort = node.sort
  ident_eq : ∀ name, erase (ident name) = ident name
  isDiscardRead : ∀ step, step.isDiscardRead →
    ∃ other, erase (.stmt step) = .stmt other ∧ other.isDiscardRead
  withStop_eq : ∀ (step : Stmt) stop nodes,
    erase ((Node.stmt (step.withStop stop)).withChildren nodes) =
      erase ((Node.stmt step).withChildren nodes)
  block_eq : ∀ span stmts,
    erase (.stmt (.block ⟨span, stmts⟩)) = .stmt (.block ⟨{}, withoutDiscards stmts⟩)
  case_eq : ∀ span exprs stmts colon, erase (.stmt (.caseClause span exprs stmts colon)) =
    .stmt (.caseClause { span with stop := noPos } exprs (withoutDiscards stmts) noPos)
  comm_eq : ∀ span comm stmts colon, erase (.stmt (.commClause span comm stmts colon)) =
    .stmt (.commClause { span with stop := noPos } comm (withoutDiscards stmts) noPos)

end Node

variable {step : Stmt} {comments : List Comment}

/-! ### Discard reads -/

theorem Stmt.exists_of_isDiscardRead (isRead : step.isDiscardRead) :
    ∃ span left right tokPos,
      step = .assign span [.ident left] .assign [.ident right] tokPos ∧ left.isBlank := by
  unfold isDiscardRead at isRead
  split at isRead
  · exact ⟨_, _, _, _, rfl, isRead⟩
  · cases isRead

theorem Stmt.isDiscardRead_withStop (step : Stmt) (stop : Pos) :
    (step.withStop stop).isDiscardRead = step.isDiscardRead := by
  cases step with
  | assign span lhs tok rhs tokPos =>
      refine Bool.eq_iff_iff.mpr ⟨fun isRead => ?_, fun isRead => ?_⟩
      · obtain ⟨_, left, right, _, same, isBlank⟩ := exists_of_isDiscardRead isRead
        obtain ⟨-, rfl, rfl, rfl, -⟩ := Stmt.assign.inj same
        exact isBlank
      · obtain ⟨_, left, right, _, same, isBlank⟩ := exists_of_isDiscardRead isRead
        obtain ⟨-, rfl, rfl, rfl, -⟩ := Stmt.assign.inj same
        exact isBlank
  | _ => rfl

/-- Changes that leave names alone find the names of an assignment as they are. -/
theorem Node.changeAll_copy {change : Node → Node}
    (keepsName : ∀ name, change (ident name) = ident name) (span : Span) (left right : Ident)
    (tok : Token) (tokPos : Pos) :
    (Node.stmt (.assign span [.ident left] tok [.ident right] tokPos)).changeAll change =
      change (.stmt (.assign span [.ident left] tok [.ident right] tokPos)) := by
  have childrenEq : (Node.stmt (.assign span [.ident left] tok [.ident right] tokPos)).children =
      [ident left, ident right] := rfl
  rw [changeAll_eq, childrenEq, List.map_cons, List.map_cons, changeAll_ident, changeAll_ident,
    keepsName, keepsName]
  rfl

theorem Node.eq_of_withoutReads {node : Node} {span : Span} {lhs rhs : List Expr} {tok : Token}
    {tokPos : Pos} (same : node.withoutReads comments = .stmt (.assign span lhs tok rhs tokPos)) :
    node = .stmt (.assign span lhs tok rhs tokPos) := by
  unfold withoutReads at same
  split at same
  · cases same
  · cases same
  · cases same
  · exact same

theorem Node.ident_of_changeAll {value : Expr} {name : Ident}
    (same : (Node.expr value).changeAll (withoutReads comments) = .expr (.ident name)) :
    value = .ident name := by
  have sortEq := sort_changeAll (sort_withoutReads comments) (.expr value)
  rw [same] at sortEq
  cases value with
  | ident other =>
      rw [show Node.expr (.ident other) = ident other from rfl, changeAll_ident] at same
      exact Node.expr.inj same
  | _ => cases sortEq

/-- Removing discard reads makes no discard read. -/
theorem Node.isDiscardRead_changeAll {new old : Stmt}
    (changed : .stmt new = (Node.stmt old).changeAll (withoutReads comments)) :
    new.isDiscardRead = old.isDiscardRead := by
  refine Bool.eq_iff_iff.mpr ⟨fun isRead => ?_, fun isRead => ?_⟩
  · obtain ⟨span, left, right, tokPos, rfl, isBlank⟩ := Stmt.exists_of_isDiscardRead isRead
    have same := map_sort_changeAll (sort_withoutReads comments) (Node.stmt old).children
    obtain ⟨resembles, childrenEq⟩ := withChildren_resembles same
    rw [changeAll_eq] at changed
    have unchanged : (Node.stmt old).withChildren _ = _ := eq_of_withoutReads changed.symm
    rw [unchanged] at resembles childrenEq
    cases resembles with
    | @assign _ lhs _ _ rhs _ _ sameLeft sameRight =>
        obtain ⟨first, rfl⟩ := List.length_eq_one_iff.mp sameLeft.symm
        obtain ⟨second, rfl⟩ := List.length_eq_one_iff.mp sameRight.symm
        obtain ⟨firstEq, others⟩ := List.cons.inj childrenEq
        obtain ⟨secondEq, -⟩ := List.cons.inj others
        obtain rfl := ident_of_changeAll firstEq.symm
        obtain rfl := ident_of_changeAll secondEq.symm
        exact isBlank
  · obtain ⟨span, left, right, tokPos, rfl, isBlank⟩ := Stmt.exists_of_isDiscardRead isRead
    rw [changeAll_copy fun _ => rfl] at changed
    obtain rfl := Node.stmt.inj changed
    exact isBlank

/-- The statement without the discard reads below it. -/
def Stmt.cleared (comments : List Comment) (step : Stmt) : Stmt :=
  Slot.stmt.changeAll (Node.withoutReads comments) step

theorem Stmt.isDiscardRead_cleared (step : Stmt) :
    (step.cleared comments).isDiscardRead = step.isDiscardRead :=
  Node.isDiscardRead_changeAll (Slot.stmt.wrap_changeAll (sort_withoutReads comments) step).symm

/-! ### One list -/

/-- Of a list, everything but its discard reads remains, as far as their ends do not matter. -/
theorem map_withoutReads {β : Type} {view : Stmt → β}
    (keeps : ∀ step stop, view (step.withStop stop) = view step) (opening : Pos)
    (kept stmts : List Stmt) :
    (withoutReads comments opening kept stmts).2.map view =
      (kept.reverse ++ withoutDiscards stmts).map view := by
  induction stmts generalizing opening kept with
  | nil => simp [withoutReads, withoutDiscards]
  | cons step rest ih =>
      unfold withoutReads
      cases isRead : step.isDiscardRead with
      | false => simp [ih, withoutDiscards, isRead]
      | true =>
          have rest_eq : withoutDiscards (step :: rest) = withoutDiscards rest := by
            simp [withoutDiscards, isRead]
          simp only [Bool.not_true, Bool.false_eq_true, if_false, rest_eq]
          split
          · exact ih ..
          · cases kept with
            | nil => exact ih ..
            | cons last earlier =>
                have view_takeOver : view (last.takeOver comments step.span) = view last := by
                  unfold Stmt.takeOver
                  split
                  · exact keeps ..
                  · rfl
                simp [ih, view_takeOver]

/-- A list without discard reads stays as it is. -/
theorem withoutReads_of_none (opening : Pos) (kept : List Stmt) {stmts : List Stmt}
    (none : ∀ step ∈ stmts, step.isDiscardRead = false) :
    withoutReads comments opening kept stmts = (opening, kept.reverse ++ stmts) := by
  induction stmts generalizing kept with
  | nil => simp [withoutReads]
  | cons step rest ih =>
      obtain ⟨first, others⟩ := List.forall_mem_cons.mp none
      unfold withoutReads
      simp [first, ih _ others]

theorem withoutDiscards_map_cleared (stmts : List Stmt) :
    withoutDiscards (stmts.map (Stmt.cleared comments)) =
      (withoutDiscards stmts).map (Stmt.cleared comments) := by
  rw [withoutDiscards, List.filter_map, withoutDiscards]
  refine congrArg _ (List.filter_congr fun step _ => ?_)
  rw [Function.comp_apply, Stmt.isDiscardRead_cleared]

/-! ### Erased trees -/

namespace Node.Erases

variable {erase : Node → Node} (erases : Erases erase)

include erases

theorem stmt_withStop (step : Stmt) (stop : Pos) :
    Slot.stmt.changeAll erase (step.withStop stop) = Slot.stmt.changeAll erase step := by
  refine Slot.stmt.changeAll_eq ?_
  rw [← Slot.stmt.wrap_changeAll erases.sort_eq, changeAll_eq, changeAll_eq,
    step.children_withStop, erases.withStop_eq]

theorem isDiscardRead_stmt (isRead : step.isDiscardRead) :
    (Slot.stmt.changeAll erase step).isDiscardRead := by
  obtain ⟨span, left, right, tokPos, rfl, -⟩ := Stmt.exists_of_isDiscardRead isRead
  obtain ⟨other, erased, isRead⟩ := erases.isDiscardRead _ isRead
  rwa [Slot.stmt.changeAll_eq ((changeAll_copy erases.ident_eq ..).trans erased)]

theorem withoutDiscards_map (stmts : List Stmt) :
    withoutDiscards ((withoutDiscards stmts).map (Slot.stmt.changeAll erase)) =
      withoutDiscards (stmts.map (Slot.stmt.changeAll erase)) := by
  induction stmts with
  | nil => rfl
  | cons step rest ih =>
      cases isRead : step.isDiscardRead with
      | false =>
          simp only [withoutDiscards, List.filter_cons, List.map_cons, isRead, Bool.not_false,
            if_true] at ih ⊢
          rw [ih]
      | true =>
          simp only [withoutDiscards, List.filter_cons, List.map_cons, isRead,
            erases.isDiscardRead_stmt isRead, Bool.not_true, Bool.false_eq_true, if_false] at ih ⊢
          exact ih

/-- An erased node does not change when the discard reads of its list are removed. -/
theorem changeAll_withoutReads (node : Node) :
    (node.withoutReads comments).changeAll erase = node.changeAll erase := by
  have keepsList (opening : Pos) (stmts : List Stmt) :
      withoutDiscards ((GoMend.withoutReads comments opening [] stmts).2.map
          (Slot.stmt.changeAll erase)) =
        withoutDiscards (stmts.map (Slot.stmt.changeAll erase)) := by
    rw [map_withoutReads erases.stmt_withStop, List.reverse_nil, List.nil_append,
      erases.withoutDiscards_map]
  have keepsSort := erases.sort_eq
  unfold withoutReads
  split
  · next body =>
      obtain ⟨span, stmts⟩ := body
      rw [changeAll_block keepsSort, changeAll_block keepsSort, erases.block_eq, erases.block_eq,
        keepsList]
  · next span exprs body colon =>
      rw [changeAll_caseClause keepsSort, changeAll_caseClause keepsSort, erases.case_eq,
        erases.case_eq, keepsList]
  · next span comm body colon =>
      rw [changeAll_commClause keepsSort, changeAll_commClause keepsSort, erases.comm_eq,
        erases.comm_eq, keepsList]
  · rfl

/-- An erased tree does not change when its discard reads are removed. -/
theorem changeAll_changeAll (comments : List Comment) (node : Node) :
    (node.changeAll (withoutReads comments)).changeAll erase = node.changeAll erase := by
  induction node using induction_children with
  | step node ih =>
      have same := map_sort_changeAll (sort_withoutReads comments) node.children
      obtain ⟨resembles, childrenEq⟩ := withChildren_resembles same
      rw [changeAll_eq (withoutReads comments), erases.changeAll_withoutReads]
      refine changeAll_congr erases.sort_eq resembles ?_
      rw [childrenEq, List.map_map]
      exact List.map_congr_left ih

/-- An erased statement does not change when the discard reads below it are removed. -/
theorem stmt_cleared (step : Stmt) :
    Slot.stmt.changeAll erase (step.cleared comments) = Slot.stmt.changeAll erase step := by
  have cleared : (Node.stmt step).changeAll (withoutReads comments) = .stmt (step.cleared comments) :=
    Slot.stmt.wrap_changeAll (sort_withoutReads comments) step
  have erased := erases.changeAll_changeAll comments (.stmt step)
  rw [cleared] at erased
  exact Slot.stmt.changeAll_eq (erased.trans (Slot.stmt.wrap_changeAll erases.sort_eq step))

end Node.Erases

/-! ### All lists of a tree -/

namespace Node

theorem lists_withStop (step : Stmt) (stop : Pos) :
    (Node.stmt (step.withStop stop)).ownStmts? = (Node.stmt step).ownStmts? ∧
      (Node.stmt (step.withStop stop)).lists = (Node.stmt step).lists := by
  have ownEq : (Node.stmt (step.withStop stop)).ownStmts? = (Node.stmt step).ownStmts? := by
    cases step <;> rfl
  exact ⟨ownEq, by rw [lists_eq, lists_eq, step.children_withStop, ownEq]⟩

theorem lists_of_isDiscardRead (isRead : step.isDiscardRead) : (Node.stmt step).lists = [] := by
  obtain ⟨span, left, right, tokPos, rfl, -⟩ := Stmt.exists_of_isDiscardRead isRead
  exact lists_copy ..

/-- There is no list below a discard read. -/
theorem flatMap_lists_withoutReads (opening : Pos) (stmts : List Stmt) :
    ((GoMend.withoutReads comments opening [] stmts).2.map Node.stmt).flatMap lists =
      (stmts.map Node.stmt).flatMap lists := by
  rw [List.flatMap_map, List.flatMap_map, List.flatMap_def,
    map_withoutReads fun step stop => (lists_withStop step stop).2, List.reverse_nil,
    List.nil_append, ← List.flatMap_def]
  induction stmts with
  | nil => rfl
  | cons step rest ih =>
      cases isRead : step.isDiscardRead with
      | false =>
          simp only [withoutDiscards, List.filter_cons, isRead, Bool.not_false, if_true,
            List.flatMap_cons] at ih ⊢
          rw [ih]
      | true =>
          simp only [withoutDiscards, List.filter_cons, isRead, Bool.not_true, Bool.false_eq_true,
            if_false, List.flatMap_cons, lists_of_isDiscardRead isRead, List.nil_append] at ih ⊢
          exact ih

/-- A node without the discard reads of its own list keeps the other statements of the list, and
all lists below it. -/
theorem lists_withoutReads {β : Type} {view : Stmt → β}
    (keeps : ∀ step stop, view (step.withStop stop) = view step) (node : Node) :
    (node.withoutReads comments).lists.map (List.map view) =
      (node.ownStmts?.toList.map fun stmts => (withoutDiscards stmts).map view) ++
        (node.children.flatMap lists).map (List.map view) := by
  have own (opening : Pos) (stmts : List Stmt) :
      (GoMend.withoutReads comments opening [] stmts).2.map view =
        (withoutDiscards stmts).map view := by
    rw [map_withoutReads keeps, List.reverse_nil, List.nil_append]
  unfold withoutReads
  rw [lists_eq, List.map_append]
  split
  · next body =>
      refine congrArg₂ (· ++ ·) (congrArg ([·]) (own ..)) ?_
      exact congrArg _ (flatMap_lists_withoutReads body.span.start body.stmts)
  · next span exprs body colon =>
      refine congrArg₂ (· ++ ·) (congrArg ([·]) (own ..)) (congrArg _ ?_)
      simp only [children, stmtChildren, List.flatMap_append, flatMap_lists_withoutReads]
  · next span comm body colon =>
      refine congrArg₂ (· ++ ·) (congrArg ([·]) (own ..)) (congrArg _ ?_)
      simp only [children, stmtChildren, List.flatMap_append, flatMap_lists_withoutReads]
  · next notBlock notCase notComm =>
      have noStmts : node.ownStmts? = none := by
        unfold ownStmts?
        split
        · exact absurd rfl (notBlock _)
        · exact absurd rfl (notCase _ _ _ _)
        · exact absurd rfl (notComm _ _ _ _)
        · rfl
      rw [noStmts]
      rfl

/-- The own list of a node that got its children cleared. -/
theorem ownStmts?_withChildren (comments : List Comment) (node : Node) :
    (node.withChildren (node.children.map (changeAll (withoutReads comments)))).ownStmts? =
      node.ownStmts?.map (List.map (Stmt.cleared comments)) := by
  have same := map_sort_changeAll (sort_withoutReads comments) node.children
  obtain ⟨resembles, childrenEq⟩ := withChildren_resembles same
  have related : List.Forall₂ (fun new old : Node => new = old.changeAll (withoutReads comments))
      (node.withChildren (node.children.map (changeAll (withoutReads comments)))).children
      node.children := by
    rw [childrenEq, List.forall₂_map_left_iff]
    exact List.forall₂_same.mpr fun _ _ => rfl
  have ownRelated := resembles.relates_own related
  have isSomeEq := resembles.isSome_ownStmts?
  generalize (node.withChildren _).ownStmts? = new at ownRelated isSomeEq
  cases isOld : node.ownStmts? with
  | none =>
      rw [isOld] at isSomeEq
      exact Option.isSome_eq_false_iff.mp isSomeEq |> Option.isNone_iff_eq_none.mp
  | some olds =>
      rw [isOld] at isSomeEq ownRelated
      obtain ⟨news, rfl⟩ := Option.isSome_iff_exists.mp isSomeEq
      refine congrArg some (List.forall₂_eq_eq_eq ▸ List.forall₂_map_right_iff.mpr ?_)
      refine ownRelated.imp fun step own changed => Node.stmt.inj (changed.trans ?_)
      exact Slot.stmt.wrap_changeAll (sort_withoutReads comments) own

/-- Without its discard reads, a tree has the same lists with their other statements, for every view
of statements that does not see what is removed. -/
theorem lists_changeAll {β : Type} {view : Stmt → β}
    (keeps : ∀ step stop, view (step.withStop stop) = view step)
    (clears : ∀ step : Stmt, view (step.cleared comments) = view step) (node : Node) :
    (node.changeAll (withoutReads comments)).lists.map (List.map view) =
      node.lists.map fun stmts => (withoutDiscards stmts).map view := by
  induction node using induction_children with
  | step node ih =>
      have same := map_sort_changeAll (sort_withoutReads comments) node.children
      rw [changeAll_eq, lists_withoutReads keeps, ownStmts?_withChildren,
        (withChildren_resembles same).2, lists_eq node, List.map_append, List.map_flatMap,
        List.flatMap_map, List.map_flatMap]
      refine congrArg₂ (· ++ ·) ?_ (List.flatMap_congr ih)
      cases node.ownStmts? with
      | none => rfl
      | some stmts =>
          refine congrArg ([·]) ?_
          dsimp only
          rw [withoutDiscards_map_cleared, List.map_map]
          exact List.map_congr_left fun step _ => clears step

/-- A tree whose lists hold no discard reads stays as it is. -/
theorem changeAll_of_none {node : Node}
    (none : ∀ stmts ∈ node.lists, ∀ step ∈ stmts, step.isDiscardRead = false) :
    node.changeAll (withoutReads comments) = node := by
  induction node using induction_children with
  | step node ih =>
      rw [lists_eq] at none
      obtain ⟨ownNone, belowNone⟩ := List.forall_mem_append.mp none
      have sameChildren : node.children.map (changeAll (withoutReads comments)) = node.children :=
        (List.map_congr_left fun child isChild => ih child isChild fun stmts isList =>
          belowNone stmts (List.mem_flatMap.mpr ⟨child, isChild, isList⟩)).trans (List.map_id _)
      rw [changeAll_eq, sameChildren, (Resembles.refl node).withChildren_children]
      unfold withoutReads
      split
      · next body =>
          obtain ⟨span, stmts⟩ := body
          rw [withoutReads_of_none span.start [] (ownNone stmts List.mem_cons_self)]
          rfl
      · next span exprs body colon =>
          rw [withoutReads_of_none colon [] (ownNone body List.mem_cons_self)]
          rfl
      · next span comm body colon =>
          rw [withoutReads_of_none colon [] (ownNone body List.mem_cons_self)]
          rfl
      · rfl

/-- What stays in the lists of a tree stays in their order. -/
theorem map_statements_of_lists {β : Type} {view : Stmt → β} {new old : Node}
    (kept : new.lists.map (List.map view) =
      old.lists.map fun stmts => (withoutDiscards stmts).map view) :
    new.statements.map view = (withoutDiscards old.statements).map view := by
  rw [statements_eq_flatten, statements_eq_flatten, List.map_flatten, kept, withoutDiscards,
    List.filter_flatten, List.map_flatten, List.map_map]
  rfl

end Node

/-! ### Statements that stay -/

namespace Node

/-- The node without the discard reads of its list, and without the positions that move when these
are removed. -/
def pared : Node → Node
  | .stmt (.block body) => .stmt (.block ⟨{}, withoutDiscards body.stmts⟩)
  | .stmt (.caseClause span exprs body _) =>
      .stmt (.caseClause { span with stop := noPos } exprs (withoutDiscards body) noPos)
  | .stmt (.commClause span comm body _) =>
      .stmt (.commClause { span with stop := noPos } comm (withoutDiscards body) noPos)
  | .stmt step => .stmt (step.withStop noPos)
  | other => other

theorem pared_erases : Erases pared where
  sort_eq node := by
    cases node with
    | stmt step => cases step <;> rfl
    | _ => rfl
  ident_eq _ := rfl
  isDiscardRead step isRead := by
    obtain ⟨span, left, right, tokPos, rfl, isBlank⟩ := Stmt.exists_of_isDiscardRead isRead
    exact ⟨_, rfl, isBlank⟩
  withStop_eq step stop nodes := by
    cases step with
    | caseClause span exprs body colon => cases exprs <;> rfl
    | _ => rfl
  block_eq _ _ := rfl
  case_eq _ _ _ _ := rfl
  comm_eq _ _ _ _ := rfl

end Node

/-- The statement without the discard reads in its lists, and without the positions that move when
these are removed. -/
def Stmt.pare (step : Stmt) : Stmt :=
  Slot.stmt.changeAll Node.pared step

/-! ### Files -/

section Files

variable {keep : List String}

theorem Spec.lists_restored (item : Spec) :
    (Node.spec (item.restored keep)).lists = (Node.spec item).lists := by
  cases item with
  | importSpec spec => exact (lists_importSpec _).trans (lists_importSpec _).symm
  | _ => rfl

theorem Decl.lists_restored (item : Decl) :
    (Node.decl (item.restored keep)).lists = (Node.decl item).lists := by
  cases item with
  | func decl => rfl
  | gen decl =>
      rw [lists_eq, lists_eq]
      refine congrArg₂ (· ++ ·) rfl ?_
      simp only [restored, children, declChildren, List.map_map, List.flatMap_map]
      exact List.flatMap_congr fun item _ => item.lists_restored

/-- When fixes are taken back, a file has the same lists with their other statements. -/
theorem File.lists_reverted {β : Type} {view : Stmt → β}
    (keeps : ∀ step stop, view (step.withStop stop) = view step)
    (clears : ∀ comments (step : Stmt), view (step.cleared comments) = view step) (file : File) :
    (Node.file (file.reverted keep)).lists.map (List.map view) =
      (Node.file file).lists.map fun stmts => (withoutDiscards stmts).map view := by
  rw [← lists_changeAll keeps (clears file.comments), changeAll_withoutReads, reverted_eq, lists_eq,
    lists_eq]
  simp only [children, List.flatMap_cons, List.map_map, List.flatMap_map, Function.comp_apply,
    Decl.lists_restored]
  rfl

end Files

end GoMend
