import GoMend.Proofs.Tree.Sound

/-!
# Sound trees can be printed

Printing fails only at nodes that stand where they do not belong.  A sound tree has no such node.
-/

namespace GoMend

namespace Layout

/-! ### Printing that succeeds -/

/-- Whether printing succeeds on every page. -/
def Succeeds {α : Type} (printed : Print α) : Prop :=
  ∀ set page, ∃ result, printed set page = .ok result

namespace Succeeds

variable {α β : Type} {printed : Print α} {next : α → Print β}

theorem pure (value : α) : Succeeds (Pure.pure value) :=
  fun _ page => ⟨(value, page), rfl⟩

theorem bind (first : Succeeds printed) (rest : ∀ value, Succeeds (next value)) :
    Succeeds (printed >>= next) := by
  intro set page
  obtain ⟨⟨value, middle⟩, firstOk⟩ := first set page
  obtain ⟨result, restOk⟩ := rest value set middle
  refine ⟨result, ?_⟩
  show (printed set page >>= fun pair => next pair.1 set pair.2) = .ok result
  rw [firstOk]
  exact restOk

theorem get : Succeeds (MonadState.get : Print Page) :=
  fun _ page => ⟨(page, page), rfl⟩

theorem read : Succeeds (MonadReader.read : Print (Option FileSet)) :=
  fun set page => ⟨(set, page), rfl⟩

theorem modify (change : Page → Page) : Succeeds (MonadState.modifyGet fun page => ((), change page)) :=
  fun _ page => ⟨((), change page), rfl⟩

theorem ite {condition : Prop} [Decidable condition] {first second : Print α}
    (firstOk : condition → Succeeds first) (secondOk : ¬ condition → Succeeds second) :
    Succeeds (if condition then first else second) := by
  split
  · rename_i holds
    exact firstOk holds
  · rename_i fails
    exact secondOk fails

theorem forM {items : List α} {action : α → Print PUnit} (each : ∀ item, Succeeds (action item)) :
    Succeeds (items.forM action) := by
  induction items with
  | nil => exact pure _
  | cons item items ih => exact bind (each item) fun _ => ih

theorem foldlM {items : List α} {step : β → α → Print β} (each : ∀ value item, Succeeds (step value item))
    (start : β) : Succeeds (items.foldlM step start) := by
  induction items generalizing start with
  | nil => exact pure _
  | cons item items ih => exact bind (each start item) fun value => ih value

end Succeeds

/-! ### The page -/

theorem lineOf_succeeds (pos : Pos) : Succeeds (lineOf pos) :=
  .bind .read fun _ => .pure _

theorem emit_succeeds (text : String) : Succeeds (emit text) :=
  .modify _

theorem blankLineBefore_succeeds (line : Nat) : Succeeds (blankLineBefore line) :=
  .bind .get fun _ => .ite (fun _ => .modify _) fun _ => .pure _

theorem finish_succeeds (pos : Pos) : Succeeds (finish pos) :=
  .bind (lineOf_succeeds pos) fun _ => .ite (fun _ => .modify _) fun _ => .pure _

theorem takeComments_succeeds (pos : Pos) : Succeeds (takeComments pos) :=
  .bind .get fun _ => .bind (.modify _) fun _ => .pure _

theorem hasOpenLine_succeeds : Succeeds hasOpenLine :=
  .bind .get fun _ => .pure _

theorem leadingComment_succeeds (comment : Comment) : Succeeds (leadingComment comment) := by
  refine .bind (lineOf_succeeds _) fun line => .bind .get fun page =>
    .bind hasOpenLine_succeeds fun isOpen => ?_
  refine .ite (fun _ => ?_) fun _ => ?_
  · exact .bind (.modify _) fun _ => finish_succeeds _
  · exact .bind (blankLineBefore_succeeds _) fun _ => .bind (emit_succeeds _) fun _ =>
      finish_succeeds _

theorem advance_succeeds (pos : Pos) (separate : Bool) : Succeeds (advance pos separate) := by
  refine .ite (fun _ => .pure _) fun _ => .bind (takeComments_succeeds pos) fun pending => ?_
  have rest : Succeeds (do
      pending.forM leadingComment
      if !pending.isEmpty then
        blankLineBefore (← lineOf pos)) :=
    .bind (.forM leadingComment_succeeds) fun _ =>
      .ite (fun _ => .bind (lineOf_succeeds _) fun _ => blankLineBefore_succeeds _) fun _ => .pure _
  exact .ite (fun _ => .bind (.modify _) fun _ => rest) fun _ =>
    .bind (lineOf_succeeds _) fun _ => .bind (blankLineBefore_succeeds _) fun _ => rest

theorem trailingComment_succeeds (comment : Comment) : Succeeds (trailingComment comment) := by
  refine .bind (lineOf_succeeds _) fun line => .bind .get fun page =>
    .bind hasOpenLine_succeeds fun isOpen => ?_
  have rest : Succeeds (do
      let stopLine ← lineOf comment.span.stop
      modify fun page => { page with lastLine := stopLine }) :=
    .bind (lineOf_succeeds _) fun _ => .modify _
  refine .ite (fun _ => .bind (.modify _) fun _ => rest) fun _ => ?_
  exact .ite (fun _ => .bind (.modify _) fun _ => .bind (emit_succeeds _) fun _ => rest) fun _ =>
    .bind (emit_succeeds _) fun _ => rest

theorem nested_succeeds {α : Type} {inner : Print α} (innerOk : Succeeds inner) :
    Succeeds (nested inner) :=
  .bind (.modify _) fun _ => .bind innerOk fun _ => .bind (.modify _) fun _ => .pure _

theorem capture_succeeds {inner : Print Unit} (innerOk : Succeeds inner) :
    Succeeds (capture inner) :=
  .bind .get fun _ => .bind (.modify _) fun _ => .bind innerOk fun _ => .bind .get fun _ =>
    .bind (.modify _) fun _ => .pure _

theorem addComment_succeeds (rows : Rows) (comment : Comment) : Succeeds (rows.addComment comment) := by
  refine .bind (lineOf_succeeds _) fun line => .bind (lineOf_succeeds _) fun stopLine => ?_
  split
  · exact .ite (fun _ => .pure _) fun _ => .pure _
  · exact .pure _

theorem addComments_succeeds (rows : Rows) (pos : Pos) : Succeeds (rows.addComments pos) :=
  .ite (fun _ => .pure _) fun _ =>
    .bind (takeComments_succeeds pos) fun _ => .foldlM addComment_succeeds _

theorem beforeItem_succeeds (rows : Rows) (pos : Pos) : Succeeds (rows.beforeItem pos) :=
  .bind (addComments_succeeds rows pos) fun _ => .bind (lineOf_succeeds _) fun _ => .pure _

theorem addItem_succeeds (rows : Rows) (cells : List String) (stop : Pos) :
    Succeeds (rows.addItem cells stop) :=
  .bind (lineOf_succeeds _) fun _ => .pure _

theorem close_succeeds (rows : Rows) (stop : Pos) : Succeeds (rows.close stop) :=
  .bind (addComments_succeeds rows stop) fun _ => .pure _

/-! ### Expressions -/

/-- Whether an expression can be printed in every place. -/
def PrintsText (value : Expr) : Prop :=
  ∀ shared prec depth, Succeeds (exprText shared prec depth value)

/-- Whether an expression and the parts that are printed on their own can be printed. -/
structure PrintsExpr (value : Expr) : Prop where
  text : PrintsText value
  pair : ∀ span key inner, value = .keyValue span key inner → PrintsText key ∧ PrintsText inner
  signature : ∀ type, value = .funcType type → Succeeds (signatureText type)

theorem optionText_succeeds {value : Option Expr} (prints : ∀ inner ∈ value, PrintsExpr inner)
    (depth : Nat) : Succeeds (optionText depth value) := by
  cases value with
  | none => exact .pure _
  | some inner => exact (prints inner rfl).text _ _ _

theorem exprTexts_succeeds {values : List Expr} (prints : ∀ value ∈ values, PrintsExpr value)
    (depth : Nat) : Succeeds (exprTexts depth values) := by
  induction values with
  | nil => exact .pure _
  | cons value values ih =>
      obtain ⟨first, others⟩ := List.forall_mem_cons.mp prints
      exact .bind (first.text _ _ _) fun _ => .bind (ih others) fun _ => .pure _

theorem enter_succeeds (state : ElementState) (plan : ElementPlan) (pos : Pos) (line : Nat) :
    Succeeds (state.enter plan pos line) :=
  .ite (fun _ => .pure _) fun _ => .ite (fun _ => .pure _) fun _ =>
    .bind (beforeItem_succeeds _ _) fun _ => .pure _

theorem leave_succeeds (state : ElementState) (cells : List String) (stop : Pos) :
    Succeeds (state.leave cells stop) :=
  .ite (fun _ => .bind (lineOf_succeeds _) fun _ => .pure _) fun _ =>
    .bind (addItem_succeeds _ _ _) fun _ => .pure _

theorem elementRows_succeeds {elems : List Expr} (prints : ∀ elem ∈ elems, PrintsExpr elem)
    (plan : ElementPlan) (state : ElementState) : Succeeds (elementRows plan state elems) := by
  induction elems generalizing state with
  | nil => exact .pure _
  | cons elem elems ih =>
      obtain ⟨first, others⟩ := List.forall_mem_cons.mp prints
      have plain : ∀ (state : ElementState) (isLast : Bool) (suffix : String), Succeeds (do
          let texts := state.group ++ [← exprText none 0 plan.depth elem]
          if isLast then
            state.leave [commas texts ++ suffix] elem.span.stop
          else
            return { state with group := texts }) := fun state isLast suffix =>
        .bind (first.text _ _ _) fun _ => .ite (fun _ => leave_succeeds _ _ _) fun _ => .pure _
      rw [elementRows]
      refine .bind (lineOf_succeeds _) fun line => .bind (enter_succeeds _ _ _ _) fun state =>
        .bind .read fun set => ?_
      cases elem with
      | keyValue span key value =>
          obtain ⟨keyOk, valueOk⟩ := first.pair _ _ _ rfl
          refine .ite (fun _ => ?_) fun _ => .bind (plain _ _ _) fun _ => ih others _
          exact .bind (keyOk _ _ _) fun _ => .bind (valueOk _ _ _) fun _ =>
            .bind (leave_succeeds _ _ _) fun _ => ih others _
      | _ => exact .bind (plain _ _ _) fun _ => ih others _

theorem bracketed_succeeds {brackets : Brackets} {elems : List Expr} {texts : Print (List String)}
    {rows : ElementPlan → ElementState → Print ElementState} (textsOk : Succeeds texts)
    (rowsOk : ∀ plan state, Succeeds (rows plan state)) :
    Succeeds (bracketed brackets elems texts rows) := by
  unfold bracketed
  split
  · exact .pure _
  · refine .bind .read fun set => .ite (fun _ => .bind textsOk fun _ => .pure _) fun _ => ?_
    refine .bind (nested_succeeds ?_) fun _ => .bind .get fun _ => .pure _
    exact .bind (rowsOk _ _) fun _ => .bind (close_succeeds _ _) fun _ => .pure _

theorem paramTexts_succeeds {fields : List Field}
    (prints : ∀ field ∈ fields, PrintsExpr field.type) : Succeeds (paramTexts fields) := by
  induction fields with
  | nil => exact .pure _
  | cons field fields ih =>
      obtain ⟨first, others⟩ := List.forall_mem_cons.mp prints
      obtain ⟨span, names, type, tag⟩ := field
      exact .bind (first.text _ _ _) fun _ => .bind (ih others) fun _ => .pure _

theorem paramsText_succeeds {list : FieldList}
    (prints : ∀ field ∈ list.fields, PrintsExpr field.type) : Succeeds (paramsText list) := by
  obtain ⟨span, fields⟩ := list
  exact .bind (paramTexts_succeeds prints) fun _ => .pure _

theorem signatureText_succeeds {type : FuncType}
    (paramsPrint : ∀ field ∈ type.params.fields, PrintsExpr field.type)
    (resultsPrint : ∀ list ∈ type.results, ∀ field ∈ list.fields, PrintsExpr field.type) :
    Succeeds (signatureText type) := by
  obtain ⟨span, params, results⟩ := type
  have paramsOk := paramsText_succeeds paramsPrint
  cases results with
  | none => exact .bind paramsOk fun _ => .pure _
  | some list =>
      have fieldsPrint := resultsPrint list rfl
      obtain ⟨span, fields⟩ := list
      exact .bind paramsOk fun _ => .bind (paramTexts_succeeds fieldsPrint) fun _ =>
        .ite (fun _ => .pure _) fun _ => .pure _

theorem fieldRows_succeeds {fields : List Field}
    (prints : ∀ field ∈ fields, PrintsExpr field.type) (isStruct : Bool) (rows : Rows) :
    Succeeds (fieldRows isStruct rows fields) := by
  induction fields generalizing rows with
  | nil => exact .pure _
  | cons field fields ih =>
      obtain ⟨first, others⟩ := List.forall_mem_cons.mp prints
      obtain ⟨span, names, type, tag⟩ := field
      have rest : ∀ rows cells, Succeeds (do
          let rows ← Rows.addItem rows cells span.stop
          fieldRows isStruct rows fields) :=
        fun rows cells => .bind (addItem_succeeds _ _ _) fun rows => ih others rows
      rw [fieldRows]
      refine .bind (beforeItem_succeeds _ _) fun rows => ?_
      refine .ite (fun _ => .bind (first.text _ _ _) fun _ => rest _ _) fun _ => ?_
      cases type with
      | funcType method => exact .bind (first.signature _ rfl) fun _ => rest _ _
      | _ => exact .bind (first.text _ _ _) fun _ => rest _ _

theorem fieldBlock_succeeds {list : FieldList}
    (prints : ∀ field ∈ list.fields, PrintsExpr field.type) (keyword : String) (isStruct : Bool) :
    Succeeds (fieldBlock keyword isStruct list) := by
  obtain ⟨span, fields⟩ := list
  refine .ite (fun _ => .pure _) fun _ => ?_
  refine .bind (nested_succeeds ?_) fun _ => .bind .get fun _ => .pure _
  exact .bind (lineOf_succeeds _) fun _ => .bind (fieldRows_succeeds prints _ _) fun _ =>
    close_succeeds _ _

/-! ### Statements -/

/-- Whether a statement can be printed, also as the block of another one. -/
structure PrintsStmt (step : Stmt) : Prop where
  text : ∀ afterElse, Succeeds (stmtText afterElse step)
  block : ∀ body, step = .block body → ∀ head closed, Succeeds (blockLines head closed body)

/-- Whether a statement can be printed in a header. -/
structure PrintsSimple (step : Stmt) : Prop where
  isSimple : isSimple step
  prints : PrintsStmt step

/-- Whether a statement can be printed after an `else`. -/
structure PrintsElse (step : Stmt) : Prop where
  isElseBranch : isElseBranch step
  prints : PrintsStmt step

/-- Whether a clause can be printed before others. -/
def PrintsClause (clause : Stmt) : Prop :=
  ∀ rest, Succeeds (clauseLines rest) → Succeeds (clauseLines (clause :: rest))

theorem emitText_succeeds {printed : Print (Option String)} (printedOk : Succeeds printed) :
    Succeeds (emitText printed) := by
  refine .bind printedOk fun text => ?_
  cases text with
  | none => exact .pure _
  | some text => exact emit_succeeds text

theorem stmtLines_succeeds {stmts : List Stmt} (prints : ∀ step ∈ stmts, PrintsStmt step) :
    Succeeds (stmtLines stmts) := by
  induction stmts with
  | nil => exact .pure _
  | cons step stmts ih =>
      obtain ⟨first, others⟩ := List.forall_mem_cons.mp prints
      refine .ite (fun _ => ?_) fun _ => ih others
      exact .bind (advance_succeeds _ _) fun _ => .bind (emitText_succeeds (first.text _)) fun _ =>
        .bind (finish_succeeds _) fun _ => ih others

theorem staysOnOneLine_succeeds (span : Span) : Succeeds (staysOnOneLine span) :=
  .ite (fun _ => .pure _) fun _ => .bind .get fun _ => .ite (fun _ => .pure _) fun _ =>
    .bind (lineOf_succeeds _) fun _ => .bind (lineOf_succeeds _) fun _ => .pure _

theorem blockLines_succeeds {body : Block} (prints : ∀ step ∈ body.stmts, PrintsStmt step)
    (head : String) (closed : Bool) : Succeeds (blockLines head closed body) := by
  obtain ⟨span, stmts⟩ := body
  have inner : Succeeds (do
      stmtLines stmts
      if span.isPositioned then
        advance (span.stop - 1) false) :=
    .bind (stmtLines_succeeds prints) fun _ => .ite (fun _ => advance_succeeds _ _) fun _ => .pure _
  refine .bind (staysOnOneLine_succeeds _) fun _ => .ite (fun _ => ?_) fun _ => ?_
  · exact .bind (emit_succeeds _) fun _ => finish_succeeds _
  · refine .bind (emit_succeeds _) fun _ => .bind (finish_succeeds _) fun _ =>
      .bind (nested_succeeds inner) fun _ => .ite (fun _ => ?_) fun _ => finish_succeeds _
    exact .bind (emit_succeeds _) fun _ => finish_succeeds _

theorem simpleText_succeeds {step : Stmt} (prints : PrintsSimple step) :
    Succeeds (simpleText step (stmtText false step)) :=
  .ite (fun _ => .bind (prints.prints.text _) fun _ => .pure _)
    fun notSimple => absurd prints.isSimple notSimple

theorem initText_succeeds {init : Option Stmt} (prints : ∀ step ∈ init, PrintsSimple step) :
    Succeeds (initText init) := by
  cases init with
  | none => exact .pure _
  | some step => exact .bind (simpleText_succeeds (prints step rfl)) fun _ => .pure _

theorem caseClause_prints {span : Span} {exprs : Option (List Expr)} {body : List Stmt} {colon : Pos}
    (exprsPrint : ∀ values ∈ exprs, ∀ value ∈ values, PrintsExpr value)
    (bodyPrints : ∀ step ∈ body, PrintsStmt step) :
    PrintsClause (.caseClause span exprs body colon) := by
  intro rest restOk
  have tail : Succeeds (do
      finish (if colon = noPos then span.start else colon)
      nested (stmtLines body)
      clauseLines rest) :=
    .bind (finish_succeeds _) fun _ =>
      .bind (nested_succeeds (stmtLines_succeeds bodyPrints)) fun _ => restOk
  cases exprs with
  | none => exact .bind (advance_succeeds _ _) fun _ => .bind (emit_succeeds _) fun _ => tail
  | some values =>
      exact .bind (advance_succeeds _ _) fun _ =>
        .bind (exprTexts_succeeds (exprsPrint values rfl) _) fun _ =>
          .bind (emit_succeeds _) fun _ => tail

theorem commClause_prints {span : Span} {comm : Option Stmt} {body : List Stmt} {colon : Pos}
    (commPrints : ∀ step ∈ comm, PrintsSimple step)
    (bodyPrints : ∀ step ∈ body, PrintsStmt step) :
    PrintsClause (.commClause span comm body colon) := by
  intro rest restOk
  have tail : Succeeds (do
      finish (if colon = noPos then span.start else colon)
      nested (stmtLines body)
      clauseLines rest) :=
    .bind (finish_succeeds _) fun _ =>
      .bind (nested_succeeds (stmtLines_succeeds bodyPrints)) fun _ => restOk
  cases comm with
  | none => exact .bind (advance_succeeds _ _) fun _ => .bind (emit_succeeds _) fun _ => tail
  | some step =>
      exact .bind (advance_succeeds _ _) fun _ =>
        .bind (simpleText_succeeds (commPrints step rfl)) fun _ =>
          .bind (emit_succeeds _) fun _ => tail

theorem clauseLines_succeeds {clauses : List Stmt} (prints : ∀ clause ∈ clauses, PrintsClause clause) :
    Succeeds (clauseLines clauses) := by
  induction clauses with
  | nil => exact .pure _
  | cons clause clauses ih =>
      obtain ⟨first, others⟩ := List.forall_mem_cons.mp prints
      exact first clauses (ih others)

theorem clauseBlock_succeeds {body : Block} (prints : ∀ clause ∈ body.stmts, PrintsClause clause)
    (head : String) : Succeeds (clauseBlock head body) := by
  obtain ⟨span, clauses⟩ := body
  refine .bind (emit_succeeds _) fun _ => .bind (finish_succeeds _) fun _ =>
    .bind (clauseLines_succeeds prints) fun _ => .ite (fun _ => ?_) fun _ => ?_
  · exact .bind (advance_succeeds _ _) fun _ => .bind (emit_succeeds _) fun _ => finish_succeeds _
  · exact .bind (emit_succeeds _) fun _ => finish_succeeds _

/-! ### Declarations -/

theorem specRows_succeeds {specs : List Spec} {keepType : Bool}
    (prints : ∀ item ∈ specs, ∀ keepType, Succeeds (specCells keepType item)) (rows : Rows) :
    Succeeds (specRows keepType rows specs) := by
  induction specs generalizing rows with
  | nil => exact .pure _
  | cons item specs ih =>
      obtain ⟨first, others⟩ := List.forall_mem_cons.mp prints
      exact .bind (beforeItem_succeeds _ _) fun _ => .bind (first _) fun _ =>
        .bind (addItem_succeeds _ _ _) fun _ => ih others _

theorem genDeclLines_succeeds {item : GenDecl}
    (prints : ∀ spec ∈ item.specs, ∀ keepType, Succeeds (specCells keepType spec))
    (hasItem : item.grouped || 0 < item.specs.length) : Succeeds (genDeclLines item) := by
  obtain ⟨span, tok, specs, grouped⟩ := item
  unfold genDeclLines
  refine .ite (fun _ => ?_) fun notGrouped => ?_
  · refine .bind (emit_succeeds _) fun _ => .bind (finish_succeeds _) fun _ =>
      .bind (nested_succeeds ?_) fun _ => emit_succeeds _
    exact .bind .get fun _ => .bind (specRows_succeeds prints _) fun _ =>
      .bind (close_succeeds _ _) fun _ => .forM emit_succeeds
  · cases specs with
    | nil => simp [notGrouped] at hasItem
    | cons spec specs =>
        exact .bind ((List.forall_mem_cons.mp prints).1 _) fun _ => emit_succeeds _

theorem declList_succeeds {decls : List Decl} (prints : ∀ item ∈ decls, Succeeds (declLines item))
    (prev : Option Token) : Succeeds (declList prev decls) := by
  induction decls generalizing prev with
  | nil => exact .pure _
  | cons item decls ih =>
      obtain ⟨first, others⟩ := List.forall_mem_cons.mp prints
      have tail : ∀ keyword, Succeeds (do
          declLines item
          finish item.span.stop
          declList (some keyword) decls) := fun keyword =>
        .bind first fun _ => .bind (finish_succeeds _) fun _ => ih others _
      exact .ite (fun _ => .bind (advance_succeeds _ _) fun _ => tail _) fun _ =>
        .bind (.modify _) fun _ => tail _

theorem fileLines_succeeds {file : File} (prints : ∀ item ∈ file.decls, Succeeds (declLines item)) :
    Succeeds (fileLines file) :=
  .bind (advance_succeeds _ _) fun _ => .bind (emit_succeeds _) fun _ =>
    .bind (finish_succeeds _) fun _ => .bind (declList_succeeds prints _) fun _ =>
      .bind .get fun _ => .bind (.modify _) fun _ => .forM trailingComment_succeeds

/-! ### Trees -/

/-- Whether a node that plays a role can be printed where it stands. -/
def Prints : Role → Node → Prop
  | _, .expr value => PrintsExpr value
  | _, .field item => PrintsExpr item.type
  | _, .fieldList list => ∀ field ∈ list.fields, PrintsExpr field.type
  | .caseBody, .stmt step | .commBody, .stmt step =>
      ∀ body, step = .block body → ∀ head, Succeeds (clauseBlock head body)
  | .caseClause, .stmt step | .commClause, .stmt step => PrintsClause step
  | .simple, .stmt step | .guard, .stmt step => PrintsSimple step
  | .elseBranch, .stmt step => PrintsElse step
  | _, .stmt step => PrintsStmt step
  | _, .spec item => ∀ keepType, Succeeds (specCells keepType item)
  | _, .decl item => Succeeds (declLines item)
  | _, .file file => Succeeds (fileLines file)
  | _, .comment _ => True

attribute [local simp] Prints

theorem PrintsExpr.of_text {value : Expr} (notPair : ∀ span key inner, value ≠ .keyValue span key inner)
    (notType : ∀ type, value ≠ .funcType type) (text : PrintsText value) : PrintsExpr value :=
  ⟨text, fun _ _ _ isPair => absurd isPair (notPair _ _ _),
    fun _ isType => absurd isType (notType _)⟩

theorem expr_prints {role : Role} {value : Expr}
    (prints : ∀ part ∈ (Node.expr value).parts role, Prints part.1 part.2) : PrintsExpr value := by
  cases value <;>
    simp [Node.parts, Node.children, Node.exprChildren, Node.block, Node.ident, or_imp,
      forall_and] at prints
  case ident name => exact .of_text (by simp) (by simp) fun _ _ _ => .pure _
  case lit literal => exact .of_text (by simp) (by simp) fun _ _ _ => .pure _
  case ellipsis span elem =>
      exact .of_text (by simp) (by simp) fun _ _ _ => .bind (optionText_succeeds prints _) fun _ => .pure _
  case funcLit span type body =>
      obtain ⟨typeOk, bodyOk⟩ := prints
      refine .of_text (by simp) (by simp) fun _ _ _ => ?_
      exact .bind (typeOk.signature _ rfl) fun _ =>
        .bind (capture_succeeds (bodyOk.block body rfl _ _)) fun _ => .pure _
  case composite span type elems =>
      obtain ⟨typeOk, elemsOk⟩ := prints
      refine .of_text (by simp) (by simp) fun _ _ _ => ?_
      have rest : ∀ (typeText : String) (brackets : Brackets), Succeeds (do
          let elemsText ← bracketed brackets elems (exprTexts 1 elems)
            (fun plan state => elementRows plan state elems)
          return typeText ++ elemsText) := fun _ _ =>
        .bind (bracketed_succeeds (exprTexts_succeeds elemsOk _) (elementRows_succeeds elemsOk))
          fun _ => .pure _
      cases type with
      | none =>
          exact rest _ _
      | some type =>
          exact .bind ((typeOk type rfl).text _ _ _) fun _ => rest _ _
  case paren span inner =>
      refine .of_text (by simp) (by simp) fun _ _ _ => ?_
      exact .bind (prints.text _ _ _) fun _ => .pure _
  case selector span operand sel =>
      refine .of_text (by simp) (by simp) fun _ _ _ => ?_
      exact .bind (prints.1.text _ _ _) fun _ => .pure _
  case index span operand index =>
      obtain ⟨operandOk, indexOk⟩ := prints
      refine .of_text (by simp) (by simp) fun _ _ _ => ?_
      exact .bind (operandOk.text _ _ _) fun _ => .bind (indexOk.text _ _ _) fun _ => .pure _
  case slice span operand low high max full =>
      obtain ⟨operandOk, lowOk, highOk, maxOk⟩ := prints
      refine .of_text (by simp) (by simp) fun _ _ _ => ?_
      refine .bind (operandOk.text _ _ _) fun _ => .bind (optionText_succeeds lowOk _) fun _ =>
        .bind (optionText_succeeds highOk _) fun _ => .ite (fun _ => ?_) fun _ => .pure _
      exact .bind (optionText_succeeds maxOk _) fun _ => .pure _
  case typeAssert span operand type =>
      obtain ⟨operandOk, typeOk⟩ := prints
      refine .of_text (by simp) (by simp) fun _ _ _ => ?_
      cases type with
      | none =>
          exact .bind (.pure _) fun _ => .bind (operandOk.text _ _ _) fun _ => .pure _
      | some type =>
          exact .bind ((typeOk type rfl).text _ _ _) fun _ =>
            .bind (operandOk.text _ _ _) fun _ => .pure _
  case call span callee args spread =>
      obtain ⟨calleeOk, argsOk⟩ := prints
      refine .of_text (by simp) (by simp) fun _ _ _ => ?_
      refine .bind (calleeOk.text _ _ _) fun _ => .bind (bracketed_succeeds ?_ ?_) fun _ => .pure _
      · exact exprTexts_succeeds argsOk _
      · exact elementRows_succeeds argsOk
  case star span operand =>
      refine .of_text (by simp) (by simp) fun _ _ _ => ?_
      exact .bind (prints.text _ _ _) fun _ => .pure _
  case unary span op operand =>
      refine .of_text (by simp) (by simp) fun _ _ _ => ?_
      exact .bind (prints.text _ _ _) fun _ => .pure _
  case binary span left op right =>
      obtain ⟨leftOk, rightOk⟩ := prints
      refine .of_text (by simp) (by simp) fun _ _ _ => ?_
      exact .bind (leftOk.text _ _ _) fun _ => .bind (rightOk.text _ _ _) fun _ => .pure _
  case keyValue span key value =>
      obtain ⟨keyOk, valueOk⟩ := prints
      refine ⟨fun _ _ _ => ?_, ?_, by simp⟩
      · exact .bind (keyOk.text _ _ _) fun _ => .bind (valueOk.text _ _ _) fun _ => .pure _
      · rintro _ _ _ ⟨⟩
        exact ⟨keyOk.text, valueOk.text⟩
  case arrayType span length elem =>
      obtain ⟨lengthOk, elemOk⟩ := prints
      refine .of_text (by simp) (by simp) fun _ _ _ => ?_
      exact .bind (optionText_succeeds lengthOk _) fun _ =>
        .bind (elemOk.text _ _ _) fun _ => .pure _
  case structType span fields => exact .of_text (by simp) (by simp) fun _ _ _ => fieldBlock_succeeds prints _ _
  case funcType type =>
      obtain ⟨paramsOk, resultsOk⟩ := prints
      have signatureOk := signatureText_succeeds paramsOk resultsOk
      refine ⟨fun _ _ _ => .bind signatureOk fun _ => .pure _, by simp, ?_⟩
      rintro _ ⟨⟩
      exact signatureOk
  case interfaceType span methods =>
      exact .of_text (by simp) (by simp) fun _ _ _ => fieldBlock_succeeds prints _ _
  case mapType span key value =>
      obtain ⟨keyOk, valueOk⟩ := prints
      refine .of_text (by simp) (by simp) fun _ _ _ => ?_
      exact .bind (keyOk.text _ _ _) fun _ => .bind (valueOk.text _ _ _) fun _ => .pure _
  case chanType span dir elem =>
      refine .of_text (by simp) (by simp) fun _ _ _ => ?_
      exact .bind (prints.text _ _ _) fun _ => .pure _

section Compound

variable {span : Span} {init : Option Stmt} {body : Block} {afterElse : Bool}

theorem labeled_succeeds {label : Ident} {inner : Stmt} (prints : PrintsStmt inner) :
    Succeeds (stmtText afterElse (.labeled span label inner)) := by
  refine .bind (.modify _) fun _ => .bind (finish_succeeds _) fun _ => .ite (fun _ => ?_)
    fun _ => .pure _
  exact .bind (advance_succeeds _ _) fun _ =>
    .bind (emitText_succeeds (prints.text _)) fun _ => .pure _

theorem ifElse_succeeds {cond : Expr} {otherwise : Option Stmt}
    (initOk : ∀ step ∈ init, PrintsSimple step) (condOk : PrintsExpr cond)
    (bodyOk : PrintsStmt (.block body)) (otherOk : ∀ step ∈ otherwise, PrintsElse step) :
    Succeeds (stmtText afterElse (.ifElse span init cond body otherwise)) := by
  cases otherwise with
  | none =>
      exact .bind (initText_succeeds initOk) fun _ => .bind (condOk.text _ _ _) fun _ =>
        .bind (bodyOk.block body rfl _ _) fun _ => .pure _
  | some branch =>
      obtain ⟨isElse, branchOk⟩ := otherOk branch rfl
      exact .bind (initText_succeeds initOk) fun _ => .bind (condOk.text _ _ _) fun _ =>
        .bind (bodyOk.block body rfl _ _) fun _ =>
          .ite (fun _ => branchOk.text _) fun notElse => absurd isElse notElse

theorem switch_succeeds {tag : Option Expr} (initOk : ∀ step ∈ init, PrintsSimple step)
    (tagOk : ∀ value ∈ tag, PrintsExpr value) (bodyOk : ∀ head, Succeeds (clauseBlock head body)) :
    Succeeds (stmtText afterElse (.switch span init tag body)) := by
  cases tag with
  | none =>
      exact .bind (initText_succeeds initOk) fun _ => .bind (.pure _) fun _ =>
        .bind (bodyOk _) fun _ => .pure _
  | some tag =>
      exact .bind (initText_succeeds initOk) fun _ => .bind ((tagOk tag rfl).text _ _ _) fun _ =>
        .bind (.pure _) fun _ => .bind (bodyOk _) fun _ => .pure _

theorem typeSwitch_succeeds {guard : Stmt} (initOk : ∀ step ∈ init, PrintsSimple step)
    (guardOk : PrintsSimple guard) (bodyOk : ∀ head, Succeeds (clauseBlock head body)) :
    Succeeds (stmtText afterElse (.typeSwitch span init guard body)) :=
  .bind (initText_succeeds initOk) fun _ => .bind (simpleText_succeeds guardOk) fun _ =>
    .bind (bodyOk _) fun _ => .pure _

theorem loop_succeeds {cond : Option Expr} {post : Option Stmt} {body : Option Block}
    (initOk : ∀ step ∈ init, PrintsSimple step) (condOk : ∀ value ∈ cond, PrintsExpr value)
    (postOk : ∀ step ∈ post, PrintsSimple step)
    (bodyOk : ∀ inner ∈ body, PrintsStmt (.block inner)) :
    Succeeds (stmtText afterElse (.loop span init cond post body)) := by
  cases init <;> cases post <;> cases body <;>
    refine .bind ?_ fun _ => .bind (optionText_succeeds condOk _) fun _ => .bind ?_ fun _ =>
      .bind ?_ fun _ => .pure _
  all_goals first
    | exact .pure _
    | exact emit_succeeds _
    | exact simpleText_succeeds (initOk _ rfl)
    | exact simpleText_succeeds (postOk _ rfl)
    | exact (bodyOk _ rfl).block _ rfl _ _

theorem range_succeeds {key value : Option Expr} {tok : Option Token} {operand : Expr}
    {body : Option Block} {tokPos : Pos} (keyOk : ∀ target ∈ key, PrintsExpr target)
    (valueOk : ∀ target ∈ value, PrintsExpr target) (operandOk : PrintsExpr operand)
    (bodyOk : ∀ inner ∈ body, PrintsStmt (.block inner)) :
    Succeeds (stmtText afterElse (.range span key value tok operand body tokPos)) := by
  cases key with
  | none =>
      cases body <;> refine .bind (.pure _) fun _ => .bind (operandOk.text _ _ _) fun _ =>
        .bind ?_ fun _ => .pure _
      · exact emit_succeeds _
      · exact (bodyOk _ rfl).block _ rfl _ _
  | some key =>
      have keyText := (keyOk key rfl).text none 0 1
      cases value with
      | none =>
          cases body <;> refine .bind keyText fun _ => .bind (.pure _) fun _ => .bind (.pure _)
            fun _ => .bind (operandOk.text _ _ _) fun _ => .bind ?_ fun _ => .pure _
          · exact emit_succeeds _
          · exact (bodyOk _ rfl).block _ rfl _ _
      | some value =>
          have valueText := (valueOk value rfl).text none 0 1
          cases body <;> refine .bind keyText fun _ => .bind valueText fun _ => .bind (.pure _)
            fun _ => .bind (.pure _) fun _ => .bind (operandOk.text _ _ _) fun _ => .bind ?_
              fun _ => .pure _
          · exact emit_succeeds _
          · exact (bodyOk _ rfl).block _ rfl _ _

end Compound

/-- A statement that is no clause. -/
theorem stmt_prints {role : Role} {step : Stmt} (member : role.member = .stmt)
    (notClause : step.isClause = false)
    (prints : ∀ part ∈ (Node.stmt step).parts role, Prints part.1 part.2) : PrintsStmt step := by
  cases step <;>
    simp [Node.parts, Node.children, Node.stmtChildren, Node.block, Node.ident, or_imp,
      forall_and, member] at prints
  case block body =>
      refine ⟨fun _ => .bind (blockLines_succeeds prints _ _) fun _ => .pure _, ?_⟩
      rintro _ ⟨⟩
      exact blockLines_succeeds prints
  case caseClause => exact absurd notClause Bool.noConfusion
  case commClause => exact absurd notClause Bool.noConfusion
  all_goals refine ⟨fun _ => ?_, by simp⟩
  case decl span item => exact .bind prints fun _ => .pure _
  case empty span => exact .pure _
  case labeled span label inner => exact labeled_succeeds prints.2
  case expr span value => exact .bind (prints.text _ _ _) fun _ => .pure _
  case send span channel value =>
      exact .bind (prints.1.text _ _ _) fun _ => .bind (prints.2.text _ _ _) fun _ => .pure _
  case incDec span operand tok => exact .bind (prints.text _ _ _) fun _ => .pure _
  case assign span lhs tok rhs tokPos =>
      exact .bind (exprTexts_succeeds prints.1 _) fun _ =>
        .bind (exprTexts_succeeds prints.2 _) fun _ => .pure _
  case go span call => exact .bind (prints.text _ _ _) fun _ => .pure _
  case defer span call => exact .bind (prints.text _ _ _) fun _ => .pure _
  case ret span results =>
      exact .ite (fun _ => .pure _) fun _ => .bind (exprTexts_succeeds prints _) fun _ => .pure _
  case branch span tok label _ =>
      cases label with
      | none => exact .pure _
      | some label => exact .pure _
  case ifElse span init cond body otherwise =>
      obtain ⟨initOk, condOk, bodyOk, otherOk⟩ := prints
      exact ifElse_succeeds initOk condOk bodyOk otherOk
  case switch span init tag body =>
      obtain ⟨initOk, tagOk, bodyOk⟩ := prints
      exact switch_succeeds initOk tagOk bodyOk
  case typeSwitch span init guard body =>
      obtain ⟨initOk, guardOk, bodyOk⟩ := prints
      exact typeSwitch_succeeds initOk guardOk bodyOk
  case select span body => exact .bind (prints _) fun _ => .pure _
  case loop span init cond post body =>
      obtain ⟨initOk, condOk, postOk, bodyOk⟩ := prints
      exact loop_succeeds initOk condOk postOk bodyOk
  case range span key value tok operand body tokPos =>
      obtain ⟨keyOk, valueOk, operandOk, bodyOk⟩ := prints
      exact range_succeeds keyOk valueOk operandOk bodyOk

theorem spec_prints {role : Role} {item : Spec}
    (prints : ∀ part ∈ (Node.spec item).parts role, Prints part.1 part.2) (keepType : Bool) :
    Succeeds (specCells keepType item) := by
  cases item <;>
    simp [Node.parts, Node.children, Node.specChildren, Node.ident, Node.lit, or_imp,
      forall_and] at prints
  case importSpec item =>
      rw [specCells]
      split
      · exact .pure _
      · exact .pure _
  case valueSpec span names type values =>
      obtain ⟨-, typeOk, valuesOk⟩ := prints
      rw [specCells]
      have valuesPart : ∀ typeCells, Succeeds (do
          let valueCells ←
            if values.isEmpty then pure [] else do pure ["= " ++ commas (← exprTexts 1 values)]
          return dropEmptyEnd (nameList names :: (typeCells ++ valueCells))) := by
        intro typeCells
        exact .ite (fun _ => .pure _) fun _ => .bind (exprTexts_succeeds valuesOk _) fun _ => .pure _
      exact .ite (fun _ => .bind (optionText_succeeds typeOk _) fun _ => valuesPart _)
        fun _ => valuesPart _
  case typeSpec span name type isAlias =>
      rw [specCells]
      exact .bind (prints.2.text _ _ _) fun _ => .pure _

theorem funcDecl_prints {role : Role} {item : FuncDecl}
    (prints : ∀ part ∈ (Node.decl (.func item)).parts role, Prints part.1 part.2) :
    Succeeds (funcDeclLines item) := by
  obtain ⟨span, recv, name, type, body⟩ := item
  simp [Node.parts, Node.block, Node.ident, or_imp, forall_and] at prints
  obtain ⟨recvOk, -, typeOk, bodyOk⟩ := prints
  have signatureOk := typeOk.signature _ rfl
  cases body with
  | none =>
      cases recv with
      | none => exact .bind (.pure _) fun _ => .bind signatureOk fun _ => emit_succeeds _
      | some recv =>
          exact .bind (paramsText_succeeds (recvOk recv rfl)) fun _ =>
            .bind (.pure _) fun _ => .bind signatureOk fun _ => emit_succeeds _
  | some body =>
      have blockOk := (bodyOk body rfl).block body rfl
      cases recv with
      | none => exact .bind (.pure _) fun _ => .bind signatureOk fun _ => blockOk _ _
      | some recv =>
          exact .bind (paramsText_succeeds (recvOk recv rfl)) fun _ =>
            .bind (.pure _) fun _ => .bind signatureOk fun _ => blockOk _ _

/-- A clause and the body of a `switch` or a `select`. -/
theorem clause_prints {role : Role} {step : Stmt} (admitted : role.admits (.stmt step))
    (prints : ∀ part ∈ (Node.stmt step).parts role, Prints part.1 part.2) :
    (role = .caseClause ∨ role = .commClause → PrintsClause step) ∧
      (role = .caseBody ∨ role = .commBody → ∀ body, step = .block body → ∀ head,
        Succeeds (clauseBlock head body)) := by
  constructor
  · rintro (rfl | rfl) <;> cases step <;> first | exact absurd admitted Bool.false_ne_true | skip
    all_goals
      simp [Node.parts, or_imp, forall_and] at prints
    · obtain ⟨exprsOk, bodyOk⟩ := prints
      refine caseClause_prints ?_ bodyOk
      rintro values rfl
      exact exprsOk
    · exact commClause_prints prints.1 prints.2
  · rintro (rfl | rfl) body rfl head
    all_goals
      simp [Node.parts, Role.member] at prints
      exact clauseBlock_succeeds prints head

theorem stmt_prints_of_admits {role : Role} {step : Stmt} (admitted : role.admits (.stmt step))
    (prints : ∀ part ∈ (Node.stmt step).parts role, Prints part.1 part.2) :
    Prints role (.stmt step) := by
  obtain ⟨clauseOk, bodyOk⟩ := clause_prints admitted prints
  cases role with
  | plain => exact absurd admitted Bool.false_ne_true
  | caseBody => exact bodyOk (.inl rfl)
  | commBody => exact bodyOk (.inr rfl)
  | caseClause => exact clauseOk (.inl rfl)
  | commClause => exact clauseOk (.inr rfl)
  | stmt =>
      simp only [Role.admits, Bool.and_eq_true, Bool.not_eq_true'] at admitted
      exact stmt_prints rfl admitted.1 prints
  | simple =>
      refine ⟨admitted, stmt_prints rfl ?_ prints⟩
      cases step <;> first | rfl | exact absurd admitted Bool.false_ne_true
  | elseBranch =>
      refine ⟨admitted, stmt_prints rfl ?_ prints⟩
      cases step <;> first | rfl | exact absurd admitted Bool.false_ne_true
  | body =>
      refine stmt_prints rfl ?_ prints
      cases step <;> first | rfl | exact absurd admitted Bool.false_ne_true
  | guard =>
      refine ⟨?_, stmt_prints rfl ?_ prints⟩
      all_goals cases step <;> first | rfl | exact absurd admitted Bool.false_ne_true

/-- A sound node can be printed where it stands. -/
theorem sound_prints {role : Role} {node : Node} (sound : Sound role node) : Prints role node := by
  induction sound with
  | read name isWord =>
      refine ⟨fun _ => ?_, nofun⟩
      have namePrints : ∀ name : Ident, PrintsExpr (.ident name) :=
        fun name => .of_text (by simp) (by simp) fun _ _ _ => .pure _
      exact .bind (exprTexts_succeeds (by simp [namePrints]) _) fun _ =>
        .bind (exprTexts_succeeds (by simp [namePrints]) _) fun _ => .pure _
  | blank => exact .of_text (by simp) (by simp) fun _ _ _ => .pure _
  | @placed role node stands parts ih =>
      have admitted := stands.admitted
      cases node with
      | expr value =>
          simp only [Prints]
          exact expr_prints ih
      | field item =>
          simp only [Prints]
          exact ih (.plain, .expr item.type) (by simp [Node.parts, Node.children])
      | fieldList list =>
          simp only [Prints]
          exact fun field mem => ih (.plain, .field field)
            (by simpa [Node.parts, Node.children] using mem)
      | spec item =>
          simp only [Prints]
          exact spec_prints ih
      | decl item =>
          simp only [Prints]
          cases item with
          | gen item =>
              refine genDeclLines_succeeds (fun spec mem => ?_) ?_
              · exact ih (.plain, .spec spec) (by
                  simpa [Node.parts, Node.children, Node.declChildren] using mem)
              · cases role <;> first | exact admitted | exact absurd admitted Bool.false_ne_true
          | func item => exact funcDecl_prints ih
      | file source =>
          simp only [Prints]
          refine fileLines_succeeds fun item mem => ?_
          exact ih (.plain, .decl item) (by simp [Node.parts, Node.children, mem])
      | comment text => simp only [Prints]
      | stmt step => exact stmt_prints_of_admits admitted ih

end Layout

open Layout

/-- A sound file can be printed, with its lines or without them. -/
theorem File.print_of_sound {file : File} (sound : Sound .plain (.file file))
    (set : Option FileSet) : ∃ text, file.print set = .ok text := by
  have prints : Succeeds (fileLines file) := sound_prints sound
  obtain ⟨⟨_, page⟩, linesOk⟩ := prints set
    { comments := file.comments.mergeSort fun first second => first.span.start ≤ second.span.start }
  refine ⟨"\n".intercalate page.lines.reverse ++ "\n", ?_⟩
  simp only [File.print, linesOf, ReaderT.run, StateT.run]
  rw [linesOk]
  rfl

/-- A sound expression can be printed. -/
theorem Node.print_of_sound {value : Expr} (sound : Sound .plain (.expr value)) :
    ∃ text, (Node.expr value).print = .ok text := by
  have prints : PrintsExpr value := sound_prints sound
  obtain ⟨⟨text, page⟩, textOk⟩ := prints.text none 0 1 none {}
  refine ⟨text, ?_⟩
  simp only [Node.print, ReaderT.run, StateT.run]
  rw [textOk]
  rfl

end GoMend
