import GoMend.Layout.Render
import GoMend.Proofs.Tree.Relocate

/-!
# Printing trees at different positions

A page does not show positions.  Two trees that differ in their positions only are printed alike if
the positions are seen alike: if they stand on the same lines, and among the comments in the same
way.
-/

namespace GoMend

namespace Layout

/-- Two ways to see the positions of a tree: they are replaced, and looked up in a set of files.
The comments that are still to be printed on one page belong to those on the other one. -/
structure Views where
  place : Pos → Pos
  place' : Pos → Pos
  set : Option FileSet
  set' : Option FileSet
  comments : List Comment → List Comment → Prop

namespace Views

/-- Two pages that look alike. -/
structure Pages (views : Views) (page page' : Page) : Prop where
  lines : page'.lines = page.lines
  indent : page'.indent = page.indent
  comments : views.comments page.comments page'.comments
  lastLine : page'.lastLine = page.lastLine

/-- Outcomes of printing that are alike. -/
inductive Outcomes {α : Type} (views : Views) :
    Except PrintError (α × Page) → Except PrintError (α × Page) → Prop
  | ok {value : α} {page page' : Page} (pages : views.Pages page page') :
      Outcomes views (.ok (value, page)) (.ok (value, page'))
  | error (error : PrintError) : Outcomes views (.error error) (.error error)

/-- What is printed in the first view looks as in the second one. -/
def Alike {α : Type} (views : Views) (first second : Print α) : Prop :=
  ∀ page page', views.Pages page page' → Outcomes views (first views.set page) (second views.set' page')

namespace Alike

variable {views : Views} {α β : Type}

theorem pure (value : α) : views.Alike (Pure.pure value) (Pure.pure value) :=
  fun _ _ pages => .ok pages

theorem throw (error : PrintError) :
    views.Alike (throw error : Print α) (MonadExcept.throw error : Print α) :=
  fun _ _ _ => .error error

theorem bind {first second : Print α} {next next' : α → Print β} (alike : views.Alike first second)
    (nextAlike : ∀ value, views.Alike (next value) (next' value)) :
    views.Alike (first >>= next) (second >>= next') := by
  intro page page' pages
  show Outcomes views (first views.set page >>= fun pair => next pair.1 views.set pair.2)
    (second views.set' page' >>= fun pair => next' pair.1 views.set' pair.2)
  have outcomes := alike page page' pages
  revert outcomes
  generalize first views.set page = outcome, second views.set' page' = outcome'
  rintro (middle | error)
  · exact nextAlike _ _ _ middle
  · exact .error error

/-- What follows the look at the set of files. -/
theorem bind_read {next next' : Option FileSet → Print β}
    (nextAlike : views.Alike (next views.set) (next' views.set')) :
    views.Alike (read >>= next) (read >>= next') :=
  fun page page' pages => nextAlike page page' pages

/-- What follows the look at the page. -/
theorem bind_get {next next' : Page → Print β}
    (nextAlike : ∀ page page', views.Pages page page' → views.Alike (next page) (next' page')) :
    views.Alike (get >>= next) (get >>= next') :=
  fun page page' pages => nextAlike page page' pages page page' pages

theorem modify {change change' : Page → Page}
    (keeps : ∀ page page', views.Pages page page' → views.Pages (change page) (change' page')) :
    views.Alike (modify change : Print PUnit) (MonadState.modifyGet fun page => ((), change' page)) :=
  fun _ _ pages => .ok (keeps _ _ pages)

theorem ite {condition condition' : Prop} [Decidable condition] [Decidable condition']
    {first second first' second' : Print α} (same : condition ↔ condition')
    (firstAlike : condition → views.Alike first first')
    (secondAlike : ¬ condition → views.Alike second second') :
    views.Alike (if condition then first else second) (if condition' then first' else second') := by
  by_cases holds : condition
  · rw [if_pos holds, if_pos (same.mp holds)]
    exact firstAlike holds
  · rw [if_neg holds, if_neg (mt same.mpr holds)]
    exact secondAlike holds

theorem forM {items : List α} {action action' : α → Print PUnit}
    (each : ∀ item, views.Alike (action item) (action' item)) :
    views.Alike (items.forM action) (items.forM action') := by
  induction items with
  | nil => exact .pure _
  | cons item items ih => exact .bind (each item) fun _ => ih

end Alike

/-- The two views agree on everything that printing looks at. -/
structure Agree (views : Views) : Prop where
  line : ∀ pos, lineIn views.set' (views.place' pos) = lineIn views.set (views.place pos)
  lineBefore : ∀ pos,
    lineIn views.set' (views.place' pos - 1) = lineIn views.set (views.place pos - 1)
  colonLine : ∀ start colon,
    lineIn views.set' (if views.place' colon = noPos then views.place' start else views.place' colon) =
      lineIn views.set (if views.place colon = noPos then views.place start else views.place colon)
  advance : ∀ pos, views.Alike (Layout.advance (views.place pos) false)
    (Layout.advance (views.place' pos) false)
  advanceEnd : ∀ span : Span, views.Alike
    (if (span.relocated views.place).isPositioned then
      Layout.advance ((span.relocated views.place).stop - 1) false
    else
      return)
    (if (span.relocated views.place').isPositioned then
      Layout.advance ((span.relocated views.place').stop - 1) false
    else
      return)
  addComments : ∀ (rows : Rows) pos,
    views.Alike (rows.addComments (views.place pos)) (rows.addComments (views.place' pos))
  addCommentsBefore : ∀ (rows : Rows) pos,
    views.Alike (rows.addComments (views.place pos - 1)) (rows.addComments (views.place' pos - 1))
  staysOnOneLine : ∀ span : Span, views.Alike (Layout.staysOnOneLine (span.relocated views.place))
    (Layout.staysOnOneLine (span.relocated views.place'))

end Views

variable {views : Views}

/-! ### The page -/

theorem lineOf_alike {pos pos' : Pos} (same : lineIn views.set' pos' = lineIn views.set pos) :
    views.Alike (lineOf pos) (lineOf pos') :=
  .bind_read (by rw [same]; exact .pure _)

theorem emit_alike (text : String) : views.Alike (emit text) (emit text) := by
  refine .modify fun page page' pages => ?_
  exact ⟨by simp only [pages.indent, pages.lines], pages.indent, pages.comments, pages.lastLine⟩

theorem emitOutdented_alike (text : String) :
    views.Alike (emitOutdented text) (emitOutdented text) := by
  refine .modify fun page page' pages => ?_
  exact ⟨by simp only [pages.indent, pages.lines], pages.indent, pages.comments, pages.lastLine⟩

theorem blankLine_alike : views.Alike blankLine blankLine := by
  refine .modify fun page page' pages => ?_
  simp only [pages.lines]
  cases linesEq : page.lines with
  | nil => exact pages
  | cons last lines =>
      simp only
      split
      · exact pages
      · exact ⟨rfl, pages.indent, pages.comments, pages.lastLine⟩

theorem blankLineBefore_alike (line : Nat) :
    views.Alike (blankLineBefore line) (blankLineBefore line) := by
  refine .bind_get fun page page' pages => ?_
  rw [pages.lastLine]
  exact .ite Iff.rfl (fun _ => blankLine_alike) fun _ => .pure _

theorem finish_alike {pos pos' : Pos} (same : lineIn views.set' pos' = lineIn views.set pos) :
    views.Alike (finish pos) (finish pos') := by
  refine .bind (lineOf_alike same) fun line => .ite Iff.rfl (fun _ => ?_) fun _ => .pure _
  exact .modify fun page page' pages => ⟨pages.lines, pages.indent, pages.comments, rfl⟩

theorem appendToLine_alike (text : String) :
    views.Alike (appendToLine text) (appendToLine text) := by
  refine .modify fun page page' pages => ?_
  simp only [pages.lines]
  cases linesEq : page.lines with
  | nil => exact pages
  | cons last lines => exact ⟨rfl, pages.indent, pages.comments, pages.lastLine⟩

theorem hasOpenLine_alike : views.Alike hasOpenLine hasOpenLine := by
  refine .bind_get fun page page' pages => ?_
  rw [pages.lines]
  exact .pure _

theorem nested_alike {α : Type} {inner inner' : Print α} (alike : views.Alike inner inner') :
    views.Alike (nested inner) (nested inner') := by
  refine .bind (.modify fun page page' pages => ?_) fun _ => .bind alike fun _ =>
    .bind (.modify fun page page' pages => ?_) fun _ => .pure _
  · exact ⟨pages.lines, by rw [pages.indent], pages.comments, pages.lastLine⟩
  · exact ⟨pages.lines, by rw [pages.indent], pages.comments, pages.lastLine⟩

theorem capture_alike {inner inner' : Print Unit} (alike : views.Alike inner inner') :
    views.Alike (capture inner) (capture inner') := by
  refine .bind_get fun saved saved' savedPages => .bind (.modify fun page page' pages => ?_) fun _ =>
    .bind alike fun _ => .bind_get fun captured captured' capturedPages =>
      .bind (.modify fun page page' pages => ?_) fun _ => ?_
  · exact ⟨rfl, pages.indent, pages.comments, pages.lastLine⟩
  · exact ⟨savedPages.lines, pages.indent, pages.comments, pages.lastLine⟩
  · rw [capturedPages.lines]
    exact .pure _

/-! ### Rows -/

theorem beforeItem_alike (agree : views.Agree) (rows : Rows) (pos : Pos) :
    views.Alike (rows.beforeItem (views.place pos)) (rows.beforeItem (views.place' pos)) :=
  .bind (agree.addComments rows pos) fun _ => .bind (lineOf_alike (agree.line pos)) fun _ => .pure _

theorem addItem_alike (agree : views.Agree) (rows : Rows) (cells : List String) (stop : Pos) :
    views.Alike (rows.addItem cells (views.place stop)) (rows.addItem cells (views.place' stop)) :=
  .bind (lineOf_alike (agree.line stop)) fun _ => .pure _

theorem close_alike (agree : views.Agree) (rows : Rows) (stop : Pos) :
    views.Alike (rows.close (views.place stop - 1)) (rows.close (views.place' stop - 1)) :=
  .bind (agree.addCommentsBefore rows stop) fun _ => .pure _

theorem enter_alike (agree : views.Agree) (state : ElementState) (plan : ElementPlan) (pos : Pos)
    (line : Nat) :
    views.Alike (state.enter plan (views.place pos) line) (state.enter plan (views.place' pos) line) :=
  .ite Iff.rfl (fun _ => .pure _) fun _ => .ite Iff.rfl (fun _ => .pure _) fun _ =>
    .bind (beforeItem_alike agree _ pos) fun _ => .pure _

theorem leave_alike (agree : views.Agree) (state : ElementState) (cells : List String) (stop : Pos) :
    views.Alike (state.leave cells (views.place stop)) (state.leave cells (views.place' stop)) :=
  .ite Iff.rfl (fun _ => .bind (lineOf_alike (agree.line stop)) fun _ => .pure _) fun _ =>
    .bind (addItem_alike agree _ _ stop) fun _ => .pure _

/-! ### Forms of expressions -/

section Forms

variable (place : Pos → Pos)

theorem isBinary_relocated (value : Expr) : isBinary (value.relocated place) = isBinary value := by
  cases value <;> rfl

theorem isParen_relocated (value : Expr) : isParen (value.relocated place) = isParen value := by
  cases value <;> rfl

theorem repeatsSign_relocated (op : Token) (value : Expr) :
    repeatsSign op (value.relocated place) = repeatsSign op value := by
  cases value <;> rfl

theorem leftDepth_relocated (value : Expr) (precedence : Nat) :
    leftDepth (value.relocated place) precedence = leftDepth value precedence := by
  cases value <;> rfl

theorem mixture_relocated (least : Nat) (value : Expr) :
    mixture least (value.relocated place) = mixture least value := by
  fun_induction mixture least value with
  | case1 least span left op right isLow => simp [mixture, isLow]
  | case2 least span left op isHigh precedence outer span' left' op' right' ih ihLeft =>
      change mixture op.precedence _ = _ at ih
      change mixture (op.precedence + 1) _ = _ at ihLeft
      rw [Expr.relocated, mixture, if_neg isHigh]
      simp only [ih, ihLeft]
      rfl
  | case3 least span left span' operand isHigh precedence outer ihLeft =>
      change mixture Token.quo.precedence _ = _ at ihLeft
      rw [Expr.relocated, mixture, if_neg isHigh]
      simp only [ihLeft]
      rfl
  | case4 least span left op isHigh precedence outer span' operand notQuo ihLeft =>
      change mixture op.precedence _ = _ at ihLeft
      rw [Expr.relocated, mixture, if_neg isHigh]
      simp only [ihLeft, Expr.relocated, if_neg notQuo]
      rfl
  | case5 least span left op isHigh precedence outer span' unaryOp operand ihLeft =>
      change mixture op.precedence _ = _ at ihLeft
      rw [Expr.relocated, mixture, if_neg isHigh]
      simp only [ihLeft]
      rfl
  | case6 least span left op right isHigh precedence outer notBinary notStar notUnary ihLeft =>
      change mixture op.precedence _ = _ at ihLeft
      rw [Expr.relocated, mixture, if_neg isHigh]
      simp only [ihLeft]
      cases right with
      | binary => exact absurd rfl (notBinary _ _ _ _)
      | star => exact absurd rfl (notStar _ _)
      | unary => exact absurd rfl (notUnary _ _ _)
      | _ => rfl
  | case7 value least notBinary =>
      cases value with
      | binary => exact absurd rfl (notBinary _ _ _ _)
      | _ => rfl

theorem cutoff_relocated (value : Expr) (depth : Nat) :
    cutoff (value.relocated place) depth = cutoff value depth := by
  rw [cutoff, cutoff, mixture_relocated]

theorem nameList_relocated (names : List Ident) :
    nameList (names.map (Ident.relocated place)) = nameList names := by
  rw [nameList, List.map_map]
  rfl

theorem isSingleType_relocated (fields : List Field) :
    isSingleType (fields.map (Field.relocated place)) = isSingleType fields := by
  match fields with
  | [] => rfl
  | [field] => simp [isSingleType]
  | _ :: _ :: _ => rfl

theorem isSimple_relocated (step : Stmt) : isSimple (step.relocated place) = isSimple step := by
  cases step <;> rfl

theorem isElseBranch_relocated (step : Stmt) :
    isElseBranch (step.relocated place) = isElseBranch step := by
  cases step <;> rfl

theorem isEmptyStmt_relocated (step : Stmt) :
    isEmptyStmt (step.relocated place) = isEmptyStmt step := by
  cases step <;> rfl

theorem hasType_relocated (item : Spec) : hasType (item.relocated place) = hasType item := by
  cases item <;> simp [hasType]

theorem declKeyword_relocated (item : Decl) :
    declKeyword (item.relocated place) = declKeyword item := by
  cases item <;> simp [declKeyword]

end Forms

/-! ### Lists in brackets -/

theorem bracketed_alike (agree : views.Agree) {brackets brackets' : Brackets}
    (openLine : lineIn views.set' brackets'.openPos = lineIn views.set brackets.openPos)
    (stop : Pos) (closePos : brackets.closePos = views.place stop - 1)
    (same : brackets' = { brackets with
      openPos := brackets'.openPos
      closePos := views.place' stop - 1 })
    (elems : List Expr) {texts texts' : Print (List String)} (textsAlike : views.Alike texts texts')
    {rows rows' : ElementPlan → ElementState → Print ElementState}
    (rowsAlike : ∀ plan state, views.Alike (rows plan state) (rows' plan state)) :
    views.Alike (bracketed brackets (elems.map (Expr.relocated views.place)) texts rows)
      (bracketed brackets' (elems.map (Expr.relocated views.place')) texts' rows') := by
  obtain ⟨opening, closing, openPos, close, depth, alignKeys, spread⟩ := brackets
  obtain ⟨opening', closing', openPos', close', depth', alignKeys', spread'⟩ := brackets'
  simp only [Brackets.mk.injEq] at same closePos openLine
  obtain ⟨rfl, rfl, -, rfl, rfl, rfl, rfl⟩ := same
  subst closePos
  unfold bracketed
  simp only [List.getLast?_map]
  cases elems.getLast? with
  | none => exact .pure _
  | some last =>
      refine .bind_read ?_
      simp only [List.all_map, Function.comp_def, Expr.span_relocated,
        Span.relocated, agree.line, agree.lineBefore, openLine]
      refine .ite Iff.rfl (fun _ => .bind textsAlike fun _ => .pure _) fun _ => ?_
      refine .bind (nested_alike ?_) fun _ => .bind_get fun page page' pages => ?_
      · exact .bind (rowsAlike _ _) fun state => .bind (close_alike agree _ stop) fun _ => .pure _
      · rw [pages.indent]
        exact .pure _

/-! ### Expressions -/

/-- An expression that is printed alike in every place. -/
def TextAlike (views : Views) (value : Expr) : Prop :=
  ∀ shared prec depth, views.Alike (exprText shared prec depth (value.relocated views.place))
    (exprText shared prec depth (value.relocated views.place'))

/-- An expression that is printed alike, and so are the parts that are printed on their own. -/
structure ExprAlike (views : Views) (value : Expr) : Prop where
  text : TextAlike views value
  pair : ∀ span key inner, value = .keyValue span key inner →
    TextAlike views key ∧ TextAlike views inner
  signature : ∀ type, value = .funcType type →
    views.Alike (signatureText (type.relocated views.place))
      (signatureText (type.relocated views.place'))

/-- Whether an expression has parts that are printed on their own. -/
def hasOwnParts : Expr → Bool
  | .keyValue .. | .funcType _ => true
  | _ => false

theorem ExprAlike.of_text {value : Expr} (noParts : hasOwnParts value = false)
    (text : TextAlike views value) : ExprAlike views value where
  text := text
  pair span key inner isPair := by
    subst isPair
    cases noParts
  signature type isType := by
    subst isType
    cases noParts

theorem optionText_alike {value : Option Expr} (parts : ∀ inner ∈ value, ExprAlike views inner)
    (depth : Nat) :
    views.Alike (optionText depth (value.map (Expr.relocated views.place)))
      (optionText depth (value.map (Expr.relocated views.place'))) := by
  cases value with
  | none => exact .pure _
  | some inner => exact (parts inner rfl).text _ _ _

theorem exprTexts_alike {values : List Expr} (parts : ∀ value ∈ values, ExprAlike views value)
    (depth : Nat) :
    views.Alike (exprTexts depth (values.map (Expr.relocated views.place)))
      (exprTexts depth (values.map (Expr.relocated views.place'))) := by
  induction values with
  | nil => exact .pure _
  | cons value values ih =>
      obtain ⟨first, others⟩ := List.forall_mem_cons.mp parts
      exact .bind (first.text _ _ _) fun _ => .bind (ih others) fun _ => .pure _

theorem elementRows_alike (agree : views.Agree) {elems : List Expr}
    (parts : ∀ elem ∈ elems, ExprAlike views elem) (plan : ElementPlan) (state : ElementState) :
    views.Alike (elementRows plan state (elems.map (Expr.relocated views.place)))
      (elementRows plan state (elems.map (Expr.relocated views.place'))) := by
  induction elems generalizing state with
  | nil => exact .pure _
  | cons elem rest ih =>
      obtain ⟨first, others⟩ := List.forall_mem_cons.mp parts
      have plain (state : ElementState) (isLast : Bool) (suffix : String) : views.Alike
          (do
            let texts := state.group ++ [← exprText none 0 plan.depth (elem.relocated views.place)]
            if isLast then
              state.leave [commas texts ++ suffix] (elem.span.relocated views.place).stop
            else
              return { state with group := texts })
          (do
            let texts := state.group ++ [← exprText none 0 plan.depth (elem.relocated views.place')]
            if isLast then
              state.leave [commas texts ++ suffix] (elem.span.relocated views.place').stop
            else
              return { state with group := texts }) :=
        .bind (first.text _ _ _) fun _ =>
          .ite Iff.rfl (fun _ => leave_alike agree _ _ elem.span.stop) fun _ => .pure _
      rw [List.map_cons, List.map_cons, elementRows, elementRows]
      simp only [Expr.span_relocated, List.isEmpty_map]
      refine .bind (lineOf_alike (agree.line elem.span.start)) fun line =>
        .bind (enter_alike agree state plan elem.span.start line) fun state => .bind_read ?_
      have sameLast : ((rest.map (Expr.relocated views.place')).head?.any fun next =>
            lineIn views.set' next.span.start = line) =
          (rest.map (Expr.relocated views.place)).head?.any fun next =>
            lineIn views.set next.span.start = line := by
        cases rest with
        | nil => rfl
        | cons next rest => simp [Span.relocated, agree.line]
      rw [sameLast]
      cases elem with
      | keyValue span key value =>
          obtain ⟨keyAlike, valueAlike⟩ := first.pair span key value rfl
          refine .ite Iff.rfl (fun _ => ?_) fun _ => .bind (plain state _ _) fun _ => ih others _
          exact .bind (keyAlike _ _ _) fun _ => .bind (valueAlike _ _ _) fun _ =>
            .bind (leave_alike agree _ _ span.stop) fun _ => ih others _
      | _ => exact .bind (plain state _ _) fun _ => ih others _

theorem call_alike (agree : views.Agree) {span : Span} {callee : Expr} {args : List Expr}
    (spread : Bool) (calleeAlike : TextAlike views callee)
    (parts : ∀ arg ∈ args, ExprAlike views arg) : TextAlike views (.call span callee args spread) := by
  intro shared prec depth
  rw [Expr.relocated, Expr.relocated, exprText, exprText]
  simp only [Expr.relocatedAll_eq, List.length_map, Expr.span_relocated]
  refine .bind (calleeAlike none _ _) fun text => ?_
  have rest (text : String) (depth : Nat) : views.Alike
      (do
        let argsText ← bracketed
          { opening := "(", closing := ")", openPos := (callee.span.relocated views.place).stop
            closePos := (span.relocated views.place).stop - 1, depth, spread }
          (args.map (Expr.relocated views.place)) (exprTexts depth (args.map (Expr.relocated views.place)))
          (fun plan state => elementRows plan state (args.map (Expr.relocated views.place)))
        return text ++ argsText)
      (do
        let argsText ← bracketed
          { opening := "(", closing := ")", openPos := (callee.span.relocated views.place').stop
            closePos := (span.relocated views.place').stop - 1, depth, spread }
          (args.map (Expr.relocated views.place')) (exprTexts depth (args.map (Expr.relocated views.place')))
          (fun plan state => elementRows plan state (args.map (Expr.relocated views.place')))
        return text ++ argsText) :=
    .bind (bracketed_alike agree (agree.line callee.span.stop) span.stop rfl rfl args
      (exprTexts_alike parts depth) (elementRows_alike agree parts)) fun _ => .pure _
  cases callee <;> exact rest _ _

theorem composite_alike (agree : views.Agree) {span : Span} {type : Option Expr} {elems : List Expr}
    (typeAlike : ∀ value ∈ type, ExprAlike views value)
    (parts : ∀ elem ∈ elems, ExprAlike views elem) : TextAlike views (.composite span type elems) := by
  intro shared prec depth
  simp only [Expr.relocated, Expr.relocatedAll_eq]
  cases type with
  | none =>
      exact .bind (.pure _) fun _ => .bind (bracketed_alike agree (agree.line span.start)
        span.stop rfl rfl elems (exprTexts_alike parts 1)
        (elementRows_alike agree parts)) fun _ => .pure _
  | some type =>
      have openLine := agree.line type.span.stop
      refine .bind ((typeAlike type rfl).text none _ _) fun _ => .bind (bracketed_alike agree ?_
        span.stop rfl rfl elems (exprTexts_alike parts 1)
        (elementRows_alike agree parts)) fun _ => .pure _
      simpa [Span.relocated] using openLine

theorem binary_alike {span : Span} {left right : Expr} (op : Token)
    (leftAlike : TextAlike views left) (rightAlike : TextAlike views right) :
    TextAlike views (.binary span left op right) := by
  intro shared prec depth
  have same (place : Pos → Pos) := cutoff_relocated place (.binary span left op right)
  simp only [Expr.relocated] at same
  rw [Expr.relocated, Expr.relocated, exprText, exprText]
  simp only [same, leftDepth_relocated]
  exact .bind (leftAlike _ _ _) fun _ => .bind (rightAlike _ _ _) fun _ => .pure _

theorem unary_alike {span : Span} {operand : Expr} (op : Token)
    (operandAlike : TextAlike views operand) : TextAlike views (.unary span op operand) := by
  intro shared prec depth
  refine .bind (operandAlike none _ _) fun text => ?_
  rw [repeatsSign_relocated, repeatsSign_relocated]
  exact .pure _

theorem paren_alike {span : Span} {inner : Expr} (innerAlike : TextAlike views inner) :
    TextAlike views (.paren span inner) := by
  intro shared prec depth
  rw [Expr.relocated, Expr.relocated, exprText, exprText]
  simp only [isParen_relocated]
  exact .bind (innerAlike none _ _) fun _ => .pure _

theorem typeAssert_alike {span : Span} {operand : Expr} {type : Option Expr}
    (operandAlike : TextAlike views operand) (typeAlike : ∀ value ∈ type, ExprAlike views value) :
    TextAlike views (.typeAssert span operand type) := by
  intro shared prec depth
  cases type with
  | none => exact .bind (.pure _) fun _ => .bind (operandAlike none _ _) fun _ => .pure _
  | some type =>
      exact .bind ((typeAlike type rfl).text none _ _) fun _ =>
        .bind (operandAlike none _ _) fun _ => .pure _

theorem ellipsis_alike {span : Span} {elem : Option Expr}
    (elemAlike : ∀ value ∈ elem, ExprAlike views value) : TextAlike views (.ellipsis span elem) := by
  intro shared prec depth
  simp only [Expr.relocated, Expr.relocatedOption_eq]
  exact .bind (optionText_alike elemAlike 1) fun _ => .pure _

theorem arrayType_alike {span : Span} {length : Option Expr} {elem : Expr}
    (lengthAlike : ∀ value ∈ length, ExprAlike views value) (elemAlike : TextAlike views elem) :
    TextAlike views (.arrayType span length elem) := by
  intro shared prec depth
  simp only [Expr.relocated, Expr.relocatedOption_eq]
  exact .bind (optionText_alike lengthAlike 1) fun _ => .bind (elemAlike _ _ _) fun _ => .pure _

theorem keyValue_alike {span : Span} {key value : Expr} (keyAlike : TextAlike views key)
    (valueAlike : TextAlike views value) : ExprAlike views (.keyValue span key value) where
  text _ _ _ := .bind (keyAlike none _ _) fun _ => .bind (valueAlike none _ _) fun _ => .pure _
  pair span' key' inner isPair := by
    cases isPair
    exact ⟨keyAlike, valueAlike⟩
  signature type isType := by cases isType

theorem funcType_alike {type : FuncType}
    (alike : views.Alike (signatureText (type.relocated views.place))
      (signatureText (type.relocated views.place'))) : ExprAlike views (.funcType type) where
  text _ _ _ := .bind alike fun _ => .pure _
  pair span key inner isPair := by cases isPair
  signature type' isType := by
    cases isType
    exact alike

theorem slice_alike {span : Span} {operand : Expr} {low high max : Option Expr} (full : Bool)
    (operandAlike : TextAlike views operand)
    (lowAlike : ∀ value ∈ low, ExprAlike views value)
    (highAlike : ∀ value ∈ high, ExprAlike views value)
    (maxAlike : ∀ value ∈ max, ExprAlike views value) :
    TextAlike views (.slice span operand low high max full) := by
  intro shared prec depth
  have isSome (place : Pos → Pos) (part : Option Expr) :
      (part.map (Expr.relocated place)).isSome = part.isSome := Option.isSome_map
  have present (place : Pos → Pos) :
      [low.map (Expr.relocated place), high.map (Expr.relocated place),
        if full then max.map (Expr.relocated place) else none].filterMap id =
      ([low, high, if full then max else none].filterMap id).map (Expr.relocated place) := by
    cases low <;> cases high <;> cases max <;> cases full <;> rfl
  have anyBinary (place : Pos → Pos) (values : List Expr) :
      (values.map (Expr.relocated place)).any isBinary = values.any isBinary := by
    simp [Function.comp_def, isBinary_relocated]
  rw [Expr.relocated, Expr.relocated, exprText, exprText]
  simp only [Expr.relocatedOption_eq, isSome, present, anyBinary, List.length_map]
  refine .bind (operandAlike none _ _) fun _ =>
    .bind (optionText_alike lowAlike _) fun _ => .bind (optionText_alike highAlike _) fun _ => ?_
  cases full
  · exact .bind (.pure _) fun _ => .pure _
  · exact .bind (optionText_alike maxAlike _) fun _ => .pure _

/-! ### Fields -/

theorem paramTexts_alike {fields : List Field} (parts : ∀ field ∈ fields, ExprAlike views field.type) :
    views.Alike (paramTexts (fields.map (Field.relocated views.place)))
      (paramTexts (fields.map (Field.relocated views.place'))) := by
  induction fields with
  | nil => exact .pure _
  | cons field fields ih =>
      obtain ⟨first, others⟩ := List.forall_mem_cons.mp parts
      obtain ⟨span, names, type, tag⟩ := field
      refine .bind (first.text _ _ _) fun text => ?_
      simp only [nameList_relocated, List.isEmpty_map]
      exact .bind (ih others) fun _ => .pure _

theorem paramsText_alike {list : FieldList}
    (parts : ∀ field ∈ list.fields, ExprAlike views field.type) :
    views.Alike (paramsText (list.relocated views.place))
      (paramsText (list.relocated views.place')) := by
  obtain ⟨span, fields⟩ := list
  simp only [FieldList.relocated, Field.relocatedAll_eq]
  exact .bind (paramTexts_alike parts) fun _ => .pure _

theorem signatureText_alike {type : FuncType}
    (params : ∀ field ∈ type.params.fields, ExprAlike views field.type)
    (results : ∀ list ∈ type.results, ∀ field ∈ list.fields, ExprAlike views field.type) :
    views.Alike (signatureText (type.relocated views.place))
      (signatureText (type.relocated views.place')) := by
  obtain ⟨span, paramList, resultList⟩ := type
  cases resultList with
  | none =>
      rw [FuncType.relocated, FuncType.relocated, signatureText, signatureText]
      exact .bind (paramsText_alike params) fun _ => .pure _
  | some list =>
      obtain ⟨span, fields⟩ := list
      rw [FuncType.relocated, FuncType.relocated, signatureText, signatureText]
      simp only [FieldList.relocated, Field.relocatedAll_eq, List.isEmpty_map, isSingleType_relocated]
      refine .bind (paramsText_alike params) fun _ => ?_
      exact .bind (paramTexts_alike (results _ rfl)) fun _ =>
        .ite Iff.rfl (fun _ => .pure _) fun _ => .pure _

theorem fieldRows_alike (agree : views.Agree) {fields : List Field}
    (parts : ∀ field ∈ fields, ExprAlike views field.type) (isStruct : Bool) (rows : Rows) :
    views.Alike (fieldRows isStruct rows (fields.map (Field.relocated views.place)))
      (fieldRows isStruct rows (fields.map (Field.relocated views.place'))) := by
  induction fields generalizing rows with
  | nil => exact .pure _
  | cons field fields ih =>
      obtain ⟨first, others⟩ := List.forall_mem_cons.mp parts
      obtain ⟨span, names, type, tag⟩ := field
      have rest (rows : Rows) (cells : List String) : views.Alike
          (do
            let rows ← Rows.addItem rows cells (views.place span.stop)
            fieldRows isStruct rows (fields.map (Field.relocated views.place)))
          (do
            let rows ← Rows.addItem rows cells (views.place' span.stop)
            fieldRows isStruct rows (fields.map (Field.relocated views.place'))) :=
        .bind (addItem_alike agree rows cells span.stop) fun rows => ih others rows
      have tagValue (place : Pos → Pos) :
          (tag.map (BasicLit.relocated place)).toList.map (·.value) = tag.toList.map (·.value) := by
        cases tag <;> rfl
      have firstName (place : Pos → Pos) :
          ((names.map (Ident.relocated place)).head?.map (·.name)).getD "func" =
            (names.head?.map (·.name)).getD "func" := by
        cases names <;> rfl
      rw [List.map_cons, List.map_cons, Field.relocated, Field.relocated, fieldRows, fieldRows]
      simp only [nameList_relocated, List.isEmpty_map, tagValue, firstName]
      refine .bind (beforeItem_alike agree rows span.start) fun rows => ?_
      refine .ite Iff.rfl (fun _ => .bind (first.text _ _ _) fun _ => rest _ _) fun _ => ?_
      cases type with
      | funcType method => exact .bind (first.signature method rfl) fun _ => rest _ _
      | _ => exact .bind (first.text _ _ _) fun _ => rest _ _

theorem fieldBlock_alike (agree : views.Agree) {list : FieldList}
    (parts : ∀ field ∈ list.fields, ExprAlike views field.type) (keyword : String)
    (isStruct : Bool) :
    views.Alike (fieldBlock keyword isStruct (list.relocated views.place))
      (fieldBlock keyword isStruct (list.relocated views.place')) := by
  obtain ⟨span, fields⟩ := list
  rw [FieldList.relocated, FieldList.relocated, fieldBlock, fieldBlock]
  simp only [Field.relocatedAll_eq, List.isEmpty_map]
  refine .ite Iff.rfl (fun _ => .pure _) fun _ => .bind (nested_alike ?_) fun lines =>
    .bind_get fun page page' pages => ?_
  · exact .bind (lineOf_alike (agree.line span.start)) fun _ =>
      .bind (fieldRows_alike agree parts isStruct _) fun rows => close_alike agree rows span.stop
  · rw [pages.indent]
    exact .pure _

/-! ### Statements -/

/-- A statement that is printed alike, also as a clause before others. -/
structure StmtAlike (views : Views) (step : Stmt) : Prop where
  text : ∀ afterElse, views.Alike (stmtText afterElse (step.relocated views.place))
    (stmtText afterElse (step.relocated views.place'))
  clause : ∀ rest, views.Alike (clauseLines (rest.map (Stmt.relocated views.place)))
      (clauseLines (rest.map (Stmt.relocated views.place'))) →
    views.Alike (clauseLines ((step :: rest).map (Stmt.relocated views.place)))
      (clauseLines ((step :: rest).map (Stmt.relocated views.place')))

theorem StmtAlike.of_text (agree : views.Agree) {step : Stmt} (notClause : step.isClause = false)
    (text : ∀ afterElse, views.Alike (stmtText afterElse (step.relocated views.place))
      (stmtText afterElse (step.relocated views.place'))) : StmtAlike views step where
  text := text
  clause rest restAlike := by
    have advanced := agree.advance step.span.start
    rw [List.map_cons, List.map_cons, clauseLines, clauseLines, Stmt.span_relocated,
      Stmt.span_relocated]
    refine .bind advanced fun _ => ?_
    cases step with
    | caseClause => cases notClause
    | commClause => cases notClause
    | _ => exact .bind (.throw _) fun _ => restAlike

theorem emitText_alike {printed printed' : Print (Option String)}
    (alike : views.Alike printed printed') : views.Alike (emitText printed) (emitText printed') := by
  refine .bind alike fun text => ?_
  cases text with
  | none => exact .pure _
  | some text => exact emit_alike text

theorem stmtLines_alike (agree : views.Agree) {stmts : List Stmt}
    (parts : ∀ step ∈ stmts, StmtAlike views step) :
    views.Alike (stmtLines (stmts.map (Stmt.relocated views.place)))
      (stmtLines (stmts.map (Stmt.relocated views.place'))) := by
  induction stmts with
  | nil => exact .pure _
  | cons step stmts ih =>
      obtain ⟨first, others⟩ := List.forall_mem_cons.mp parts
      rw [List.map_cons, List.map_cons, stmtLines, stmtLines]
      simp only [isEmptyStmt_relocated, Stmt.span_relocated]
      refine .ite Iff.rfl (fun _ => ?_) fun _ => ih others
      exact .bind (agree.advance step.span.start) fun _ =>
        .bind (emitText_alike (first.text false)) fun _ =>
          .bind (finish_alike (agree.line step.span.stop)) fun _ => ih others

theorem blockLines_alike (agree : views.Agree) {body : Block}
    (parts : ∀ step ∈ body.stmts, StmtAlike views step) (head : String) (closed : Bool) :
    views.Alike (blockLines head closed (body.relocated views.place))
      (blockLines head closed (body.relocated views.place')) := by
  obtain ⟨span, stmts⟩ := body
  rw [Block.relocated, Block.relocated, blockLines, blockLines]
  simp only [Stmt.relocatedAll_eq, List.isEmpty_map]
  refine .bind (agree.staysOnOneLine span) fun stays => .ite Iff.rfl (fun _ => ?_) fun _ => ?_
  · exact .bind (emit_alike _) fun _ => finish_alike (agree.line span.stop)
  · refine .bind (emit_alike _) fun _ => .bind (finish_alike (agree.line span.start)) fun _ =>
      .bind (nested_alike (.bind (stmtLines_alike agree parts) fun _ => agree.advanceEnd span))
        fun _ => .ite Iff.rfl (fun _ => ?_) fun _ => finish_alike (agree.line span.stop)
    exact .bind (emit_alike _) fun _ => finish_alike (agree.line span.stop)

theorem simpleText_alike {step : Stmt} (alike : StmtAlike views step) :
    views.Alike
      (simpleText (step.relocated views.place) (stmtText false (step.relocated views.place)))
      (simpleText (step.relocated views.place') (stmtText false (step.relocated views.place'))) := by
  unfold simpleText
  rw [isSimple_relocated, isSimple_relocated, Stmt.kind_relocated, Stmt.kind_relocated]
  exact .ite Iff.rfl (fun _ => .bind (alike.text false) fun _ => .pure _) fun _ => .throw _

theorem initText_alike {init : Option Stmt} (parts : ∀ step ∈ init, StmtAlike views step) :
    views.Alike (initText (init.map (Stmt.relocated views.place)))
      (initText (init.map (Stmt.relocated views.place'))) := by
  cases init with
  | none => exact .pure _
  | some step => exact .bind (simpleText_alike (parts step rfl)) fun _ => .pure _

theorem caseClause_alike (agree : views.Agree) {span : Span} {exprs : Option (List Expr)}
    {body : List Stmt} {colon : Pos} (values : ∀ list ∈ exprs, ∀ value ∈ list, ExprAlike views value)
    (parts : ∀ step ∈ body, StmtAlike views step) :
    StmtAlike views (.caseClause span exprs body colon) where
  text _ := .throw _
  clause rest restAlike := by
    have tail : views.Alike
        (do
          finish (if views.place colon = noPos then views.place span.start else views.place colon)
          nested (stmtLines (body.map (Stmt.relocated views.place)))
          clauseLines (rest.map (Stmt.relocated views.place)))
        (do
          finish (if views.place' colon = noPos then views.place' span.start else views.place' colon)
          nested (stmtLines (body.map (Stmt.relocated views.place')))
          clauseLines (rest.map (Stmt.relocated views.place'))) :=
      .bind (finish_alike (agree.colonLine span.start colon)) fun _ =>
        .bind (nested_alike (stmtLines_alike agree parts)) fun _ => restAlike
    have advanced := agree.advance span.start
    cases exprs with
    | none =>
        simp only [List.map_cons, Stmt.relocated, Stmt.relocatedAll_eq]
        exact .bind advanced fun _ => .bind (emit_alike _) fun _ => tail
    | some list =>
        simp only [List.map_cons, Stmt.relocated, Stmt.relocatedAll_eq, Expr.relocatedAll_eq]
        exact .bind advanced fun _ => .bind (exprTexts_alike (values list rfl) 1) fun _ =>
          .bind (emit_alike _) fun _ => tail

theorem commClause_alike (agree : views.Agree) {span : Span} {comm : Option Stmt}
    {body : List Stmt} {colon : Pos} (comms : ∀ step ∈ comm, StmtAlike views step)
    (parts : ∀ step ∈ body, StmtAlike views step) :
    StmtAlike views (.commClause span comm body colon) where
  text _ := .throw _
  clause rest restAlike := by
    have tail : views.Alike
        (do
          finish (if views.place colon = noPos then views.place span.start else views.place colon)
          nested (stmtLines (body.map (Stmt.relocated views.place)))
          clauseLines (rest.map (Stmt.relocated views.place)))
        (do
          finish (if views.place' colon = noPos then views.place' span.start else views.place' colon)
          nested (stmtLines (body.map (Stmt.relocated views.place')))
          clauseLines (rest.map (Stmt.relocated views.place'))) :=
      .bind (finish_alike (agree.colonLine span.start colon)) fun _ =>
        .bind (nested_alike (stmtLines_alike agree parts)) fun _ => restAlike
    have advanced := agree.advance span.start
    simp only [List.map_cons, Stmt.relocated, Stmt.relocatedAll_eq, Stmt.relocatedOption_eq]
    cases comm with
    | none => exact .bind advanced fun _ => .bind (emit_alike _) fun _ => tail
    | some step =>
        exact .bind advanced fun _ => .bind (simpleText_alike (comms step rfl)) fun _ =>
          .bind (emit_alike _) fun _ => tail

theorem clauseLines_alike {clauses : List Stmt} (parts : ∀ clause ∈ clauses, StmtAlike views clause) :
    views.Alike (clauseLines (clauses.map (Stmt.relocated views.place)))
      (clauseLines (clauses.map (Stmt.relocated views.place'))) := by
  induction clauses with
  | nil => exact .pure _
  | cons clause clauses ih =>
      obtain ⟨first, others⟩ := List.forall_mem_cons.mp parts
      exact first.clause clauses (ih others)

/-- A part that may be left out is followed by the same. -/
theorem ite_bind {condition : Prop} [Decidable condition] {first : Print PUnit}
    {next : PUnit → Print Unit} :
    (if condition then first >>= next else next ⟨⟩) =
      (if condition then first else return) >>= next := by
  split
  · rfl
  · rfl

theorem clauseBlock_alike (agree : views.Agree) {body : Block}
    (parts : ∀ clause ∈ body.stmts, StmtAlike views clause) (head : String) :
    views.Alike (clauseBlock head (body.relocated views.place))
      (clauseBlock head (body.relocated views.place')) := by
  obtain ⟨span, clauses⟩ := body
  have last : views.Alike
      (do
        emit "\x7d"
        finish (span.relocated views.place).stop)
      (do
        emit "\x7d"
        finish (span.relocated views.place').stop) :=
    .bind (emit_alike _) fun _ => finish_alike (agree.line span.stop)
  rw [Block.relocated, Block.relocated, clauseBlock, clauseBlock]
  simp only [Stmt.relocatedAll_eq]
  refine .bind (emit_alike _) fun _ => .bind (finish_alike (agree.line span.start)) fun _ =>
    .bind (clauseLines_alike parts) fun _ => ?_
  rw [ite_bind, ite_bind]
  exact .bind (agree.advanceEnd span) fun _ => last

theorem ifElse_alike (agree : views.Agree) {span : Span} {init : Option Stmt} {cond : Expr}
    {body : Block} {otherwise : Option Stmt} (inits : ∀ step ∈ init, StmtAlike views step)
    (condAlike : TextAlike views cond) (parts : ∀ step ∈ body.stmts, StmtAlike views step)
    (others : ∀ step ∈ otherwise, StmtAlike views step) (afterElse : Bool) :
    views.Alike (stmtText afterElse ((Stmt.ifElse span init cond body otherwise).relocated views.place))
      (stmtText afterElse ((Stmt.ifElse span init cond body otherwise).relocated views.place')) := by
  simp only [Stmt.relocated, Stmt.relocatedOption_eq]
  cases otherwise with
  | none =>
      exact .bind (initText_alike inits) fun _ => .bind (condAlike _ _ _) fun _ =>
        .bind (blockLines_alike agree parts _ _) fun _ => .pure _
  | some branch =>
      refine .bind (initText_alike inits) fun _ => .bind (condAlike _ _ _) fun _ =>
        .bind (blockLines_alike agree parts _ _) fun _ => ?_
      rw [isElseBranch_relocated, isElseBranch_relocated, Stmt.kind_relocated, Stmt.kind_relocated]
      exact .ite Iff.rfl (fun _ => (others branch rfl).text true) fun _ => .throw _

theorem switch_alike (agree : views.Agree) {span : Span} {init : Option Stmt} {tag : Option Expr}
    {body : Block} (inits : ∀ step ∈ init, StmtAlike views step)
    (tags : ∀ value ∈ tag, ExprAlike views value)
    (parts : ∀ step ∈ body.stmts, StmtAlike views step) (afterElse : Bool) :
    views.Alike (stmtText afterElse ((Stmt.switch span init tag body).relocated views.place))
      (stmtText afterElse ((Stmt.switch span init tag body).relocated views.place')) := by
  simp only [Stmt.relocated, Stmt.relocatedOption_eq, Expr.relocatedOption_eq]
  cases tag with
  | none =>
      exact .bind (initText_alike inits) fun _ => .bind (.pure _) fun _ =>
        .bind (clauseBlock_alike agree parts _) fun _ => .pure _
  | some tag =>
      exact .bind (initText_alike inits) fun _ => .bind ((tags tag rfl).text _ _ _) fun _ =>
        .bind (.pure _) fun _ => .bind (clauseBlock_alike agree parts _) fun _ => .pure _

theorem typeSwitch_alike (agree : views.Agree) {span : Span} {init : Option Stmt} {guard : Stmt}
    {body : Block} (inits : ∀ step ∈ init, StmtAlike views step) (guardAlike : StmtAlike views guard)
    (parts : ∀ step ∈ body.stmts, StmtAlike views step) (afterElse : Bool) :
    views.Alike (stmtText afterElse ((Stmt.typeSwitch span init guard body).relocated views.place))
      (stmtText afterElse ((Stmt.typeSwitch span init guard body).relocated views.place')) := by
  simp only [Stmt.relocated, Stmt.relocatedOption_eq]
  exact .bind (initText_alike inits) fun _ => .bind (simpleText_alike guardAlike) fun _ =>
    .bind (clauseBlock_alike agree parts _) fun _ => .pure _

/-- The text of a part of the header of a loop. -/
def headerText : Option Stmt → Print String
  | none => return ""
  | some step => simpleText step (stmtText false step)

theorem headerText_alike {step : Option Stmt} (parts : ∀ inner ∈ step, StmtAlike views inner) :
    views.Alike (headerText (step.map (Stmt.relocated views.place)))
      (headerText (step.map (Stmt.relocated views.place'))) := by
  cases step with
  | none => exact .pure _
  | some step => exact simpleText_alike (parts step rfl)

/-- The lines of the body of a loop, which may be missing. -/
def bodyLines (head : String) : Option Block → Print (Option String)
  | none => do
      emit (head ++ "\x7b\x7d")
      return none
  | some body => do
      blockLines head true body
      return none

theorem bodyLines_alike (agree : views.Agree) {body : Option Block}
    (parts : ∀ block ∈ body, ∀ step ∈ block.stmts, StmtAlike views step) (head : String) :
    views.Alike (bodyLines head (body.map (Block.relocated views.place)))
      (bodyLines head (body.map (Block.relocated views.place'))) := by
  cases body with
  | none => exact .bind (emit_alike _) fun _ => .pure _
  | some body => exact .bind (blockLines_alike agree (parts body rfl) _ _) fun _ => .pure _

theorem stmtText_loop (afterElse : Bool) (span : Span) (init post : Option Stmt)
    (cond : Option Expr) (body : Option Block) :
    stmtText afterElse (.loop span init cond post body) = (do
      let initPart ← headerText init
      let condPart ← optionText 1 cond
      let postPart ← headerText post
      let head :=
        if init.isSome || post.isSome then
          "for " ++ Text.trimEnd (initPart ++ "; " ++ condPart ++ "; " ++ postPart) ++ " "
        else if cond.isSome then
          "for " ++ condPart ++ " "
        else
          "for "
      bodyLines head body) := by
  cases init <;> cases post <;> cases body <;> rfl

theorem loop_alike (agree : views.Agree) {span : Span} {init post : Option Stmt}
    {cond : Option Expr} {body : Option Block} (inits : ∀ step ∈ init, StmtAlike views step)
    (conds : ∀ value ∈ cond, ExprAlike views value) (posts : ∀ step ∈ post, StmtAlike views step)
    (parts : ∀ block ∈ body, ∀ step ∈ block.stmts, StmtAlike views step) (afterElse : Bool) :
    views.Alike (stmtText afterElse ((Stmt.loop span init cond post body).relocated views.place))
      (stmtText afterElse ((Stmt.loop span init cond post body).relocated views.place')) := by
  simp only [Stmt.relocated, Stmt.relocatedOption_eq, Expr.relocatedOption_eq,
    Block.relocatedOption_eq, stmtText_loop, Option.isSome_map]
  exact .bind (headerText_alike inits) fun _ => .bind (optionText_alike conds 1) fun _ =>
    .bind (headerText_alike posts) fun _ => bodyLines_alike agree parts _

/-- The text of the variables of a loop over a range, and what follows them. -/
def rangeTargets (tok : Option Token) (value : Option Expr) : Option Expr → Print String
  | none => return ""
  | some key => do
      let keyText ← exprText none 0 1 key
      let valueText ←
        match value with
        | none => pure ""
        | some value => do pure (", " ++ (← exprText none 0 1 value))
      return keyText ++ valueText ++ " " ++ (tok.getD .define).text ++ " "

theorem rangeTargets_alike (tok : Option Token) {key value : Option Expr}
    (keys : ∀ inner ∈ key, ExprAlike views inner) (values : ∀ inner ∈ value, ExprAlike views inner) :
    views.Alike
      (rangeTargets tok (value.map (Expr.relocated views.place)) (key.map (Expr.relocated views.place)))
      (rangeTargets tok (value.map (Expr.relocated views.place'))
        (key.map (Expr.relocated views.place'))) := by
  cases key with
  | none => exact .pure _
  | some key =>
      refine .bind ((keys key rfl).text _ _ _) fun _ => ?_
      cases value with
      | none => exact .bind (.pure _) fun _ => .pure _
      | some value =>
          exact .bind ((values value rfl).text _ _ _) fun _ => .bind (.pure _) fun _ => .pure _

theorem stmtText_range (afterElse : Bool) (span : Span) (key value : Option Expr)
    (tok : Option Token) (operand : Expr) (body : Option Block) (tokPos : Pos) :
    stmtText afterElse (.range span key value tok operand body tokPos) = (do
      let targets ← rangeTargets tok value key
      let operandText ← exprText none 0 1 operand
      bodyLines ("for " ++ targets ++ "range " ++ operandText ++ " ") body) := by
  cases key with
  | none => cases body <;> rfl
  | some key =>
      cases value <;> cases body <;> simp only [rangeTargets, bind_assoc, pure_bind] <;> rfl

theorem range_alike (agree : views.Agree) {span : Span} {key value : Option Expr}
    (tok : Option Token) {operand : Expr} {body : Option Block} {tokPos : Pos}
    (keys : ∀ inner ∈ key, ExprAlike views inner) (values : ∀ inner ∈ value, ExprAlike views inner)
    (operandAlike : TextAlike views operand)
    (parts : ∀ block ∈ body, ∀ step ∈ block.stmts, StmtAlike views step) (afterElse : Bool) :
    views.Alike
      (stmtText afterElse ((Stmt.range span key value tok operand body tokPos).relocated views.place))
      (stmtText afterElse
        ((Stmt.range span key value tok operand body tokPos).relocated views.place')) := by
  simp only [Stmt.relocated, Expr.relocatedOption_eq, Block.relocatedOption_eq, stmtText_range]
  exact .bind (rangeTargets_alike tok keys values) fun _ => .bind (operandAlike _ _ _) fun _ =>
    bodyLines_alike agree parts _

theorem labeled_alike (agree : views.Agree) {span : Span} {label : Ident} {inner : Stmt}
    (innerAlike : StmtAlike views inner) (afterElse : Bool) :
    views.Alike (stmtText afterElse ((Stmt.labeled span label inner).relocated views.place))
      (stmtText afterElse ((Stmt.labeled span label inner).relocated views.place')) := by
  refine .bind (emitOutdented_alike _) fun _ => .bind (finish_alike (agree.line label.span.stop))
    fun _ => ?_
  simp only [isEmptyStmt_relocated, Stmt.span_relocated]
  refine .ite Iff.rfl (fun _ => ?_) fun _ => .pure _
  exact .bind (agree.advance inner.span.start) fun _ =>
    .bind (emitText_alike (innerAlike.text false)) fun _ => .pure _

theorem assign_alike {span : Span} {lhs rhs : List Expr} (tok : Token) {tokPos : Pos}
    (targets : ∀ value ∈ lhs, ExprAlike views value)
    (values : ∀ value ∈ rhs, ExprAlike views value) (afterElse : Bool) :
    views.Alike (stmtText afterElse ((Stmt.assign span lhs tok rhs tokPos).relocated views.place))
      (stmtText afterElse ((Stmt.assign span lhs tok rhs tokPos).relocated views.place')) := by
  simp only [Stmt.relocated, Expr.relocatedAll_eq]
  refine .bind (show views.Alike (exprTexts _ _) (exprTexts _ _) from ?_) fun _ =>
    .bind (show views.Alike (exprTexts _ _) (exprTexts _ _) from ?_) fun _ => .pure _
  · simp only [List.length_map]
    exact exprTexts_alike targets _
  · simp only [List.length_map]
    exact exprTexts_alike values _

theorem ret_alike {span : Span} {results : List Expr}
    (parts : ∀ value ∈ results, ExprAlike views value) (afterElse : Bool) :
    views.Alike (stmtText afterElse ((Stmt.ret span results).relocated views.place))
      (stmtText afterElse ((Stmt.ret span results).relocated views.place')) := by
  have texts := exprTexts_alike parts 1
  simp only [Stmt.relocated, Expr.relocatedAll_eq]
  cases results with
  | nil => exact .pure _
  | cons value values => exact .bind texts fun _ => .pure _

theorem branch_alike {span : Span} (tok : Token) {label : Option Ident} (afterElse : Bool) :
    views.Alike (stmtText afterElse ((Stmt.branch span tok label).relocated views.place))
      (stmtText afterElse ((Stmt.branch span tok label).relocated views.place')) := by
  cases label <;> exact .pure _

/-! ### Declarations -/

theorem importCells_alike {item : ImportSpec} (keepType : Bool) :
    views.Alike (specCells keepType ((Spec.importSpec item).relocated views.place))
      (specCells keepType ((Spec.importSpec item).relocated views.place')) := by
  obtain ⟨span, name, path⟩ := item
  cases name <;> exact .pure _

theorem valueCells_alike {span : Span} {names : List Ident} {type : Option Expr}
    {values : List Expr} (typeAlike : ∀ value ∈ type, ExprAlike views value)
    (parts : ∀ value ∈ values, ExprAlike views value) (keepType : Bool) :
    views.Alike (specCells keepType ((Spec.valueSpec span names type values).relocated views.place))
      (specCells keepType ((Spec.valueSpec span names type values).relocated views.place')) := by
  have texts := exprTexts_alike parts 1
  have typeText := optionText_alike typeAlike 1
  have rest (cells : List String) : views.Alike
      (do
        let valueCells ←
          if (values.map (Expr.relocated views.place)).isEmpty then pure []
          else do pure ["= " ++ commas (← exprTexts 1 (values.map (Expr.relocated views.place)))]
        return dropEmptyEnd (nameList names :: (cells ++ valueCells)))
      (do
        let valueCells ←
          if (values.map (Expr.relocated views.place')).isEmpty then pure []
          else do pure ["= " ++ commas (← exprTexts 1 (values.map (Expr.relocated views.place')))]
        return dropEmptyEnd (nameList names :: (cells ++ valueCells))) := by
    cases values with
    | nil => exact .bind (.pure _) fun _ => .pure _
    | cons value values => exact .bind texts fun _ => .bind (.pure _) fun _ => .pure _
  simp only [Spec.relocated, Expr.relocatedOption_eq, Expr.relocatedAll_eq, specCells,
    nameList_relocated]
  cases keepType with
  | true => exact .bind typeText fun _ => .bind (.pure _) rest
  | false => exact .bind (.pure _) rest

theorem specRows_alike (agree : views.Agree) {specs : List Spec} {keepType : Bool}
    (parts : ∀ item ∈ specs, views.Alike (specCells keepType (item.relocated views.place))
      (specCells keepType (item.relocated views.place'))) (rows : Rows) :
    views.Alike (specRows keepType rows (specs.map (Spec.relocated views.place)))
      (specRows keepType rows (specs.map (Spec.relocated views.place'))) := by
  induction specs generalizing rows with
  | nil => exact .pure _
  | cons item specs ih =>
      obtain ⟨first, others⟩ := List.forall_mem_cons.mp parts
      rw [List.map_cons, List.map_cons, specRows, specRows]
      simp only [Spec.span_relocated]
      exact .bind (beforeItem_alike agree rows item.span.start) fun rows => .bind first fun cells =>
        .bind (addItem_alike agree rows cells item.span.stop) fun rows => ih others rows

theorem genDeclLines_alike (agree : views.Agree) {item : GenDecl}
    (parts : ∀ spec ∈ item.specs, ∀ keepType,
      views.Alike (specCells keepType (spec.relocated views.place))
        (specCells keepType (spec.relocated views.place'))) :
    views.Alike (genDeclLines (item.relocated views.place))
      (genDeclLines (item.relocated views.place')) := by
  obtain ⟨span, tok, specs, grouped⟩ := item
  have typed (place : Pos → Pos) (specs : List Spec) :
      (specs.map (Spec.relocated place)).any hasType = specs.any hasType := by
    simp [Function.comp_def, hasType_relocated]
  simp only [GenDecl.relocated, Spec.relocatedAll_eq]
  cases grouped with
  | true =>
      have rowsAlike (prevLine : Nat) : views.Alike
          (do
            let rows ← specRows (specs.any hasType) { prevLine } (specs.map (Spec.relocated views.place))
            (← rows.close (views.place span.stop - 1)).forM emit)
          (do
            let rows ← specRows (specs.any hasType) { prevLine }
              (specs.map (Spec.relocated views.place'))
            (← rows.close (views.place' span.stop - 1)).forM emit) :=
        .bind (specRows_alike agree (fun item mem => parts item mem _) _) fun rows =>
          .bind (close_alike agree rows span.stop) fun lines => .forM emit_alike
      refine .bind (emit_alike _) fun _ => .bind (finish_alike (agree.line span.start)) fun _ =>
        .bind (nested_alike (.bind_get fun page page' pages => ?_)) fun _ => emit_alike _
      rw [pages.lastLine, typed, typed]
      exact rowsAlike _
  | false =>
      cases specs with
      | nil => exact .throw _
      | cons item specs =>
          refine .bind (show views.Alike (specCells _ _) (specCells _ _) from ?_) fun _ => emit_alike _
          rw [typed, typed]
          exact (List.forall_mem_cons.mp parts).1 _

/-! ### Trees

One recursion over the tree, with one theorem for each type of it: an expression holds a block in a
function literal, and a block holds everything else.  A theorem that no other module cites stands for
the nodes between the two. -/

mutual

theorem expr_alike (agree : views.Agree) (value : Expr) : ExprAlike views value :=
  match value with
  | .ident _ => .of_text rfl fun _ _ _ => .pure _
  | .lit _ => .of_text rfl fun _ _ _ => .pure _
  | .binary _ left op right =>
      .of_text rfl (binary_alike op (expr_alike agree left).text (expr_alike agree right).text)
  | .unary _ op operand => .of_text rfl (unary_alike op (expr_alike agree operand).text)
  | .star _ operand =>
      .of_text rfl fun _ _ _ => .bind ((expr_alike agree operand).text none _ _) fun _ => .pure _
  | .paren _ inner => .of_text rfl (paren_alike (expr_alike agree inner).text)
  | .selector _ operand _ =>
      .of_text rfl fun _ _ _ => .bind ((expr_alike agree operand).text none _ _) fun _ => .pure _
  | .typeAssert _ operand type =>
      .of_text rfl (typeAssert_alike (expr_alike agree operand).text (option_alike agree type))
  | .index _ operand index =>
      .of_text rfl fun _ _ _ => .bind ((expr_alike agree operand).text none _ _) fun _ =>
        .bind ((expr_alike agree index).text none _ _) fun _ => .pure _
  | .slice _ operand low high max full =>
      .of_text rfl (slice_alike full (expr_alike agree operand).text (option_alike agree low)
        (option_alike agree high) (option_alike agree max))
  | .call _ callee args spread =>
      .of_text rfl (call_alike agree spread (expr_alike agree callee).text (exprs_alike agree args))
  | .composite _ type elems =>
      .of_text rfl (composite_alike agree (option_alike agree type) (exprs_alike agree elems))
  | .keyValue _ key inner =>
      keyValue_alike (expr_alike agree key).text (expr_alike agree inner).text
  | .funcLit _ type body =>
      .of_text rfl fun _ _ _ => .bind (signature_alike agree type) fun _ =>
        .bind (capture_alike (blockLines_alike agree (block_alike agree body) _ _)) fun _ => .pure _
  | .ellipsis _ elem =>
      .of_text rfl (ellipsis_alike (option_alike agree elem))
  | .arrayType _ length elem =>
      .of_text rfl (arrayType_alike (option_alike agree length) (expr_alike agree elem).text)
  | .mapType _ key inner =>
      .of_text rfl fun _ _ _ => .bind ((expr_alike agree key).text none _ _) fun _ =>
        .bind ((expr_alike agree inner).text none _ _) fun _ => .pure _
  | .chanType _ _ elem =>
      .of_text rfl fun _ _ _ => .bind ((expr_alike agree elem).text none _ _) fun _ => .pure _
  | .funcType type => funcType_alike (signature_alike agree type)
  | .structType _ fields =>
      .of_text rfl fun _ _ _ => fieldBlock_alike agree (fields_alike agree fields) "struct" true
  | .interfaceType _ methods =>
      .of_text rfl fun _ _ _ => fieldBlock_alike agree (fields_alike agree methods) "interface" false
termination_by structural value

theorem option_alike (agree : views.Agree) (value : Option Expr) :
    ∀ inner ∈ value, ExprAlike views inner :=
  match value with
  | none => fun _ mem => absurd mem (Option.not_mem_none _)
  | some value => fun _ mem => Option.mem_some.mp mem ▸ expr_alike agree value
termination_by structural value

theorem exprs_alike (agree : views.Agree) (values : List Expr) :
    ∀ value ∈ values, ExprAlike views value :=
  match values with
  | [] => fun _ mem => absurd mem List.not_mem_nil
  | value :: values =>
      List.forall_mem_cons.mpr ⟨expr_alike agree value, exprs_alike agree values⟩
termination_by structural values

theorem signature_alike (agree : views.Agree) (type : FuncType) :
    views.Alike (signatureText (type.relocated views.place))
      (signatureText (type.relocated views.place')) :=
  match type with
  | ⟨_, params, none⟩ =>
      signatureText_alike (fields_alike agree params) fun _ mem => absurd mem (Option.not_mem_none _)
  | ⟨_, params, some results⟩ =>
      signatureText_alike (fields_alike agree params) fun _ mem =>
        Option.mem_some.mp mem ▸ fields_alike agree results
termination_by structural type

theorem field_alike (agree : views.Agree) (field : Field) : ExprAlike views field.type :=
  match field with
  | ⟨_, _, type, _⟩ => expr_alike agree type
termination_by structural field

theorem fieldList_alike (agree : views.Agree) (fields : List Field) :
    ∀ field ∈ fields, ExprAlike views field.type :=
  match fields with
  | [] => fun _ mem => absurd mem List.not_mem_nil
  | field :: fields =>
      List.forall_mem_cons.mpr ⟨field_alike agree field, fieldList_alike agree fields⟩
termination_by structural fields

theorem fields_alike (agree : views.Agree) (list : FieldList) :
    ∀ field ∈ list.fields, ExprAlike views field.type :=
  match list with
  | ⟨_, fields⟩ => fieldList_alike agree fields
termination_by structural list

theorem stmt_alike (agree : views.Agree) (step : Stmt) : StmtAlike views step :=
  match step with
  | .decl _ item =>
      .of_text agree rfl fun _ =>
        .bind (genDeclLines_alike agree (genDecl_alike agree item)) fun _ => .pure _
  | .empty _ => .of_text agree rfl fun _ => .pure _
  | .labeled _ _ inner => .of_text agree rfl (labeled_alike agree (stmt_alike agree inner))
  | .expr _ value =>
      .of_text agree rfl fun _ => .bind ((expr_alike agree value).text none _ _) fun _ => .pure _
  | .send _ channel value =>
      .of_text agree rfl fun _ => .bind ((expr_alike agree channel).text none _ _) fun _ =>
        .bind ((expr_alike agree value).text none _ _) fun _ => .pure _
  | .incDec _ operand _ =>
      .of_text agree rfl fun _ => .bind ((expr_alike agree operand).text none _ _) fun _ => .pure _
  | .assign _ lhs tok rhs _ =>
      .of_text agree rfl (assign_alike tok (exprs_alike agree lhs) (exprs_alike agree rhs))
  | .go _ call =>
      .of_text agree rfl fun _ => .bind ((expr_alike agree call).text none _ _) fun _ => .pure _
  | .defer _ call =>
      .of_text agree rfl fun _ => .bind ((expr_alike agree call).text none _ _) fun _ => .pure _
  | .ret _ results => .of_text agree rfl (ret_alike (exprs_alike agree results))
  | .branch _ tok _ => .of_text agree rfl (branch_alike tok)
  | .block body =>
      .of_text agree rfl fun _ =>
        .bind (blockLines_alike agree (block_alike agree body) _ _) fun _ => .pure _
  | .ifElse _ init cond body otherwise =>
      .of_text agree rfl (ifElse_alike agree (stmtOption_alike agree init)
        (expr_alike agree cond).text (block_alike agree body) (stmtOption_alike agree otherwise))
  | .caseClause _ none body _ =>
      caseClause_alike agree (fun _ mem => absurd mem (Option.not_mem_none _)) (stmts_alike agree body)
  | .caseClause _ (some exprs) body _ =>
      caseClause_alike agree (fun _ mem => Option.mem_some.mp mem ▸ exprs_alike agree exprs)
        (stmts_alike agree body)
  | .switch _ init tag body =>
      .of_text agree rfl (switch_alike agree (stmtOption_alike agree init) (option_alike agree tag)
        (block_alike agree body))
  | .typeSwitch _ init guard body =>
      .of_text agree rfl (typeSwitch_alike agree (stmtOption_alike agree init)
        (stmt_alike agree guard) (block_alike agree body))
  | .commClause _ comm body _ =>
      commClause_alike agree (stmtOption_alike agree comm) (stmts_alike agree body)
  | .select _ body =>
      .of_text agree rfl fun _ =>
        .bind (clauseBlock_alike agree (block_alike agree body) _) fun _ => .pure _
  | .loop _ init cond post body =>
      .of_text agree rfl (loop_alike agree (stmtOption_alike agree init) (option_alike agree cond)
        (stmtOption_alike agree post) (blockOption_alike agree body))
  | .range _ key value tok operand body _ =>
      .of_text agree rfl (range_alike agree tok (option_alike agree key) (option_alike agree value)
        (expr_alike agree operand).text (blockOption_alike agree body))
termination_by structural step

theorem stmtOption_alike (agree : views.Agree) (step : Option Stmt) :
    ∀ inner ∈ step, StmtAlike views inner :=
  match step with
  | none => fun _ mem => absurd mem (Option.not_mem_none _)
  | some step => fun _ mem => Option.mem_some.mp mem ▸ stmt_alike agree step
termination_by structural step

theorem stmts_alike (agree : views.Agree) (steps : List Stmt) :
    ∀ step ∈ steps, StmtAlike views step :=
  match steps with
  | [] => fun _ mem => absurd mem List.not_mem_nil
  | step :: steps =>
      List.forall_mem_cons.mpr ⟨stmt_alike agree step, stmts_alike agree steps⟩
termination_by structural steps

theorem block_alike (agree : views.Agree) (body : Block) :
    ∀ step ∈ body.stmts, StmtAlike views step :=
  match body with
  | ⟨_, steps⟩ => stmts_alike agree steps
termination_by structural body

theorem blockOption_alike (agree : views.Agree) (body : Option Block) :
    ∀ block ∈ body, ∀ step ∈ block.stmts, StmtAlike views step :=
  match body with
  | none => fun _ mem => absurd mem (Option.not_mem_none _)
  | some body => fun _ mem => Option.mem_some.mp mem ▸ block_alike agree body
termination_by structural body

theorem spec_alike (agree : views.Agree) (item : Spec) (keepType : Bool) :
    views.Alike (specCells keepType (item.relocated views.place))
      (specCells keepType (item.relocated views.place')) :=
  match item with
  | .importSpec _ => importCells_alike keepType
  | .valueSpec _ _ type values =>
      valueCells_alike (option_alike agree type) (exprs_alike agree values) keepType
  | .typeSpec _ _ type _ =>
      .bind ((expr_alike agree type).text none _ _) fun _ => .pure _
termination_by structural item

theorem specs_alike (agree : views.Agree) (items : List Spec) :
    ∀ item ∈ items, ∀ keepType, views.Alike (specCells keepType (item.relocated views.place))
      (specCells keepType (item.relocated views.place')) :=
  match items with
  | [] => fun _ mem => absurd mem List.not_mem_nil
  | item :: items =>
      List.forall_mem_cons.mpr ⟨spec_alike agree item, specs_alike agree items⟩
termination_by structural items

theorem genDecl_alike (agree : views.Agree) (decl : GenDecl) :
    ∀ item ∈ decl.specs, ∀ keepType, views.Alike (specCells keepType (item.relocated views.place))
      (specCells keepType (item.relocated views.place')) :=
  match decl with
  | ⟨_, _, specs, _⟩ => specs_alike agree specs
termination_by structural decl

end

/-! ### Declarations -/

theorem funcDeclLines_alike (agree : views.Agree) (item : FuncDecl) :
    views.Alike (funcDeclLines (item.relocated views.place))
      (funcDeclLines (item.relocated views.place')) := by
  obtain ⟨span, recv, name, type, body⟩ := item
  have rest (recvText : String) : views.Alike
      (do
        let head := "func " ++ recvText ++ name.name ++ (← signatureText (type.relocated views.place))
        match body.map (Block.relocated views.place) with
        | none => emit head
        | some body => blockLines (head ++ " ") true body)
      (do
        let head := "func " ++ recvText ++ name.name ++ (← signatureText (type.relocated views.place'))
        match body.map (Block.relocated views.place') with
        | none => emit head
        | some body => blockLines (head ++ " ") true body) := by
    refine .bind (signature_alike agree type) fun signature => ?_
    cases body with
    | none => exact emit_alike _
    | some body => exact blockLines_alike agree (block_alike agree body) _ _
  cases recv with
  | none => exact .bind (.pure _) rest
  | some recv =>
      exact .bind (paramsText_alike (fields_alike agree recv)) fun text => rest ("(" ++ text ++ ") ")

theorem declLines_alike (agree : views.Agree) (item : Decl) :
    views.Alike (declLines (item.relocated views.place)) (declLines (item.relocated views.place')) := by
  cases item with
  | gen item => exact genDeclLines_alike agree (genDecl_alike agree item)
  | func item => exact funcDeclLines_alike agree item

/-! ### Texts without a set of files -/

/-- Without a set of files and without comments all positions are seen alike. -/
def Views.blind (place : Pos → Pos) : Views where
  place := id
  place' := place
  set := none
  set' := none
  comments first second := first = [] ∧ second = []

section Blind

variable {page : Page} (noComments : page.comments = [])

include noComments

theorem advance_blind (pos : Pos) : advance pos false none page = .ok ((), page) := by
  obtain ⟨lines, indent, comments, lastLine⟩ := page
  obtain rfl : comments = [] := noComments
  unfold advance
  split
  · rfl
  · cases lastLine <;> rfl

theorem addComments_blind (rows : Rows) (pos : Pos) :
    rows.addComments pos none page = .ok (rows, page) := by
  obtain ⟨lines, indent, comments, lastLine⟩ := page
  obtain rfl : comments = [] := noComments
  unfold Rows.addComments
  split <;> rfl

theorem staysOnOneLine_blind (span : Span) : staysOnOneLine span none page = .ok (true, page) := by
  obtain ⟨lines, indent, comments, lastLine⟩ := page
  obtain rfl : comments = [] := noComments
  unfold staysOnOneLine
  split <;> rfl

end Blind

theorem Views.blind_agree (place : Pos → Pos) : (Views.blind place).Agree where
  line _ := rfl
  lineBefore _ := rfl
  colonLine _ _ := rfl
  advance pos page page' pages := by
    show Outcomes _ (Layout.advance _ false none page) (Layout.advance _ false none page')
    rw [advance_blind pages.comments.1, advance_blind pages.comments.2]
    exact .ok pages
  advanceEnd span page page' pages := by
    have skipped (condition : Bool) (pos : Pos) {page : Page} (noComments : page.comments = []) :
        (if condition then Layout.advance pos false else return : Print Unit) none page =
          .ok ((), page) := by
      cases condition
      · rfl
      · exact advance_blind noComments pos
    have first := skipped (span.relocated id).isPositioned ((span.relocated id).stop - 1)
      pages.comments.1
    have second := skipped (span.relocated place).isPositioned ((span.relocated place).stop - 1)
      pages.comments.2
    have alike {outcome outcome' : Except PrintError (Unit × Page)}
        (isPage : outcome = .ok ((), page)) (isPage' : outcome' = .ok ((), page')) :
        (blind place).Outcomes outcome outcome' := by
      rw [isPage, isPage']
      exact .ok pages
    exact alike first second
  addComments rows pos page page' pages := by
    show Outcomes _ (rows.addComments _ none page) (rows.addComments _ none page')
    rw [addComments_blind pages.comments.1, addComments_blind pages.comments.2]
    exact .ok pages
  addCommentsBefore rows pos page page' pages := by
    show Outcomes _ (rows.addComments _ none page) (rows.addComments _ none page')
    rw [addComments_blind pages.comments.1, addComments_blind pages.comments.2]
    exact .ok pages
  staysOnOneLine span page page' pages := by
    show Outcomes _ (Layout.staysOnOneLine _ none page) (Layout.staysOnOneLine _ none page')
    rw [staysOnOneLine_blind pages.comments.1, staysOnOneLine_blind pages.comments.2]
    exact .ok pages

end Layout

/-- The text of an expression does not depend on positions. -/
theorem Node.print_expr_relocated (place : Pos → Pos) (value : Expr) :
    (Node.expr (value.relocated place)).print = (Node.expr value).print := by
  have outcomes := (Layout.expr_alike (Layout.Views.blind_agree place) value).text none 0 1 {} {}
    ⟨rfl, rfl, ⟨rfl, rfl⟩, rfl⟩
  simp only [Layout.Views.blind, Expr.relocated_id] at outcomes
  show (Layout.exprText none 0 1 (value.relocated place) none {} >>= fun result => pure result.1) =
    (Layout.exprText none 0 1 value none {} >>= fun result => pure result.1)
  revert outcomes
  generalize Layout.exprText none 0 1 value none {} = outcome,
    Layout.exprText none 0 1 (value.relocated place) none {} = outcome'
  rintro (_ | _) <;> rfl

end GoMend
