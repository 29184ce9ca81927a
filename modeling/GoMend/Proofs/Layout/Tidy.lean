import GoMend.Proofs.Layout.Comments
import GoMend.Proofs.Layout.Neat

/-!
# Legible trees

Expressions are printed as legible texts, and statements and declarations write neat lines, if every
name and every literal of a tree is a line.
-/

namespace GoMend

namespace Layout

theorem isLine_token (token : Token) : IsLine token.text.toList := by
  cases token <;> exact isLine_plain _ rfl rfl

theorem legible_token (token : Token) : Legible token.text :=
  (isLine_token token).legible

/-! ### Expressions -/

/-- Whether an expression, and the parts that are printed on their own, are legible in every place. -/
structure TidyExpr (set : Option FileSet) (value : Expr) : Prop where
  text : ∀ shared prec depth, Neatly set (exprText shared prec depth value) Legible
  pair : ∀ span key inner, value = .keyValue span key inner → ∀ depth,
    Neatly set (exprText none 0 depth key) Legible ∧ Neatly set (exprText none 0 depth inner) Legible
  signature : ∀ type, value = .funcType type → Neatly set (signatureText type) Legible

/-- What holds of the elements of a list as far as they are printed.  A group that is live goes on
with the next element, and rows wait for it unless it stands on the line of the opening bracket. -/
structure NeatElements (isLive : Bool) (state : ElementState) : Prop where
  first : Fair state.first
  rows : AwaitingRows state.rows
  begun : (isLive → state.onOpenLine) → BegunRows state.rows
  group : isLive → ∀ text ∈ state.group, Legible text

section Expressions

variable {set : Option FileSet}

theorem optionText_neatly {value : Option Expr} (tidy : ∀ inner ∈ value, TidyExpr set inner)
    (depth : Nat) : Neatly set (optionText depth value) Fair := by
  cases value with
  | none => exact .pure fair_empty
  | some inner => exact ((tidy inner rfl).text _ _ _).mono fun _ => Legible.fair

theorem exprTexts_neatly {values : List Expr} (tidy : ∀ value ∈ values, TidyExpr set value)
    (depth : Nat) : Neatly set (exprTexts depth values) fun texts =>
      texts.length = values.length ∧ ∀ text ∈ texts, Legible text := by
  induction values with
  | nil => exact .pure ⟨rfl, by simp⟩
  | cons value values ih =>
      obtain ⟨first, others⟩ := List.forall_mem_cons.mp tidy
      exact .bind (first.text _ _ _) fun text isText => .bind (ih others) fun texts areTexts =>
        .pure ⟨congrArg (· + 1) areTexts.1, List.forall_mem_cons.mpr ⟨isText, areTexts.2⟩⟩

theorem enter_neatly {state : ElementState} {plan : ElementPlan} {pos : Pos} {line : Nat}
    (neat : NeatElements (state.line = some line) state) :
    Neatly set (state.enter plan pos line) fun entered =>
      NeatElements true entered ∧ entered.line = some line ∧
        (state.line ≠ some line → entered.group = []) := by
  refine .ite (fun goesOn => .pure ?_) fun begins => ?_
  · rw [decide_eq_true goesOn] at neat
    exact ⟨neat, goesOn, absurd goesOn⟩
  rw [decide_eq_false begins] at neat
  have begun := neat.begun nofun
  refine .ite (fun _ => .pure ?_) fun _ => .bind (beforeItem_neatly begun pos) fun rows awaiting => .pure ?_
  · exact ⟨⟨neat.first, neat.rows, fun _ => begun, by simp⟩, rfl, fun _ => rfl⟩
  · exact ⟨⟨neat.first, awaiting, fun isOpen => absurd (isOpen rfl) Bool.false_ne_true, by simp⟩, rfl,
      fun _ => rfl⟩

/-- A group ends. -/
theorem leave_neatly {state : ElementState} {cells : List String} {line : Nat} (stop : Pos)
    (neat : NeatElements true state) (lineEq : state.line = some line) (legible : LegibleCells cells) :
    Neatly set (state.leave cells stop) fun left => NeatElements false left ∧ left.line = some line := by
  refine .ite (fun isOpen => .lineOf (.pure ⟨⟨legible.joined.fair, neat.rows, fun _ => ?_, nofun⟩, lineEq⟩))
    fun _ => .bind (addItem_neatly neat.rows legible stop) fun rows begun => .pure ?_
  · exact neat.begun fun _ => isOpen
  · exact ⟨⟨neat.first, .begun begun, fun _ => begun, nofun⟩, lineEq⟩

theorem fair_suffix {plan : ElementPlan} (fair : Fair plan.spread) (isLast : Bool) :
    Fair (ElementState.suffix plan isLast) := by
  unfold ElementState.suffix
  split
  · refine fair.append ?_
    split
    · exact fair_plain "," rfl
    · exact fair_empty
  · exact fair_plain "," rfl

/-- An element that is printed as one text. -/
theorem element_neatly {state : ElementState} {elem : Expr} {suffix : String} {line : Nat}
    (plan : ElementPlan) (isLast : Bool) (tidy : TidyExpr set elem) (fair : Fair suffix)
    (neat : NeatElements true state) (lineEq : state.line = some line) :
    Neatly set (do
        let texts := state.group ++ [← exprText none 0 plan.depth elem]
        if isLast then
          state.leave [commas texts ++ suffix] elem.span.stop
        else
          return { state with group := texts })
      fun state => NeatElements (!isLast) state ∧ state.line = some line := by
  refine .bind (tidy.text _ _ _) fun text isText => ?_
  have grouped : ∀ text' ∈ state.group ++ [text], Legible text' :=
    List.forall_mem_append.mpr ⟨neat.group rfl, List.forall_mem_singleton.mpr isText⟩
  refine .ite (fun isTrue => ?_) fun isFalse => .pure ?_
  · rw [isTrue]
    exact leave_neatly _ neat lineEq (.singleton ((legible_commas (by simp) grouped).append fair))
  · rw [Bool.eq_false_iff.mpr isFalse]
    exact ⟨⟨neat.first, neat.rows, neat.begun, fun _ => grouped⟩, lineEq⟩

theorem elementRows_neatly {elems : List Expr} (tidy : ∀ elem ∈ elems, TidyExpr set elem)
    {plan : ElementPlan} (fair : Fair plan.spread) {state : ElementState}
    (neat : NeatElements (state.isLive set elems) state) :
    Neatly set (elementRows plan state elems) (NeatElements false) := by
  induction elems generalizing state with
  | nil => exact .pure neat
  | cons elem elems ih =>
      obtain ⟨first, others⟩ := List.forall_mem_cons.mp tidy
      rw [elementRows]
      refine .lineOf (.bind (enter_neatly neat) fun entered isEntered => .read ?_)
      obtain ⟨enteredNeat, lineEq, isEmpty⟩ := isEntered
      generalize isLastEq : (!(elems.head?.any fun next =>
        decide (lineIn set next.span.start = lineIn set elem.span.start))) = isLast
      have rest : ∀ left, NeatElements (!isLast) left ∧
          left.line = some (lineIn set elem.span.start) →
            Neatly set (elementRows plan left elems) (NeatElements false) := by
        rintro left ⟨leftNeat, leftLine⟩
        refine ih others ?_
        have isLiveEq : left.isLive set elems = !isLast := by
          simp [← isLastEq, ElementState.isLive, leftLine, eq_comm]
        rwa [isLiveEq]
      have suffixFair := fair_suffix fair elems.isEmpty
      have whole := element_neatly plan isLast first suffixFair enteredNeat lineEq
      cases elem with
      | keyValue span key value =>
          refine .ite (fun alone => ?_) fun _ => whole.bind rest
          simp only [Bool.and_eq_true, decide_eq_true_eq] at alone
          obtain ⟨-, isTrue⟩ := alone
          rw [isTrue] at rest
          refine .bind (first.pair _ _ _ rfl _).1 fun keyText isKey =>
            .bind (first.pair _ _ _ rfl _).2 fun valueText isValue => ?_
          refine (leave_neatly _ enteredNeat lineEq ⟨?_, keyText ++ ":", ?_, ?_⟩).bind rest
          · exact List.forall_mem_cons.mpr ⟨(isKey.append (fair_plain ":" rfl)).fair,
              List.forall_mem_singleton.mpr (isValue.append suffixFair).fair⟩
          · exact List.mem_cons_self
          · exact (isKey.append (fair_plain ":" rfl)).inked
      | _ => exact whole.bind rest

/-- A list of elements in brackets. -/
theorem elements_neatly {brackets : Brackets} {elems : List Expr} (depth : Nat)
    (tidy : ∀ elem ∈ elems, TidyExpr set elem) (opening : Legible brackets.opening)
    (closing : Legible brackets.closing) :
    Neatly set (bracketed brackets elems (exprTexts depth elems)
      fun plan state => elementRows plan state elems) Legible := by
  have spreadFair : Fair (if brackets.spread then "..." else "") := by
    split
    · exact fair_plain "..." rfl
    · exact fair_empty
  unfold bracketed
  split
  · exact .pure (opening.append closing.fair)
  · refine .read (.ite (fun _ => .bind (exprTexts_neatly tidy _) fun texts areTexts => .pure ?_) fun _ => ?_)
    · have texts := fair_commas fun text isText => (areTexts.2 text isText).fair
      exact ((opening.append texts).append spreadFair).append closing.fair
    · have inner : ∀ plan : ElementPlan, Fair plan.spread → ∀ prevLine, Neatly set (nested do
            let state ← elementRows plan { rows := { prevLine } } elems
            return (state.first, ← state.rows.close brackets.closePos))
          fun pair => Fair pair.1 ∧ Begun Legible "" pair.2 := by
        intro plan fair prevLine
        refine .nested (.bind (elementRows_neatly tidy fair ?_) fun state neat =>
          .bind (close_neatly (neat.begun fun isLive => by cases isLive) _) fun lines begun =>
            .pure ⟨neat.first, begun⟩)
        have notLive : ElementState.isLive set { rows := { prevLine } } elems = false := by
          simp [ElementState.isLive]
        rw [notLive]
        exact ⟨fair_empty, .begun .nothing, fun _ => .nothing, fun isLive => by cases isLive⟩
      refine .bind (inner _ spreadFair _) fun pair isPair => .get fun page _ => .pure ?_
      have lines := (opening.append isPair.1).body isPair.2 (page.indent + 1)
      show Legible (brackets.opening ++ pair.1 ++ bodyText (page.indent + 1) pair.2 ++ _ ++ brackets.closing)
      split
      · simpa only [String.append_assoc] using lines.under (closing.after (fair_tabs page.indent))
      · exact (lines.append fair_empty).append closing.fair

/-! ### Types -/

/-- Whether a field is printed legibly. -/
structure TidyField (set : Option FileSet) (field : Field) : Prop where
  names : ∀ name ∈ field.names, IsLine name.name.toList
  type : TidyExpr set field.type
  tag : ∀ tag ∈ field.tag, IsLine tag.value.toList

theorem legible_nameList {names : List Ident} (nonempty : names ≠ [])
    (areLines : ∀ name ∈ names, IsLine name.name.toList) : Legible (nameList names) :=
  legible_commas (by simpa using nonempty)
    (List.forall_mem_map.mpr fun name isName => (areLines name isName).legible)

theorem paramTexts_neatly {fields : List Field} (tidy : ∀ field ∈ fields, TidyField set field) :
    Neatly set (paramTexts fields) fun texts => ∀ text ∈ texts, Legible text := by
  induction fields with
  | nil => exact .pure (by simp)
  | cons field fields ih =>
      obtain ⟨first, others⟩ := List.forall_mem_cons.mp tidy
      obtain ⟨span, names, type, tag⟩ := field
      refine .bind (first.type.text _ _ _) fun typeText isType => .bind (ih others) fun texts areTexts =>
        .pure (List.forall_mem_cons.mpr ⟨?_, areTexts⟩)
      split
      · exact isType
      · next someName =>
        have names := legible_nameList (by simpa using someName) first.names
        exact (names.append (fair_plain " " rfl)).append isType.fair

theorem paramsText_neatly {list : FieldList} (tidy : ∀ field ∈ list.fields, TidyField set field) :
    Neatly set (paramsText list) Fair := by
  obtain ⟨span, fields⟩ := list
  exact .bind (paramTexts_neatly tidy) fun texts areTexts =>
    .pure (fair_commas fun text isText => (areTexts text isText).fair)

theorem signatureText_neatly {type : FuncType}
    (paramsTidy : ∀ field ∈ type.params.fields, TidyField set field)
    (resultsTidy : ∀ list ∈ type.results, ∀ field ∈ list.fields, TidyField set field) :
    Neatly set (signatureText type) Legible := by
  obtain ⟨span, params, results⟩ := type
  rw [signatureText]
  refine .bind (paramsText_neatly paramsTidy) fun paramsText fair => ?_
  have params : Legible ("(" ++ paramsText ++ ")") :=
    ((legible_plain "(" rfl rfl).append fair).append (fair_plain ")" rfl)
  cases results with
  | none => exact .pure params
  | some list =>
      obtain ⟨span, fields⟩ := list
      refine .bind (paramTexts_neatly (resultsTidy _ rfl)) fun texts areTexts =>
        .ite (fun _ => .pure params) fun _ => .pure ?_
      have results := fair_commas fun text isText => (areTexts text isText).fair
      exact (params.append (fair_plain " " rfl)).append (results.inParens _)

theorem fieldRows_neatly {fields : List Field} (tidy : ∀ field ∈ fields, TidyField set field)
    (isStruct : Bool) {rows : Rows} (begun : BegunRows rows) :
    Neatly set (fieldRows isStruct rows fields) BegunRows := by
  induction fields generalizing rows with
  | nil => exact .pure begun
  | cons field fields ih =>
      obtain ⟨first, others⟩ := List.forall_mem_cons.mp tidy
      obtain ⟨span, names, type, tag⟩ := field
      have rest : ∀ {rows : Rows} {cells : List String}, AwaitingRows rows → LegibleCells cells →
          Neatly set (do
            let rows ← Rows.addItem rows cells span.stop
            fieldRows isStruct rows fields) BegunRows := fun awaiting legible =>
        .bind (addItem_neatly awaiting legible _) fun _ begun => ih others begun
      rw [fieldRows]
      refine .bind (beforeItem_neatly begun _) fun rows awaiting => ?_
      refine .ite (fun _ => .bind (first.type.text _ _ _) fun typeText isType => rest awaiting ⟨?_, ?_⟩)
        fun _ => ?_
      · have nameCells : ∀ cell ∈ (if names.isEmpty then [] else [nameList names]), Fair cell := by
          split
          · simp
          · next someName =>
            exact List.forall_mem_singleton.mpr
              (legible_nameList (by simpa using someName) first.names).fair
        have tagCells : ∀ cell ∈ tag.toList.map (·.value), Fair cell :=
          List.forall_mem_map.mpr fun tag isTag =>
            (first.tag tag (Option.mem_toList.mp isTag)).legible.fair
        exact List.forall_mem_append.mpr ⟨List.forall_mem_append.mpr
          ⟨nameCells, List.forall_mem_singleton.mpr isType.fair⟩, tagCells⟩
      · exact ⟨typeText, by simp, isType.inked⟩
      cases type with
      | funcType method =>
          refine .bind (first.type.signature _ rfl) fun text isText => rest awaiting (.singleton ?_)
          refine isText.after ?_
          cases names with
          | nil => exact fair_plain "func" rfl
          | cons name names => exact (first.names name List.mem_cons_self).legible.fair
      | _ => exact .bind (first.type.text _ _ _) fun text isText => rest awaiting (.singleton isText)

theorem fieldBlock_neatly {list : FieldList} (tidy : ∀ field ∈ list.fields, TidyField set field)
    {keyword : String} (legible : Legible keyword) (isStruct : Bool) :
    Neatly set (fieldBlock keyword isStruct list) Legible := by
  obtain ⟨span, fields⟩ := list
  refine .ite (fun _ => .pure (legible.append (fair_plain "\x7b\x7d" rfl))) fun _ => ?_
  have inner : Neatly set (nested do
      let rows ← fieldRows isStruct { prevLine := ← lineOf span.start } fields
      rows.close (span.stop - 1)) (Begun Legible "") :=
    .nested (.lineOf (.bind (fieldRows_neatly tidy isStruct .nothing) fun _ begun => close_neatly begun _))
  refine .bind inner fun lines begun => .get fun page _ => .pure ?_
  have body := (legible.append (fair_plain " \x7b" rfl)).body begun (page.indent + 1)
  have closed := body.under ((legible_plain "\x7d" rfl rfl).after (fair_tabs page.indent))
  rw [← String.append_assoc] at closed
  exact closed

end Expressions

/-! ### Statements -/

/-- What is known of the text of a statement, if it has one: only an empty statement has an empty
text. -/
def TidyText (step : Stmt) (text : Option String) : Prop :=
  ∀ line ∈ text, Legible line ∨ isEmptyStmt step ∧ line = ""

/-- Whether a statement is printed neatly: as a text or in lines, as the body of another one, and as a
clause before others. -/
structure TidyStmt (set : Option FileSet) (step : Stmt) : Prop where
  text : ∀ afterElse, Neatly set (stmtText afterElse step) (TidyText step)
  block : ∀ body, step = .block body → ∀ head, Fair head →
    (∀ closed, KeepsNeat set (blockLines head closed body)) ∧
      Fills set (blockLines head true body) ∧ KeepsNeat set (clauseBlock head body)
  clause : ∀ rest, KeepsNeat set (clauseLines rest) → KeepsNeat set (clauseLines (step :: rest))

section Statements

variable {set : Option FileSet}

theorem simpleText_neatly {step : Stmt} (tidy : TidyStmt set step) :
    Neatly set (simpleText step (stmtText false step)) Fair := by
  refine .ite (fun _ => .bind (tidy.text _) fun text isText => .pure ?_) fun _ => .throw _
  cases text with
  | none => exact fair_empty
  | some line =>
      obtain legible | ⟨-, rfl⟩ := isText line rfl
      · exact legible.fair
      · exact fair_empty

theorem emitText_neatly {step : Stmt} (tidy : TidyStmt set step) (notEmpty : isEmptyStmt step = false)
    (afterElse : Bool) : KeepsNeat set (emitText (stmtText afterElse step)) := by
  refine .bind (tidy.text _) fun text isText => ?_
  cases text with
  | none => exact .pure trivial
  | some line =>
      obtain legible | ⟨isEmpty, -⟩ := isText line rfl
      · exact emit_neatly legible
      · exact absurd (notEmpty.symm.trans isEmpty) Bool.false_ne_true

theorem initText_neatly {init : Option Stmt} (tidy : ∀ step ∈ init, TidyStmt set step) :
    Neatly set (initText init) Fair := by
  cases init with
  | none => exact .pure fair_empty
  | some step =>
      exact .bind (simpleText_neatly (tidy step rfl)) fun text fair =>
        .pure (fair.append (fair_plain "; " rfl))

theorem stmtLines_neatly {stmts : List Stmt} (tidy : ∀ step ∈ stmts, TidyStmt set step) :
    KeepsNeat set (stmtLines stmts) := by
  induction stmts with
  | nil => exact .pure trivial
  | cons step stmts ih =>
      obtain ⟨first, others⟩ := List.forall_mem_cons.mp tidy
      refine .ite (fun notEmpty => ?_) fun _ => ih others
      exact .bind (advance_neatly _ _) fun _ _ =>
        .bind (emitText_neatly first (by simpa using notEmpty) _) fun _ _ =>
          .bind (finish_neatly _) fun _ _ => ih others

theorem staysOnOneLine_neatly (span : Span) : KeepsNeat set (staysOnOneLine span) :=
  .ite (fun _ => .pure trivial) fun _ => .get fun _ _ => .ite (fun _ => .pure trivial) fun _ =>
    .lineOf (.lineOf (.pure trivial))

/-- The lines between the braces of a block. -/
theorem blockInner_neatly {span : Span} {stmts : List Stmt} (tidy : ∀ step ∈ stmts, TidyStmt set step) :
    KeepsNeat set (nested do
      stmtLines stmts
      if span.isPositioned then
        advance (span.stop - 1) false) :=
  .nested (.bind (stmtLines_neatly tidy) fun _ _ => .ite (fun _ => advance_neatly _ _) fun _ =>
    .pure trivial)

/-- A closed block ends with a line. -/
theorem blockLines_fills {body : Block} (tidy : ∀ step ∈ body.stmts, TidyStmt set step)
    {head : String} (fair : Fair head) : Fills set (blockLines head true body) := by
  obtain ⟨span, stmts⟩ := body
  have opening : Legible (head ++ "\x7b") := (legible_plain "\x7b" rfl rfl).after fair
  refine .bind (staysOnOneLine_neatly _) fun _ _ => .ite (fun _ => ?_) fun _ => ?_
  · exact .before (emit_fills ((legible_plain "\x7b\x7d" rfl rfl).after fair)) fun _ =>
      finish_staysFull _
  · exact .bind (emit_neatly opening) fun _ _ => .bind (finish_neatly _) fun _ _ =>
      .bind (blockInner_neatly tidy) fun _ _ =>
        .before (emit_fills (legible_plain "\x7d" rfl rfl)) fun _ => finish_staysFull _

theorem blockLines_neatly {body : Block} (tidy : ∀ step ∈ body.stmts, TidyStmt set step)
    {head : String} (fair : Fair head) (closed : Bool) : KeepsNeat set (blockLines head closed body) := by
  cases closed with
  | true => exact .of_fills (blockLines_fills tidy fair)
  | false =>
      obtain ⟨span, stmts⟩ := body
      have opening : Legible (head ++ "\x7b") := (legible_plain "\x7b" rfl rfl).after fair
      refine .bind (staysOnOneLine_neatly _) fun _ _ => .ite (fun _ => ?_) fun _ => ?_
      · exact .bind (emit_neatly opening) fun _ _ => finish_neatly _
      · exact .bind (emit_neatly opening) fun _ _ => .bind (finish_neatly _) fun _ _ =>
          .bind (blockInner_neatly tidy) fun _ _ => finish_neatly _

theorem clauseLines_neatly {clauses : List Stmt} (tidy : ∀ clause ∈ clauses, TidyStmt set clause) :
    KeepsNeat set (clauseLines clauses) := by
  induction clauses with
  | nil => exact .pure trivial
  | cons clause clauses ih =>
      obtain ⟨first, others⟩ := List.forall_mem_cons.mp tidy
      exact first.clause clauses (ih others)

theorem clauseBlock_neatly {body : Block} (tidy : ∀ clause ∈ body.stmts, TidyStmt set clause)
    {head : String} (fair : Fair head) : KeepsNeat set (clauseBlock head body) := by
  obtain ⟨span, clauses⟩ := body
  have ending : KeepsNeat set (do
      emit "\x7d"
      finish span.stop) :=
    .bind (emit_neatly (legible_plain "\x7d" rfl rfl)) fun _ _ => finish_neatly _
  exact .bind (emit_neatly ((legible_plain "\x7b" rfl rfl).after fair)) fun _ _ =>
    .bind (finish_neatly _) fun _ _ => .bind (clauseLines_neatly tidy) fun _ _ =>
      .ite (fun _ => .bind (advance_neatly _ _) fun _ _ => ending) fun _ => ending

/-- A statement that is neither a block nor a clause. -/
theorem TidyStmt.of_text {step : Stmt} (notBlock : ∀ body, step ≠ .block body)
    (notClause : step.isClause = false)
    (text : ∀ afterElse, Neatly set (stmtText afterElse step) (TidyText step)) : TidyStmt set step where
  text := text
  block body isBlock := absurd isBlock (notBlock body)
  clause _ _ _ _ _ _ outcome := absurd outcome (clauseLines_ne_ok notClause)

/-- A statement that is printed as a text. -/
theorem tidyText_some {step : Stmt} {line : String} (legible : Legible line) : TidyText step (some line) := by
  rintro _ ⟨⟩
  exact .inl legible

/-- A statement that writes lines. -/
theorem tidyText_none {step : Stmt} : TidyText step none :=
  nofun

/-- A clause and those after it, when its head is written. -/
theorem clauseTail_neatly {stmts rest : List Stmt} (pos : Pos)
    (tidy : ∀ step ∈ stmts, TidyStmt set step) (restNeat : KeepsNeat set (clauseLines rest)) :
    KeepsNeat set (do
      finish pos
      nested (stmtLines stmts)
      clauseLines rest) :=
  .bind (finish_neatly _) fun _ _ => .bind (.nested (stmtLines_neatly tidy)) fun _ _ => restNeat

theorem caseClause_tidy {span : Span} {exprs : Option (List Expr)} {body : List Stmt} {colon : Pos}
    (exprsTidy : ∀ values ∈ exprs, ∀ value ∈ values, TidyExpr set value)
    (bodyTidy : ∀ step ∈ body, TidyStmt set step) :
    TidyStmt set (.caseClause span exprs body colon) where
  text _ := .throw _
  block := nofun
  clause rest restNeat := by
    have tail := fun pos => clauseTail_neatly pos bodyTidy restNeat
    rw [clauseLines]
    refine .bind (advance_neatly _ _) fun _ _ => ?_
    cases exprs with
    | none => exact .bind (emit_neatly (legible_plain "default:" rfl rfl)) fun _ _ => tail _
    | some values =>
        refine .bind (exprTexts_neatly (exprsTidy values rfl) _) fun texts areTexts =>
          .bind (emit_neatly ?_) fun _ _ => tail _
        have texts := fair_commas fun text isText => (areTexts.2 text isText).fair
        exact ((legible_plain "case " rfl rfl).append texts).append (fair_plain ":" rfl)

theorem commClause_tidy {span : Span} {comm : Option Stmt} {body : List Stmt} {colon : Pos}
    (commTidy : ∀ step ∈ comm, TidyStmt set step) (bodyTidy : ∀ step ∈ body, TidyStmt set step) :
    TidyStmt set (.commClause span comm body colon) where
  text _ := .throw _
  block := nofun
  clause rest restNeat := by
    have tail := fun pos => clauseTail_neatly pos bodyTidy restNeat
    rw [clauseLines]
    refine .bind (advance_neatly _ _) fun _ _ => ?_
    cases comm with
    | none => exact .bind (emit_neatly (legible_plain "default:" rfl rfl)) fun _ _ => tail _
    | some step =>
        refine .bind (simpleText_neatly (commTidy step rfl)) fun text fair =>
          .bind (emit_neatly ?_) fun _ _ => tail _
        exact ((legible_plain "case " rfl rfl).append fair).append (fair_plain ":" rfl)

section Compound

variable {span : Span} {init : Option Stmt} {body : Block} {afterElse : Bool}

/-- What a statement begins with when it follows an `else`. -/
theorem fair_lead (afterElse : Bool) : Fair (if afterElse then "\x7d else " else "") := by
  split
  · exact fair_plain "\x7d else " rfl
  · exact fair_empty

theorem labeled_tidy {label : Ident} {inner : Stmt} (isLine : IsLine label.name.toList)
    (tidy : TidyStmt set inner) : TidyStmt set (.labeled span label inner) := by
  refine .of_text (by simp) rfl fun _ => ?_
  refine .bind (.of_fills (emitOutdented_fills (isLine.legible.append (fair_plain ":" rfl)))) fun _ _ =>
    .bind (finish_neatly _) fun _ _ => .ite (fun notEmpty => ?_) fun _ => .pure tidyText_none
  exact .bind (advance_neatly _ _) fun _ _ =>
    .bind (emitText_neatly tidy (by simpa using notEmpty) _) fun _ _ => .pure tidyText_none

theorem ifElse_tidy {cond : Expr} {otherwise : Option Stmt} (initTidy : ∀ step ∈ init, TidyStmt set step)
    (condTidy : TidyExpr set cond) (bodyTidy : TidyStmt set (.block body))
    (otherTidy : ∀ step ∈ otherwise, TidyStmt set step) :
    TidyStmt set (.ifElse span init cond body otherwise) := by
  refine .of_text (by simp) rfl fun afterElse => ?_
  have head {initText condText : String} (isInit : Fair initText) (isCond : Legible condText) :
      Fair ((if afterElse then "\x7d else " else "") ++ "if " ++ initText ++ condText ++ " ") :=
    ((((fair_lead afterElse).append (fair_plain "if " rfl)).append isInit).append isCond.fair).append
      (fair_plain " " rfl)
  cases otherwise with
  | none =>
      exact .bind (initText_neatly initTidy) fun initText isInit =>
        .bind (condTidy.text _ _ _) fun condText isCond =>
          .bind ((bodyTidy.block body rfl _ (head isInit isCond)).1 _) fun _ _ => .pure tidyText_none
  | some branch =>
      refine .bind (initText_neatly initTidy) fun initText isInit =>
        .bind (condTidy.text _ _ _) fun condText isCond =>
          .bind ((bodyTidy.block body rfl _ (head isInit isCond)).1 _) fun _ _ =>
            .ite (fun isElse => ?_) fun _ => .throw _
      refine ((otherTidy branch rfl).text true).mono fun text isText line isLine => ?_
      refine .inl ((isText line isLine).resolve_right fun both => ?_)
      cases branch <;> first | cases isElse; done | exact Bool.false_ne_true both.1

theorem switch_tidy {tag : Option Expr} (initTidy : ∀ step ∈ init, TidyStmt set step)
    (tagTidy : ∀ value ∈ tag, TidyExpr set value) (bodyTidy : TidyStmt set (.block body)) :
    TidyStmt set (.switch span init tag body) := by
  have head {initText tagText : String} (isInit : Fair initText) (isTag : Fair tagText) :
      Fair ("switch " ++ initText ++ tagText) :=
    ((fair_plain "switch " rfl).append isInit).append isTag
  refine .of_text (by simp) rfl fun _ => ?_
  cases tag with
  | none =>
      exact .bind (initText_neatly initTidy) fun initText isInit => .known
        (.bind (bodyTidy.block body rfl _ (head isInit fair_empty)).2.2 fun _ _ => .pure tidyText_none)
  | some tag =>
      refine .bind (initText_neatly initTidy) fun initText isInit =>
        .bind ((tagTidy tag rfl).text _ _ _) fun tagText isTag => .known
          (.bind (bodyTidy.block body rfl _ (head isInit ?_)).2.2 fun _ _ => .pure tidyText_none)
      exact (isTag.append (fair_plain " " rfl)).fair

theorem typeSwitch_tidy {guard : Stmt} (initTidy : ∀ step ∈ init, TidyStmt set step)
    (guardTidy : TidyStmt set guard) (bodyTidy : TidyStmt set (.block body)) :
    TidyStmt set (.typeSwitch span init guard body) := by
  refine .of_text (by simp) rfl fun _ => .bind (initText_neatly initTidy) fun initText isInit =>
    .bind (simpleText_neatly guardTidy) fun guardText isGuard =>
      .bind (bodyTidy.block body rfl _ ?_).2.2 fun _ _ => .pure tidyText_none
  exact (((fair_plain "switch " rfl).append isInit).append isGuard).append (fair_plain " " rfl)

/-- The body of a loop after its head. -/
theorem loopBody_neatly {step : Stmt} {body : Option Block}
    (tidy : ∀ inner ∈ body, TidyStmt set (.block inner)) {head : String} (fair : Fair head) :
    Neatly set
      (match body with
        | none => do
            emit (head ++ "\x7b\x7d")
            return none
        | some body => do
            blockLines head true body
            return none)
      (TidyText step) := by
  cases body with
  | none =>
      exact .bind (emit_neatly ((legible_plain "\x7b\x7d" rfl rfl).after fair)) fun _ _ =>
        .pure tidyText_none
  | some body =>
      exact .bind (((tidy body rfl).block body rfl head fair).1 true) fun _ _ => .pure tidyText_none

theorem loop_tidy {cond : Option Expr} {post : Option Stmt} {body : Option Block}
    (initTidy : ∀ step ∈ init, TidyStmt set step) (condTidy : ∀ value ∈ cond, TidyExpr set value)
    (postTidy : ∀ step ∈ post, TidyStmt set step)
    (bodyTidy : ∀ inner ∈ body, TidyStmt set (.block inner)) :
    TidyStmt set (.loop span init cond post body) := by
  have head {initPart condPart postPart : String} (isInit : Fair initPart) (isCond : Fair condPart)
      (isPost : Fair postPart) : Fair
        (if init.isSome || post.isSome then
          "for " ++ Text.trimEnd (initPart ++ "; " ++ condPart ++ "; " ++ postPart) ++ " "
        else if cond.isSome then
          "for " ++ condPart ++ " "
        else
          "for ") := by
    split
    · have clauses : Legible (initPart ++ "; " ++ condPart ++ "; " ++ postPart) :=
        ((((legible_plain "; " rfl rfl).after isInit).append isCond).append (fair_plain "; " rfl)).append
          isPost
      exact ((fair_plain "for " rfl).append clauses.trimEnd.fair).append (fair_plain " " rfl)
    split
    · exact ((fair_plain "for " rfl).append isCond).append (fair_plain " " rfl)
    · exact fair_plain "for " rfl
  refine .of_text (by simp) rfl fun _ => ?_
  have condText := optionText_neatly condTidy 1
  have tail {step : Stmt} {head : String} := @loopBody_neatly set step body bodyTidy head
  cases body
  all_goals cases init with
  | none =>
      cases post with
      | none =>
          exact .known (.bind condText fun _ isCond => .known (tail (head fair_empty isCond fair_empty)))
      | some post =>
          have postText := simpleText_neatly (postTidy post rfl)
          exact .known (.bind condText fun _ isCond => .bind postText fun _ isPost =>
            tail (head fair_empty isCond isPost))
  | some init =>
      have initText := simpleText_neatly (initTidy init rfl)
      cases post with
      | none =>
          exact .bind initText fun _ isInit => .bind condText fun _ isCond =>
            .known (tail (head isInit isCond fair_empty))
      | some post =>
          have postText := simpleText_neatly (postTidy post rfl)
          exact .bind initText fun _ isInit => .bind condText fun _ isCond =>
            .bind postText fun _ isPost => tail (head isInit isCond isPost)

theorem range_tidy {key value : Option Expr} {tok : Option Token} {operand : Expr}
    {body : Option Block} {tokPos : Pos} (keyTidy : ∀ target ∈ key, TidyExpr set target)
    (valueTidy : ∀ target ∈ value, TidyExpr set target) (operandTidy : TidyExpr set operand)
    (bodyTidy : ∀ inner ∈ body, TidyStmt set (.block inner)) :
    TidyStmt set (.range span key value tok operand body tokPos) := by
  refine .of_text (by simp) rfl fun _ => ?_
  have tail {targets : String} (fair : Fair targets) {operandText : String} (isOperand : Legible operandText) :=
    @loopBody_neatly set (.range span key value tok operand body tokPos) body bodyTidy _
      ((((fair_plain "for " rfl).append fair).append (fair_plain "range " rfl)).append isOperand.fair |>.append
        (fair_plain " " rfl))
  have targets {keyText valueText : String} (isKey : Legible keyText) (isValue : Fair valueText) :
      Fair (keyText ++ valueText ++ " " ++ (tok.getD .define).text ++ " ") :=
    ((((isKey.append isValue).append (fair_plain " " rfl)).append (legible_token _).fair).append
      (fair_plain " " rfl)).fair
  have operandText := operandTidy.text none 0 1
  cases body
  all_goals cases key with
  | none => exact .known (.bind operandText fun _ isOperand => tail fair_empty isOperand)
  | some key =>
      have keyText := (keyTidy key rfl).text none 0 1
      cases value with
      | none =>
          exact .bind keyText fun _ isKey => .known (.known (.bind operandText fun _ isOperand =>
            tail (targets isKey fair_empty) isOperand))
      | some value =>
          have valueText := (valueTidy value rfl).text none 0 1
          exact .bind keyText fun _ isKey => .bind valueText fun _ isValue =>
            .known (.known (.bind operandText fun _ isOperand =>
              tail (targets isKey (isValue.after (fair_plain ", " rfl)).fair) isOperand))

end Compound

end Statements

/-! ### Declarations -/

/-- Whether an item of a declaration has cells that show something. -/
def TidySpec (set : Option FileSet) (item : Spec) : Prop :=
  ∀ keepType, Neatly set (specCells keepType item) LegibleCells

section Declarations

variable {set : Option FileSet}

theorem legible_dropEmptyEnd {first : String} {rest : List String} (legible : Legible first)
    (fair : ∀ cell ∈ rest, Fair cell) : LegibleCells (dropEmptyEnd (first :: rest)) where
  fair := by
    refine List.forall_mem_cons.mpr ⟨legible.fair, fun cell isCell => fair cell ?_⟩
    exact List.mem_reverse.mp ((List.dropWhile_suffix _).subset (List.mem_reverse.mp isCell))
  inked := ⟨first, List.mem_cons_self, legible.inked⟩

theorem specRows_neatly {specs : List Spec} {keepType : Bool} (tidy : ∀ item ∈ specs, TidySpec set item)
    {rows : Rows} (begun : BegunRows rows) : Neatly set (specRows keepType rows specs) BegunRows := by
  induction specs generalizing rows with
  | nil => exact .pure begun
  | cons item specs ih =>
      obtain ⟨first, others⟩ := List.forall_mem_cons.mp tidy
      exact .bind (beforeItem_neatly begun _) fun _ awaiting => .bind (first _) fun cells legible =>
        .bind (addItem_neatly awaiting legible _) fun _ begun => ih others begun

/-- Lines are written one after the other, the empty ones behind those that show something. -/
theorem emitAll_neatly {lines : List String} (begun : Begun Legible "" lines) :
    KeepsNeat set (lines.forM emit) := by
  cases begun with
  | nothing => exact .pure trivial
  | spaced spaced =>
      induction spaced with
      | one legible => exact .bind (emit_neatly legible) fun _ _ => .pure trivial
      | next legible _ ih => exact .bind (emit_neatly legible) fun _ _ => ih
      | gap legible _ ih =>
          intro page value after isNeat outcome
          obtain ⟨_, first, isFirst, outcome⟩ := bind_eq_ok.mp outcome
          obtain ⟨_, second, isSecond, outcome⟩ := bind_eq_ok.mp outcome
          have firstFull := emit_fills legible _ _ _ isNeat isFirst
          obtain ⟨-, rfl⟩ := Prod.mk.inj (Except.ok.inj isSecond)
          have secondNeat : NeatPage { first with lines := indented first.indent "" :: first.lines } :=
            ⟨.waiting firstFull.lines, firstFull.comments⟩
          exact ih _ _ _ secondNeat outcome

theorem genDeclLines_fills {item : GenDecl} (tidy : ∀ spec ∈ item.specs, TidySpec set spec) :
    Fills set (genDeclLines item) := by
  obtain ⟨span, tok, specs, grouped⟩ := item
  unfold genDeclLines
  refine .ite (fun _ => ?_) fun _ => ?_
  · have inner : KeepsNeat set (nested do
        let rows ← specRows (specs.any hasType) { prevLine := (← MonadState.get).lastLine } specs
        (← rows.close (span.stop - 1)).forM emit) :=
      .nested (.get fun _ _ => .bind (specRows_neatly tidy .nothing) fun _ begun =>
        .bind (close_neatly begun _) fun _ begun => emitAll_neatly begun)
    have opening : Legible (tok.text ++ " (") := (legible_token tok).append (fair_plain " (" rfl)
    exact .bind (emit_neatly opening) fun _ _ => .bind (finish_neatly _) fun _ _ =>
      .bind inner fun _ _ => emit_fills (legible_plain ")" rfl rfl)
  · cases specs with
    | nil => exact .throw _
    | cons spec specs =>
        refine .bind (tidy spec List.mem_cons_self _) fun cells legible => emit_fills ?_
        exact ((legible_token tok).append (fair_plain " " rfl)).append legible.filter.joined.fair

theorem declList_staysFull {decls : List Decl} (tidy : ∀ item ∈ decls, Fills set (declLines item))
    (prev : Option Token) : StaysFull set (declList prev decls) := by
  induction decls generalizing prev with
  | nil => exact .pure _
  | cons item decls ih =>
      obtain ⟨first, others⟩ := List.forall_mem_cons.mp tidy
      have tail : ∀ keyword, Fills set (do
          declLines item
          finish item.span.stop
          declList (some keyword) decls) := fun keyword =>
        .before first fun _ => .bind (finish_staysFull _) fun _ => ih others _
      exact .of_fills (.ite (fun _ => .bind (advance_neatly _ _) fun _ _ => tail _) fun _ =>
        .bind blankLine_neatly fun _ _ => tail _)

/-- A file is written in legible lines, the last of which shows something. -/
theorem fileLines_fills {file : File} (tidy : ∀ item ∈ file.decls, Fills set (declLines item))
    (isLine : IsLine file.package.name.toList) : Fills set (fileLines file) := by
  have trailing : StaysFull set (do
      let comments := (← MonadState.get).comments
      modify fun page => { page with comments := [] }
      comments.forM trailingComment) := by
    intro page value after isFull outcome
    obtain ⟨_, _, ⟨⟩, outcome⟩ := bind_eq_ok.mp outcome
    obtain ⟨_, _, ⟨⟩, outcome⟩ := bind_eq_ok.mp outcome
    have flushed : FullPage { page with comments := [] } := ⟨isFull.lines, by simp⟩
    exact StaysFull.forM (fun comment isComment =>
      .of_fills (trailingComment_fills (isFull.comments comment isComment))) _ _ _ flushed outcome
  exact .bind (advance_neatly _ _) fun _ _ =>
    .before (emit_fills ((legible_plain "package " rfl rfl).append isLine.legible.fair)) fun _ =>
      .bind (finish_staysFull _) fun _ => .bind (declList_staysFull tidy _) fun _ => trailing

end Declarations

end Layout

/-! ### Trees -/

namespace Node

/-- Whether a node itself writes something on a line: its name or its literal, or the names of an item
that declares values. -/
def WritesLine : Node → Prop
  | .expr (.ident name) => Layout.IsLine name.name.toList
  | .expr (.lit literal) => Layout.IsLine literal.value.toList
  | .spec (.valueSpec _ names _ _) => names ≠ []
  | _ => True

/-- A tree of which all names and literals are lines, and in which all items that declare values have
names. -/
inductive Worded : Node → Prop
  | node {node : Node} (own : node.WritesLine) (children : ∀ child ∈ node.children, Worded child) :
      Worded node

namespace Worded

variable {node : Node}

theorem own (worded : Worded node) : node.WritesLine := by
  cases worded with
  | node own => exact own

theorem child {child : Node} (worded : Worded node) (isChild : child ∈ node.children) : Worded child := by
  cases worded with
  | node _ children => exact children child isChild

/-- A name that a node writes itself. -/
theorem name {name : Ident} (worded : Worded node) (isChild : Node.ident name ∈ node.children) :
    Layout.IsLine name.name.toList :=
  (worded.child isChild).own

theorem lit {literal : BasicLit} (worded : Worded node) (isChild : Node.lit literal ∈ node.children) :
    Layout.IsLine literal.value.toList :=
  (worded.child isChild).own

end Worded

end Node

namespace Layout

/-- Whether a node is printed neatly. -/
def TidyNode (set : Option FileSet) : Node → Prop
  | .expr value => TidyExpr set value
  | .field item => TidyField set item
  | .fieldList list => ∀ field ∈ list.fields, TidyField set field
  | .stmt step => TidyStmt set step
  | .spec item => TidySpec set item
  | .decl item => Fills set (declLines item)
  | .file file => Fills set (fileLines file)
  | .comment _ => True

section Trees

variable {set : Option FileSet}

theorem TidyExpr.of_text {value : Expr} (notPair : ∀ span key inner, value ≠ .keyValue span key inner)
    (notType : ∀ type, value ≠ .funcType type)
    (text : ∀ shared prec depth, Neatly set (exprText shared prec depth value) Legible) :
    TidyExpr set value where
  text := text
  pair span key inner isPair := absurd isPair (notPair span key inner)
  signature type isType := absurd isType (notType type)

theorem ident_tidy {name : Ident} (isLine : IsLine name.name.toList) : TidyExpr set (.ident name) :=
  .of_text (by simp) (by simp) fun _ _ _ => .pure isLine.legible

theorem funcLit_tidy {type : FuncType} {body : Block} (typeTidy : Neatly set (signatureText type) Legible)
    (bodyTidy : TidyStmt set (.block body)) (span : Span) : TidyExpr set (.funcLit span type body) := by
  refine .of_text (by simp) (by simp) fun _ _ _ => ?_
  refine .bind typeTidy fun typeText isType => .bind (capture_neatly (bodyTidy.block body rfl _ ?_).2.1)
    fun lines spaced => .pure ?_
  · exact ((fair_plain "func" rfl).append isType.fair).append (fair_plain " " rfl)
  · have isBlank : ∀ char : Char, char = '\t' → Text.isBlank char := by
      rintro _ rfl
      rfl
    rw [Legible, String.toList_ofList]
    exact LegibleChars.dropWhile spaced.legible (by simpa using isBlank)

theorem call_tidy {callee : Expr} {args : List Expr} {span : Span} (calleeTidy : TidyExpr set callee)
    (argsTidy : ∀ arg ∈ args, TidyExpr set arg) (spread : Bool) :
    TidyExpr set (.call span callee args spread) := by
  refine .of_text (by simp) (by simp) fun _ _ _ => ?_
  refine .bind (calleeTidy.text _ _ _) fun calleeText isCallee => ?_
  refine .bind (elements_neatly _ argsTidy (legible_plain "(" rfl rfl) (legible_plain ")" rfl rfl))
    fun argsText isArgs => .pure (isArgs.after ?_)
  split
  · exact ((fair_plain "(" rfl).append isCallee.fair).append (fair_plain ")" rfl)
  · exact isCallee.fair

theorem composite_tidy {type : Option Expr} {elems : List Expr} {span : Span}
    (typeTidy : ∀ value ∈ type, TidyExpr set value) (elemsTidy : ∀ elem ∈ elems, TidyExpr set elem) :
    TidyExpr set (.composite span type elems) := by
  have elemsText (openPos : Pos) := @elements_neatly set
    { opening := "\x7b", closing := "\x7d", openPos, closePos := span.stop - 1, depth := 1, alignKeys := true }
    _ 1 elemsTidy (legible_plain "\x7b" rfl rfl) (legible_plain "\x7d" rfl rfl)
  refine .of_text (by simp) (by simp) fun _ _ _ => ?_
  cases type with
  | none =>
      exact .known (.bind (elemsText _) fun elemsText isElems => .pure (isElems.after fair_empty))
  | some type =>
      exact .bind ((typeTidy type rfl).text _ _ _) fun typeText isType =>
        .bind (elemsText _) fun elemsText isElems => .pure (isElems.after isType.fair)

theorem slice_tidy {operand : Expr} {low high max : Option Expr} {full : Bool} {span : Span}
    (operandTidy : TidyExpr set operand) (lowTidy : ∀ value ∈ low, TidyExpr set value)
    (highTidy : ∀ value ∈ high, TidyExpr set value) (maxTidy : ∀ value ∈ max, TidyExpr set value) :
    TidyExpr set (.slice span operand low high max full) := by
  have colon (before after : Prop) [Decidable before] [Decidable after] :
      Fair ((if before then " " else "") ++ ":" ++ (if after then " " else "")) :=
    ((fair_blankIf before).append (fair_plain ":" rfl)).append (fair_blankIf after)
  have sliced {operandText lowText highText colonText ending : String} (isOperand : Legible operandText)
      (isLow : Fair lowText) (isColon : Fair colonText) (isHigh : Fair highText) (isEnding : Fair ending) :
      Legible (operandText ++ "[" ++ lowText ++ colonText ++ highText ++ ending ++ "]") :=
    (((((isOperand.append (fair_plain "[" rfl)).append isLow).append isColon).append isHigh).append
      isEnding).append (fair_plain "]" rfl)
  have ending (isLast : Prop) [Decidable isLast] {colonText maxText : String} (isColon : Fair colonText)
      (isMax : Fair maxText) : Fair (if isLast then colonText ++ maxText else "") := by
    split
    · exact isColon.append isMax
    · exact fair_empty
  refine .of_text (by simp) (by simp) fun _ _ _ => ?_
  exact .bind (operandTidy.text _ _ _) fun operandText isOperand =>
    .bind (optionText_neatly lowTidy _) fun lowText isLow =>
      .bind (optionText_neatly highTidy _) fun highText isHigh =>
        .ite (fun _ => .bind (optionText_neatly maxTidy _) fun maxText isMax => .pure
            (sliced isOperand isLow (colon _ _) isHigh (ending _ (colon _ _) isMax)))
          fun _ => .known (.pure
            (sliced isOperand isLow (colon _ _) isHigh (ending _ (colon _ _) fair_empty)))

theorem expr_tidy {value : Expr} (worded : (Node.expr value).Worded)
    (tidy : ∀ child ∈ (Node.expr value).children, TidyNode set child) : TidyExpr set value := by
  cases value <;>
    simp [Node.children, Node.exprChildren, Node.block, TidyNode, or_imp, forall_and] at tidy
  case ident name => exact ident_tidy worded.own
  case lit literal =>
      exact .of_text (by simp) (by simp) fun _ _ _ => .pure (IsLine.legible worded.own)
  case ellipsis span elem =>
      exact .of_text (by simp) (by simp) fun _ _ _ => .bind (optionText_neatly tidy _) fun _ isElem =>
        .pure ((legible_plain "..." rfl rfl).append isElem)
  case funcLit span type body => exact funcLit_tidy (tidy.1.signature _ rfl) tidy.2 span
  case composite span type elems => exact composite_tidy tidy.1 tidy.2
  case paren span inner =>
      refine .of_text (by simp) (by simp) fun _ _ _ => ?_
      exact .bind (tidy.text _ _ _) fun _ isInner => .pure (isInner.inParens _)
  case selector span operand sel =>
      refine .of_text (by simp) (by simp) fun _ _ _ => ?_
      have selLine : IsLine sel.name.toList :=
        worded.name (List.mem_cons_of_mem _ List.mem_cons_self)
      exact .bind (tidy.1.text _ _ _) fun _ isOperand =>
        .pure ((isOperand.append (fair_plain "." rfl)).append selLine.legible.fair)
  case index span operand index =>
      refine .of_text (by simp) (by simp) fun _ _ _ => ?_
      exact .bind (tidy.1.text _ _ _) fun _ isOperand => .bind (tidy.2.text _ _ _) fun _ isIndex =>
        .pure (((isOperand.append (fair_plain "[" rfl)).append isIndex.fair).append (fair_plain "]" rfl))
  case slice span operand low high max full =>
      obtain ⟨operandTidy, lowTidy, highTidy, maxTidy⟩ := tidy
      exact slice_tidy operandTidy lowTidy highTidy maxTidy
  case typeAssert span operand type =>
      refine .of_text (by simp) (by simp) fun _ _ _ => ?_
      have asserted {operandText typeText : String} (isOperand : Legible operandText) (isType : Fair typeText) :
          Legible (operandText ++ ".(" ++ typeText ++ ")") :=
        ((isOperand.append (fair_plain ".(" rfl)).append isType).append (fair_plain ")" rfl)
      cases type with
      | none =>
          exact .known (.bind (tidy.1.text _ _ _) fun _ isOperand =>
            .pure (asserted isOperand (fair_plain "type" rfl)))
      | some type =>
          exact .bind ((tidy.2 type rfl).text _ _ _) fun _ isType =>
            .bind (tidy.1.text _ _ _) fun _ isOperand => .pure (asserted isOperand isType.fair)
  case call span callee args spread => exact call_tidy tidy.1 tidy.2 spread
  case star span operand =>
      refine .of_text (by simp) (by simp) fun _ _ _ => ?_
      exact .bind (tidy.text _ _ _) fun _ isOperand =>
        .pure ((isOperand.after (fair_plain "*" rfl)).inParens _)
  case unary span op operand =>
      refine .of_text (by simp) (by simp) fun _ _ _ => ?_
      exact .bind (tidy.text _ _ _) fun _ isOperand =>
        .pure ((isOperand.after ((legible_token op).fair.append (fair_blankIf _))).inParens _)
  case binary span left op right =>
      refine .of_text (by simp) (by simp) fun _ _ _ => ?_
      refine .bind (tidy.1.text _ _ _) fun _ isLeft => .bind (tidy.2.text _ _ _) fun _ isRight => .pure ?_
      exact ((((isLeft.append (fair_blankIf _)).append (legible_token op).fair).append
        (fair_blankIf _)).append isRight.fair).inParens _
  case keyValue span key value =>
      refine ⟨fun _ _ _ => ?_, ?_, by simp⟩
      · exact .bind (tidy.1.text _ _ _) fun _ isKey => .bind (tidy.2.text _ _ _) fun _ isValue =>
          .pure ((isKey.append (fair_plain ": " rfl)).append isValue.fair)
      · rintro _ _ _ ⟨⟩ depth
        exact ⟨tidy.1.text _ _ _, tidy.2.text _ _ _⟩
  case arrayType span length elem =>
      refine .of_text (by simp) (by simp) fun _ _ _ => ?_
      exact .bind (optionText_neatly tidy.1 _) fun _ isLength => .bind (tidy.2.text _ _ _) fun _ isElem =>
        .pure (isElem.after (((fair_plain "[" rfl).append isLength).append (fair_plain "]" rfl)))
  case structType span fields =>
      exact .of_text (by simp) (by simp) fun _ _ _ =>
        fieldBlock_neatly tidy (legible_plain "struct" rfl rfl) _
  case funcType type =>
      have signature := signatureText_neatly tidy.1 tidy.2
      refine ⟨fun _ _ _ => ?_, by simp, ?_⟩
      · exact .bind signature fun _ isSignature => .pure (isSignature.after (fair_plain "func" rfl))
      · rintro _ ⟨⟩
        exact signature
  case interfaceType span methods =>
      exact .of_text (by simp) (by simp) fun _ _ _ =>
        fieldBlock_neatly tidy (legible_plain "interface" rfl rfl) _
  case mapType span key value =>
      refine .of_text (by simp) (by simp) fun _ _ _ => ?_
      exact .bind (tidy.1.text _ _ _) fun _ isKey => .bind (tidy.2.text _ _ _) fun _ isValue =>
        .pure ((((legible_plain "map[" rfl rfl).append isKey.fair).append (fair_plain "]" rfl)).append
          isValue.fair)
  case chanType span dir elem =>
      refine .of_text (by simp) (by simp) fun _ _ _ => ?_
      have keyword : Fair (chanKeyword dir) := by
        cases dir
        · exact fair_plain "chan " rfl
        · exact fair_plain "chan<- " rfl
        · exact fair_plain "<-chan " rfl
      exact .bind (tidy.text _ _ _) fun _ isElem => .pure (isElem.after keyword)

theorem block_tidy {body : Block} (tidy : ∀ step ∈ body.stmts, TidyStmt set step) :
    TidyStmt set (.block body) where
  text afterElse := .bind (blockLines_neatly tidy (fair_lead afterElse) true) fun _ _ => .pure tidyText_none
  block := by
    rintro _ ⟨⟩ head fair
    exact ⟨blockLines_neatly tidy fair, blockLines_fills tidy fair, clauseBlock_neatly tidy fair⟩
  clause _ _ _ _ _ _ outcome := absurd outcome (clauseLines_ne_ok rfl)

theorem stmt_tidy {step : Stmt} (worded : (Node.stmt step).Worded)
    (tidy : ∀ child ∈ (Node.stmt step).children, TidyNode set child) : TidyStmt set step := by
  cases step <;>
    simp [Node.children, Node.stmtChildren, Node.block, TidyNode, or_imp, forall_and] at tidy
  case decl span item =>
      exact .of_text (by simp) rfl fun _ => .bind (.of_fills tidy) fun _ _ => .pure tidyText_none
  case empty span =>
      refine .of_text (by simp) rfl fun _ => .pure ?_
      rintro _ ⟨⟩
      exact .inr ⟨rfl, rfl⟩
  case labeled span label inner => exact labeled_tidy (worded.name List.mem_cons_self) tidy.2
  case expr span value =>
      exact .of_text (by simp) rfl fun _ => .bind (tidy.text _ _ _) fun _ isValue =>
        .pure (tidyText_some isValue)
  case send span channel value =>
      refine .of_text (by simp) rfl fun _ => .bind (tidy.1.text _ _ _) fun _ isChannel =>
        .bind (tidy.2.text _ _ _) fun _ isValue => .pure (tidyText_some ?_)
      exact (isChannel.append (fair_plain " <- " rfl)).append isValue.fair
  case incDec span operand tok =>
      exact .of_text (by simp) rfl fun _ => .bind (tidy.text _ _ _) fun _ isOperand =>
        .pure (tidyText_some (isOperand.append (legible_token tok).fair))
  case assign span lhs tok rhs tokPos =>
      refine .of_text (by simp) rfl fun _ => .bind (exprTexts_neatly tidy.1 _) fun lefts areLeft =>
        .bind (exprTexts_neatly tidy.2 _) fun rights areRight => .pure (tidyText_some ?_)
      have left := fair_commas fun text isText => (areLeft.2 text isText).fair
      have right := fair_commas fun text isText => (areRight.2 text isText).fair
      exact (((legible_token tok).after (left.append (fair_plain " " rfl))).append
        (fair_plain " " rfl)).append right
  case go span call =>
      exact .of_text (by simp) rfl fun _ => .bind (tidy.text _ _ _) fun _ isCall =>
        .pure (tidyText_some (isCall.after (fair_plain "go " rfl)))
  case defer span call =>
      exact .of_text (by simp) rfl fun _ => .bind (tidy.text _ _ _) fun _ isCall =>
        .pure (tidyText_some (isCall.after (fair_plain "defer " rfl)))
  case ret span results =>
      refine .of_text (by simp) rfl fun _ =>
        .ite (fun _ => .pure (tidyText_some (legible_plain "return" rfl rfl))) fun _ =>
          .bind (exprTexts_neatly tidy _) fun texts areTexts => .pure (tidyText_some ?_)
      exact (legible_plain "return " rfl rfl).append
        (fair_commas fun text isText => (areTexts.2 text isText).fair)
  case branch span tok label =>
      cases label with
      | none => exact .of_text (by simp) rfl fun _ => .pure (tidyText_some (legible_token tok))
      | some label =>
          have labelLine : IsLine label.name.toList := worded.name List.mem_cons_self
          exact .of_text (by simp) rfl fun _ => .pure (tidyText_some
            (((legible_token tok).append (fair_plain " " rfl)).append labelLine.legible.fair))
  case block body => exact block_tidy tidy
  case ifElse span init cond body otherwise =>
      obtain ⟨initTidy, condTidy, bodyTidy, otherTidy⟩ := tidy
      exact ifElse_tidy initTidy condTidy bodyTidy otherTidy
  case caseClause span exprs body colon =>
      refine caseClause_tidy ?_ tidy.2
      rintro values rfl
      exact tidy.1
  case switch span init tag body =>
      obtain ⟨initTidy, tagTidy, bodyTidy⟩ := tidy
      exact switch_tidy initTidy tagTidy bodyTidy
  case typeSwitch span init guard body =>
      obtain ⟨initTidy, guardTidy, bodyTidy⟩ := tidy
      exact typeSwitch_tidy initTidy guardTidy bodyTidy
  case commClause span comm body colon => exact commClause_tidy tidy.1 tidy.2
  case select span body =>
      exact .of_text (by simp) rfl fun _ => .bind
        (tidy.block body rfl _ (fair_plain "select " rfl)).2.2 fun _ _ => .pure tidyText_none
  case loop span init cond post body =>
      obtain ⟨initTidy, condTidy, postTidy, bodyTidy⟩ := tidy
      exact loop_tidy initTidy condTidy postTidy bodyTidy
  case range span key value tok operand body tokPos =>
      obtain ⟨keyTidy, valueTidy, operandTidy, bodyTidy⟩ := tidy
      exact range_tidy keyTidy valueTidy operandTidy bodyTidy

theorem spec_tidy {item : Spec} (worded : (Node.spec item).Worded)
    (tidy : ∀ child ∈ (Node.spec item).children, TidyNode set child) : TidySpec set item := by
  intro keepType
  cases item with
  | importSpec item =>
      have pathLine : IsLine item.path.value.toList := by
        refine worded.lit ?_
        simp [Node.children, Node.specChildren]
      rw [specCells]
      split
      · exact .pure (.singleton pathLine.legible)
      · next name isName =>
        have nameLine : IsLine name.name.toList := by
          refine worded.name ?_
          simp [Node.children, Node.specChildren, isName]
        exact .pure (.singleton ((nameLine.legible.append (fair_plain " " rfl)).append pathLine.legible.fair))
  | valueSpec span names type values =>
      have namesText := legible_nameList worded.own fun name isName =>
        worded.name (List.mem_append_left _ (List.mem_map_of_mem isName))
      simp [Node.children, Node.specChildren, TidyNode, or_imp, forall_and] at tidy
      obtain ⟨-, typeTidy, valuesTidy⟩ := tidy
      have valuesPart : ∀ typeCells : List String, (∀ cell ∈ typeCells, Fair cell) → Neatly set (do
          let valueCells ←
            if values.isEmpty then pure [] else do pure ["= " ++ commas (← exprTexts 1 values)]
          return dropEmptyEnd (nameList names :: (typeCells ++ valueCells))) LegibleCells := by
        intro typeCells fairType
        refine .ite (fun _ => .pure ?_) fun _ => .bind (exprTexts_neatly valuesTidy _)
          fun texts areTexts => .pure ?_
        · exact legible_dropEmptyEnd namesText (by simpa using fairType)
        · refine legible_dropEmptyEnd namesText (List.forall_mem_append.mpr ⟨fairType, ?_⟩)
          exact List.forall_mem_singleton.mpr ((fair_plain "= " rfl).append
            (fair_commas fun text isText => (areTexts.2 text isText).fair))
      rw [specCells]
      exact .ite (fun _ => .bind (optionText_neatly typeTidy _) fun typeText isType =>
        valuesPart [typeText] (List.forall_mem_singleton.mpr isType)) fun _ => valuesPart [] (by simp)
  | typeSpec span name type isAlias =>
      have nameLine : IsLine name.name.toList := worded.name List.mem_cons_self
      simp [Node.children, Node.specChildren, TidyNode] at tidy
      rw [specCells]
      refine .bind (tidy.2.text _ _ _) fun _ isType => .pure (.singleton (isType.after ?_))
      refine (nameLine.legible.append (fair_plain " " rfl)).fair.append ?_
      split
      · exact fair_plain "= " rfl
      · exact fair_empty

theorem funcDecl_tidy {item : FuncDecl} (worded : (Node.decl (.func item)).Worded)
    (tidy : ∀ child ∈ (Node.decl (.func item)).children, TidyNode set child) :
    Fills set (funcDeclLines item) := by
  obtain ⟨span, recv, name, type, body⟩ := item
  have nameLine : IsLine name.name.toList := by
    refine worded.name ?_
    simp [Node.children, Node.declChildren]
  simp [Node.children, Node.declChildren, Node.block, TidyNode, or_imp, forall_and] at tidy
  obtain ⟨recvTidy, -, typeTidy, bodyTidy⟩ := tidy
  have head {recvText signature : String} (isRecv : Fair recvText) (isSignature : Legible signature) :
      Legible ("func " ++ recvText ++ name.name ++ signature) :=
    (((legible_plain "func " rfl rfl).append isRecv).append nameLine.legible.fair).append isSignature.fair
  have rest {recvText : String} (isRecv : Fair recvText) : Fills set (do
      let head := "func " ++ recvText ++ name.name ++ (← signatureText type)
      match body with
      | none => emit head
      | some body => blockLines (head ++ " ") true body) := by
    refine .bind (typeTidy.signature _ rfl) fun signature isSignature => ?_
    cases body with
    | none => exact emit_fills (head isRecv isSignature)
    | some body =>
        exact ((bodyTidy body rfl).block body rfl _
          ((head isRecv isSignature).append (fair_plain " " rfl)).fair).2.1
  cases recv with
  | none => exact rest fair_empty
  | some recv =>
      refine .bind (paramsText_neatly (recvTidy recv rfl)) fun recvText isRecv => rest ?_
      exact ((fair_plain "(" rfl).append isRecv).append (fair_plain ") " rfl)

theorem decl_tidy {item : Decl} (worded : (Node.decl item).Worded)
    (tidy : ∀ child ∈ (Node.decl item).children, TidyNode set child) : Fills set (declLines item) := by
  cases item with
  | gen item =>
      refine genDeclLines_fills fun spec isSpec => tidy (.spec spec) ?_
      simpa [Node.children, Node.declChildren] using isSpec
  | func item => exact funcDecl_tidy worded tidy

theorem field_tidy {item : Field} (worded : (Node.field item).Worded)
    (tidy : ∀ child ∈ (Node.field item).children, TidyNode set child) : TidyField set item where
  names _ isName := worded.name (List.mem_append_left _ (List.mem_map_of_mem isName))
  type := tidy (.expr item.type) (List.mem_append_right _ List.mem_cons_self)
  tag _ isTag := worded.lit (List.mem_append_right _ (List.mem_cons_of_mem _
    (List.mem_map_of_mem (Option.mem_toList.mpr isTag))))

end Trees

/-- A tree of which all names and literals are lines is printed neatly. -/
theorem worded_tidy {node : Node} (worded : node.Worded) (set : Option FileSet) : TidyNode set node := by
  induction worded with
  | @node node own children tidy =>
      have worded : node.Worded := .node own children
      cases node with
      | expr value => exact expr_tidy worded tidy
      | field item => exact field_tidy worded tidy
      | fieldList list =>
          refine fun field isField => tidy (.field field) ?_
          simpa [Node.children] using isField
      | stmt step => exact stmt_tidy worded tidy
      | spec item => exact spec_tidy worded tidy
      | decl item => exact decl_tidy worded tidy
      | file source =>
          refine fileLines_fills (fun item isItem => tidy (.decl item) ?_) (worded.name List.mem_cons_self)
          exact List.mem_cons_of_mem _ (List.mem_map_of_mem isItem)
      | comment text => trivial

end Layout

/-- Whether all names, literals and comments of a file are lines. -/
structure File.WritesLines (file : File) : Prop where
  worded : (Node.file file).Worded
  comments : ∀ comment ∈ file.comments, Layout.IsLine comment.text.toList

/-- A file that writes lines is printed as a tidy text. -/
theorem File.WritesLines.print_tidy {file : File} (writes : file.WritesLines) {shown : Option FileSet}
    {text : String} (printed : file.print shown = .ok text) : Layout.IsTidy text := by
  have fills : Layout.Fills shown (Layout.fileLines file) := Layout.worded_tidy writes.worded shown
  unfold File.print Layout.linesOf at printed
  simp only [ReaderT.run, StateT.run] at printed
  cases outcome : Layout.fileLines file shown
      { comments := file.comments.mergeSort fun first second => first.span.start ≤ second.span.start } with
  | error error => simp [outcome, Bind.bind, Except.bind] at printed
  | ok pair =>
      obtain ⟨⟨⟩, page⟩ := pair
      rw [outcome] at printed
      obtain rfl := Except.ok.inj printed
      have isFull := fills _ _ _ ⟨.begun .nothing, fun comment isComment =>
        writes.comments comment (List.mem_mergeSort.mp isComment)⟩ outcome
      exact isFull.lines.reverse.legible.isTidy

end GoMend
