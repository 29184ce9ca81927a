import GoMend.Proofs.Layout.Rows
import GoMend.Proofs.Tree.Sound

/-!
# Marks in lines

Statements and declarations write lines.  Before each of them the comments are taken that stand
before it, and the rest of the comments is written after the last declaration.
-/

namespace GoMend

namespace Layout

/-! ### Statements -/

/-- The marks of the text of a statement, if it has one. -/
def Watch.textMarks (watch : Watch) (text : Option String) : List Char :=
  watch.marks (text.getD "")

/-- Whether the marks of a statement are kept: as a text or in lines, as the body of another one, and
as a clause before others. -/
structure KeepsStmt (watch : Watch) (step : Stmt) : Prop where
  text : ∀ afterElse, Keeps watch [] (stmtText afterElse step) watch.textMarks
  simple : isSimple step → Gives watch [] (stmtText false step) (Weighs watch.textMarks)
  block : ∀ body, step = .block body → ∀ head,
    (∀ closed, Emits watch (watch.marks head) (blockLines head closed body)) ∧
      Emits watch (watch.marks head) (clauseBlock head body)
  clause : ∀ rest, Emits watch [] (clauseLines rest) → Emits watch [] (clauseLines (step :: rest))
  start : isEmptyStmt step = false → step.span.start ≠ noPos → watch.asked step.span.start

section Statements

variable {watch : Watch} {held : List Char}

theorem simpleText_gives {step : Stmt} (kept : KeepsStmt watch step) :
    GivesText watch (simpleText step (stmtText false step)) :=
  .ite (fun isSimple => .text (kept.simple isSimple) fun _ => .pure rfl) fun _ => .throw _

theorem staysOnOneLine_writes (span : Span) : Writes watch [] (staysOnOneLine span) :=
  .ite (fun _ => .pure _) fun _ => .bind get_writes fun _ => .ite (fun _ => .pure _) fun _ =>
    .bind (lineOf_writes _) fun _ => .bind (lineOf_writes _) fun _ => .pure _

theorem clauseLines_emits {clauses : List Stmt} (kept : ∀ clause ∈ clauses, KeepsStmt watch clause) :
    Emits watch [] (clauseLines clauses) := by
  induction clauses with
  | nil => exact .pure rfl
  | cons clause clauses ih =>
      obtain ⟨first, others⟩ := List.forall_mem_cons.mp kept
      exact first.clause clauses (ih others)

/-- Only clauses can be printed as clauses. -/
theorem clauseLines_ne_ok {step : Stmt} (notClause : step.isClause = false) {rest : List Stmt}
    {set : Option FileSet} {page : Page} {result : Unit × Page} :
    clauseLines (step :: rest) set page ≠ .ok result := by
  intro outcome
  cases step
  case caseClause => cases notClause
  case commClause => cases notClause
  all_goals
    change (advance _ false >>= _) set page = _ at outcome
    obtain ⟨_, _, -, outcome⟩ := bind_eq_ok.mp outcome
    cases outcome

theorem clauseLines_of_notClause {step : Stmt} (notClause : step.isClause = false) (rest : List Stmt) :
    Emits watch held (clauseLines (step :: rest)) :=
  fun _ _ _ _ outcome => absurd outcome (clauseLines_ne_ok notClause)

/-- A statement that is a text. -/
theorem KeepsStmt.of_simple {step : Stmt} (notBlock : ∀ body, step ≠ .block body)
    (notClause : step.isClause = false)
    (gives : ∀ afterElse, Gives watch [] (stmtText afterElse step) (Weighs watch.textMarks))
    (start : isEmptyStmt step = false → step.span.start ≠ noPos → watch.asked step.span.start) :
    KeepsStmt watch step where
  text afterElse := .of_gives (gives afterElse)
  simple _ := gives false
  block body isBlock := absurd isBlock (notBlock body)
  clause rest _ := clauseLines_of_notClause notClause rest
  start := start

/-- A statement that writes lines. -/
theorem KeepsStmt.of_lines {step : Stmt} (notSimple : isSimple step = false)
    (notBlock : ∀ body, step ≠ .block body) (notClause : step.isClause = false)
    (lines : ∀ afterElse, Keeps watch [] (stmtText afterElse step) watch.textMarks)
    (start : isEmptyStmt step = false → step.span.start ≠ noPos → watch.asked step.span.start) :
    KeepsStmt watch step where
  text := lines
  simple isSimple := absurd (notSimple.symm.trans isSimple) Bool.false_ne_true
  block body isBlock := absurd isBlock (notBlock body)
  clause rest _ := clauseLines_of_notClause notClause rest
  start := start

variable (foreign : watch.Foreign)

include foreign

theorem emitText_emits {printed : Print (Option String)}
    (kept : Keeps watch [] printed watch.textMarks) : Emits watch [] (emitText printed) := by
  refine .bind kept fun text => ?_
  cases text with
  | none => exact .pure rfl
  | some text => exact .of_writes (emit_writes foreign text)

theorem initText_gives {init : Option Stmt} (kept : ∀ step ∈ init, KeepsStmt watch step) :
    GivesText watch (initText init) := by
  cases init with
  | none => exact .pure rfl
  | some step =>
      exact .text (simpleText_gives (kept step rfl)) fun text =>
        .pure (by simp [Weighs, foreign.plain "; " rfl])

theorem stmtLines_emits {stmts : List Stmt} (kept : ∀ step ∈ stmts, KeepsStmt watch step) :
    Emits watch [] (stmtLines stmts) := by
  induction stmts with
  | nil => exact .pure rfl
  | cons step stmts ih =>
      obtain ⟨first, others⟩ := List.forall_mem_cons.mp kept
      refine .ite (fun notEmpty => ?_) fun _ => ih others
      exact .bind (advance_emits foreign (first.start (by simpa using notEmpty)) _) fun _ =>
        .bind (emitText_emits foreign (first.text _)) fun _ =>
          .still (finish_writes _) fun _ => ih others

theorem blockLines_emits {body : Block} (kept : ∀ step ∈ body.stmts, KeepsStmt watch step)
    (isAsked : body.span.isPositioned → watch.asked (body.span.stop - 1)) (head : String)
    (closed : Bool) : Emits watch (watch.marks head) (blockLines head closed body) := by
  obtain ⟨span, stmts⟩ := body
  have inner : Emits watch [] (do
      stmtLines stmts
      if span.isPositioned then
        advance (span.stop - 1) false) :=
    .bind (stmtLines_emits foreign kept) fun _ =>
      .ite (fun isPositioned => advance_emits foreign (fun _ => isAsked isPositioned) _) fun _ =>
        .pure rfl
  refine .still (staysOnOneLine_writes _) fun _ => .ite (fun _ => ?_) fun _ => ?_
  · refine .bind (Keeps.cast (.of_writes (emit_writes foreign _)) ?_) fun _ => .of_writes
      (finish_writes _)
    split <;> simp [foreign.plain "\x7b\x7d" rfl, foreign.plain "\x7b" rfl]
  · refine .bind (Keeps.cast (.of_writes (emit_writes foreign _)) ?_) fun _ =>
      .still (finish_writes _) fun _ => .bind (.nested inner) fun _ => .ite (fun _ => ?_) fun _ => ?_
    · simp [foreign.plain "\x7b" rfl]
    · exact .still (foreign.plain "\x7d" rfl ▸ emit_writes foreign _) fun _ => .of_writes
        (finish_writes _)
    · exact .of_writes (finish_writes _)

theorem clauseBlock_emits {body : Block} (kept : ∀ clause ∈ body.stmts, KeepsStmt watch clause)
    (isAsked : body.span.isPositioned → watch.asked (body.span.stop - 1)) (head : String) :
    Emits watch (watch.marks head) (clauseBlock head body) := by
  obtain ⟨span, clauses⟩ := body
  have ending : Emits watch [] (do
      emit "\x7d"
      finish span.stop) :=
    .still (foreign.plain "\x7d" rfl ▸ emit_writes foreign _) fun _ => .of_writes (finish_writes _)
  refine .bind (Keeps.cast (.of_writes (emit_writes foreign _)) ?_) fun _ =>
    .still (finish_writes _) fun _ => .bind (clauseLines_emits kept) fun _ =>
      .ite (fun isPositioned => ?_) fun _ => ending
  · simp [foreign.plain "\x7b" rfl]
  · exact .bind (advance_emits foreign (fun _ => isAsked isPositioned) _) fun _ => ending

/-- A clause and those after it, when its head is written. -/
theorem clauseTail_emits {stmts rest : List Stmt} (pos : Pos)
    (kept : ∀ step ∈ stmts, KeepsStmt watch step) (restKept : Emits watch [] (clauseLines rest)) :
    Emits watch [] (do
      finish pos
      nested (stmtLines stmts)
      clauseLines rest) :=
  .still (finish_writes _) fun _ => .bind (.nested (stmtLines_emits foreign kept)) fun _ => restKept

theorem caseClause_kept {span : Span} {exprs : Option (List Expr)} {body : List Stmt} {colon : Pos}
    (start : span.start ≠ noPos → watch.asked span.start)
    (exprsKept : ∀ values ∈ exprs, ∀ value ∈ values, KeepsExpr watch value)
    (bodyKept : ∀ step ∈ body, KeepsStmt watch step) :
    KeepsStmt watch (.caseClause span exprs body colon) where
  text _ := .throw _
  simple := nofun
  block := nofun
  clause rest restKept := by
    have tail := fun pos => clauseTail_emits foreign pos bodyKept restKept
    rw [clauseLines]
    refine .bind (advance_emits foreign start _) fun _ => ?_
    cases exprs with
    | none => exact .still (foreign.plain "default:" rfl ▸ emit_writes foreign _) fun _ => tail _
    | some values =>
        refine .text (exprTexts_gives (exprsKept values rfl) _) fun texts =>
          .bind (Keeps.cast (.of_writes (emit_writes foreign _)) ?_) fun _ => tail _
        simp [foreign.plain "case " rfl, foreign.plain ":" rfl, foreign.commas]
  start _ := start

theorem commClause_kept {span : Span} {comm : Option Stmt} {body : List Stmt} {colon : Pos}
    (start : span.start ≠ noPos → watch.asked span.start)
    (commKept : ∀ step ∈ comm, KeepsStmt watch step) (bodyKept : ∀ step ∈ body, KeepsStmt watch step) :
    KeepsStmt watch (.commClause span comm body colon) where
  text _ := .throw _
  simple := nofun
  block := nofun
  clause rest restKept := by
    have tail := fun pos => clauseTail_emits foreign pos bodyKept restKept
    rw [clauseLines]
    refine .bind (advance_emits foreign start _) fun _ => ?_
    cases comm with
    | none => exact .still (foreign.plain "default:" rfl ▸ emit_writes foreign _) fun _ => tail _
    | some step =>
        refine .text (simpleText_gives (commKept step rfl)) fun text =>
          .bind (Keeps.cast (.of_writes (emit_writes foreign _)) ?_) fun _ => tail _
        simp [foreign.plain "case " rfl, foreign.plain ":" rfl]
  start _ := start

section Compound

variable {span : Span} {init : Option Stmt} {body : Block} {afterElse : Bool}

theorem labeled_keeps {label : Ident} {inner : Stmt} (plain : watch.marks label.name = [])
    (kept : KeepsStmt watch inner) :
    Keeps watch [] (stmtText afterElse (.labeled span label inner)) watch.textMarks := by
  have emitted : Emits watch [] (emitOutdented (label.name ++ ":")) :=
    (Keeps.of_writes (emitOutdented_writes foreign _)).cast (by simp [plain, foreign.plain ":" rfl])
  refine .bind emitted fun _ => .still (finish_writes _) fun _ => .ite (fun notEmpty => ?_)
    fun _ => .pure rfl
  exact .bind (advance_emits foreign (kept.start (by simpa using notEmpty)) _) fun _ =>
    .bind (emitText_emits foreign (kept.text _)) fun _ => .pure rfl

theorem ifElse_keeps {cond : Expr} {otherwise : Option Stmt}
    (initKept : ∀ step ∈ init, KeepsStmt watch step) (condKept : KeepsExpr watch cond)
    (bodyKept : KeepsStmt watch (.block body)) (otherKept : ∀ step ∈ otherwise, KeepsStmt watch step) :
    Keeps watch [] (stmtText afterElse (.ifElse span init cond body otherwise)) watch.textMarks := by
  have lead : watch.marks (if afterElse then "\x7d else " else "") = [] := by
    split
    · exact foreign.plain "\x7d else " rfl
    · rfl
  have head (initText condText : String) :
      watch.marks ((if afterElse then "\x7d else " else "") ++ "if " ++ initText ++ condText ++ " ") =
        [] ++ watch.marks initText ++ watch.marks condText := by
    simp [lead, foreign.plain "if " rfl, foreign.plain " " rfl]
  cases otherwise with
  | none =>
      exact .text (initText_gives foreign initKept) fun initText =>
        .text (condKept.text _ _ _) fun condText =>
          .bind (Keeps.cast ((bodyKept.block body rfl _).1 _) (head _ _)) fun _ => .pure rfl
  | some branch =>
      exact .text (initText_gives foreign initKept) fun initText =>
        .text (condKept.text _ _ _) fun condText =>
          .bind (Keeps.cast ((bodyKept.block body rfl _).1 _) (head _ _)) fun _ =>
            .ite (fun _ => (otherKept branch rfl).text _) fun _ => .throw _

theorem switch_keeps {tag : Option Expr} (initKept : ∀ step ∈ init, KeepsStmt watch step)
    (tagKept : ∀ value ∈ tag, KeepsExpr watch value) (bodyKept : KeepsStmt watch (.block body)) :
    Keeps watch [] (stmtText afterElse (.switch span init tag body)) watch.textMarks := by
  cases tag with
  | none =>
      refine .text (initText_gives foreign initKept) fun initText => .known
        (.bind (Keeps.cast (bodyKept.block body rfl _).2 ?_) fun _ => .pure rfl)
      simp [foreign.plain "switch " rfl]
  | some tag =>
      refine .text (initText_gives foreign initKept) fun initText =>
        .text ((tagKept tag rfl).text _ _ _) fun tagText => .known
          (.bind (Keeps.cast (bodyKept.block body rfl _).2 ?_) fun _ => .pure rfl)
      simp [foreign.plain "switch " rfl, foreign.plain " " rfl]

theorem typeSwitch_keeps {guard : Stmt} (initKept : ∀ step ∈ init, KeepsStmt watch step)
    (guardKept : KeepsStmt watch guard) (bodyKept : KeepsStmt watch (.block body)) :
    Keeps watch [] (stmtText afterElse (.typeSwitch span init guard body)) watch.textMarks := by
  refine .text (initText_gives foreign initKept) fun initText =>
    .text (simpleText_gives guardKept) fun guardText =>
      .bind (Keeps.cast (bodyKept.block body rfl _).2 ?_) fun _ => .pure rfl
  simp [foreign.plain "switch " rfl, foreign.plain " " rfl]

/-- The body of a loop after its head. -/
theorem loopBody_keeps {body : Option Block} (kept : ∀ inner ∈ body, KeepsStmt watch (.block inner))
    {head : String} (headEq : watch.marks head = held) :
    Keeps watch held
      (match body with
        | none => do
            emit (head ++ "\x7b\x7d")
            return none
        | some body => do
            blockLines head true body
            return none)
      watch.textMarks := by
  cases body with
  | none =>
      refine .bind (Keeps.cast (.of_writes (emit_writes foreign _)) ?_) fun _ => .pure rfl
      simp [headEq, foreign.plain "\x7b\x7d" rfl]
  | some body =>
      exact .bind ((((kept body rfl).block body rfl head).1 true).cast headEq) fun _ => .pure rfl

theorem loop_keeps {cond : Option Expr} {post : Option Stmt} {body : Option Block}
    (initKept : ∀ step ∈ init, KeepsStmt watch step) (condKept : ∀ value ∈ cond, KeepsExpr watch value)
    (postKept : ∀ step ∈ post, KeepsStmt watch step)
    (bodyKept : ∀ inner ∈ body, KeepsStmt watch (.block inner)) :
    Keeps watch [] (stmtText afterElse (.loop span init cond post body)) watch.textMarks := by
  have clauses (initPart condPart postPart : String) :
      watch.marks ("for " ++ Text.trimEnd (initPart ++ "; " ++ condPart ++ "; " ++ postPart) ++ " ") =
        watch.marks initPart ++ watch.marks condPart ++ watch.marks postPart := by
    simp [foreign.trimEnd, foreign.plain "for " rfl, foreign.plain " " rfl, foreign.plain "; " rfl]
  have condOnly (condPart : String) : watch.marks
    ("for " ++ condPart ++ " ") = watch.marks condPart := by
    simp [foreign.plain "for " rfl, foreign.plain " " rfl]
  have noHead : watch.marks "for " = [] := foreign.plain "for " rfl
  have condText := optionText_gives condKept 1
  have tail {head : String} {held : List Char} := @loopBody_keeps _ held foreign body bodyKept head
  cases body
  all_goals cases init with
  | none =>
      cases post with
      | none =>
          cases cond with
          | none => exact .known (.known (.known (tail noHead)))
          | some cond =>
              exact .known (.text condText fun condPart => .known (tail (condOnly condPart)))
      | some post =>
          have postText := simpleText_gives (postKept post rfl)
          exact .known (.text condText fun condPart => .text postText fun postPart =>
            tail (clauses "" condPart postPart))
  | some init =>
      have initText := simpleText_gives (initKept init rfl)
      cases post with
      | none =>
          exact .text initText fun initPart => .text condText fun condPart =>
            .known (tail ((clauses initPart condPart "").trans (List.append_nil _)))
      | some post =>
          have postText := simpleText_gives (postKept post rfl)
          exact .text initText fun initPart => .text condText fun condPart =>
            .text postText fun postPart => tail (clauses initPart condPart postPart)

theorem range_keeps {key value : Option Expr} {tok : Option Token} {operand : Expr}
    {body : Option Block} {tokPos : Pos} (keyKept : ∀ target ∈ key, KeepsExpr watch target)
    (valueKept : ∀ target ∈ value, KeepsExpr watch target) (operandKept : KeepsExpr watch operand)
    (tokPlain : ∀ token ∈ tok, watch.marks token.text = [])
    (bodyKept : ∀ inner ∈ body, KeepsStmt watch (.block inner)) :
    Keeps watch [] (stmtText afterElse (.range span key value tok operand body tokPos)) watch.textMarks := by
  have tokEq : watch.marks (tok.getD .define).text = [] := by
    cases tok with
    | none => exact foreign.plain ":=" rfl
    | some tok => exact tokPlain tok rfl
  have head (targets operandText : String) :
      watch.marks ("for " ++ targets ++ "range " ++ operandText ++ " ") =
        watch.marks targets ++ watch.marks operandText := by
    simp [foreign.plain "for " rfl, foreign.plain " " rfl, foreign.plain "range " rfl]
  have targets (keyText valueText operandText : String) :
      watch.marks ("for " ++ (keyText ++ valueText ++ " " ++ (tok.getD .define).text ++ " ") ++
        "range " ++ operandText ++ " ") =
          watch.marks keyText ++ watch.marks valueText ++ watch.marks operandText := by
    simp [head, tokEq, foreign.plain " " rfl]
  have comma (text : String) : watch.marks (", " ++ text) = watch.marks text := by
    simp [foreign.plain ", " rfl]
  have tail {head : String} {held : List Char} := @loopBody_keeps _ held foreign body bodyKept head
  have operandText := operandKept.text none 0 1
  cases body
  all_goals cases key with
  | none => exact .known (.text operandText fun operandText => tail (head _ _))
  | some key =>
      have keyText := (keyKept key rfl).text none 0 1
      cases value with
      | none =>
          refine .text keyText fun keyText => .known (.known (.text operandText fun operandText =>
            tail ((targets keyText "" operandText).trans ?_)))
          simp
      | some value =>
          have valueText := (valueKept value rfl).text none 0 1
          refine .text keyText fun keyText => .text valueText fun valueText =>
            .known (.known (.text operandText fun operandText =>
              tail ((targets keyText (", " ++ valueText) operandText).trans ?_)))
          simp [comma]

end Compound

end Statements

/-! ### Declarations -/

/-- Whether the marks of an item of a declaration are kept. -/
structure KeepsSpec (watch : Watch) (item : Spec) : Prop where
  cells : ∀ keepType, GivesTexts watch (specCells keepType item)
  start : noPos < item.span.start → watch.asked item.span.start

/-- Whether the marks of a declaration are kept. -/
structure KeepsDecl (watch : Watch) (item : Decl) : Prop where
  lines : Emits watch [] (declLines item)
  start : item.span.start ≠ noPos → watch.asked item.span.start

section Declarations

variable {watch : Watch} {found : List Char}

/-- Cells without the empty ones at their end. -/
theorem allMarks_dropEmptyEnd (cells : List String) :
    watch.allMarks (dropEmptyEnd cells) = watch.allMarks cells := by
  cases cells with
  | nil => rfl
  | cons first rest =>
      have dropped : watch.allMarks (rest.reverse.takeWhile (·.isEmpty)).reverse = [] := by
        refine List.flatMap_eq_nil_iff.mpr fun text isText => ?_
        obtain rfl : text = "" := by
          simpa using List.mem_takeWhile_imp (List.mem_reverse.mp isText)
        rfl
      have split : rest = (rest.reverse.dropWhile (·.isEmpty)).reverse ++
          (rest.reverse.takeWhile (·.isEmpty)).reverse := by
        rw [← List.reverse_append, List.takeWhile_append_dropWhile, List.reverse_reverse]
      rw [dropEmptyEnd, watch.allMarks_cons, watch.allMarks_cons]
      conv_rhs => rw [split, watch.allMarks_append, dropped, List.append_nil]

variable (foreign : watch.Foreign)

include foreign

theorem specRows_gives {specs : List Spec} {keepType : Bool}
    (kept : ∀ item ∈ specs, KeepsSpec watch item) {rows : Rows} (hold : RowsHold watch rows found) :
    Gives watch found (specRows keepType rows specs) (RowsHold watch) := by
  induction specs generalizing rows found with
  | nil => exact .pure hold
  | cons item specs ih =>
      obtain ⟨first, others⟩ := List.forall_mem_cons.mp kept
      exact .bind (beforeItem_gives foreign hold first.start) fun _ _ hold =>
        .text (first.cells _) fun cells =>
          .bind (addItem_gives foreign hold cells _) fun _ _ hold => ih others hold

theorem genDeclLines_emits {item : GenDecl} (kept : ∀ spec ∈ item.specs, KeepsSpec watch spec)
    (plain : watch.marks item.tok.text = [])
    (isAsked : noPos < item.span.stop - 1 → watch.asked (item.span.stop - 1)) :
    Emits watch [] (genDeclLines item) := by
  obtain ⟨span, tok, specs, grouped⟩ := item
  unfold genDeclLines
  refine .ite (fun _ => ?_) fun notGrouped => ?_
  · have inner : Emits watch [] (nested do
        let rows ← specRows (specs.any hasType) { prevLine := (← MonadState.get).lastLine } specs
        (← rows.close (span.stop - 1)).forM emit) := by
      refine .nested (.get fun page => .given (specRows_gives foreign kept ⟨by simp, rfl⟩)
        fun rows found hold =>
        .given (close_gives foreign hold isAsked) fun lines found isFound => ?_)
      subst isFound
      exact .of_writes (.forM fun line _ => emit_writes foreign line)
    have opening : watch.marks (tok.text ++ " (") = [] := by simp [plain, foreign.plain " (" rfl]
    exact .still (opening ▸ emit_writes foreign _) fun _ => .still (finish_writes _) fun _ =>
      .bind inner fun _ => .of_writes (foreign.plain ")" rfl ▸ emit_writes foreign _)
  · cases specs with
    | nil => exact .throw _
    | cons spec specs =>
        refine .text ((kept spec List.mem_cons_self).cells _) fun cells =>
          Keeps.cast (.of_writes (emit_writes foreign _)) ?_
        simp [plain, foreign.plain " " rfl, foreign.joined, watch.allMarks_filter]

theorem declList_emits {decls : List Decl} (kept : ∀ item ∈ decls, KeepsDecl watch item) (prev : Option Token) :
    Emits watch [] (declList prev decls) := by
  induction decls generalizing prev with
  | nil => exact .pure rfl
  | cons item decls ih =>
      obtain ⟨first, others⟩ := List.forall_mem_cons.mp kept
      have tail : ∀ keyword, Emits watch [] (do
          declLines item
          finish item.span.stop
          declList (some keyword) decls) := fun keyword =>
        .bind first.lines fun _ => .still (finish_writes _) fun _ => ih others _
      exact .ite (fun _ => .bind (advance_emits foreign first.start _) fun _ => tail _) fun _ =>
        .still blankLine_writes fun _ => tail _

/-- A file takes all comments, and writes them in their order. -/
theorem fileLines_conserves {file : File} (kept : ∀ item ∈ file.decls, KeepsDecl watch item)
    (plain : watch.marks file.package.name = [])
    (start : file.package.span.start ≠ noPos → watch.asked file.package.span.start) {page after : Page}
    (inOrder : InOrder page.comments) (outcome : fileLines file watch.set page = .ok ((), after)) :
    watch.pageMarks after = watch.pageMarks page ++ watch.commentMarks page.comments := by
  have declared : Emits watch [] (do
      advance file.package.span.start false
      emit ("package " ++ file.package.name)
      finish file.package.span.stop
      declList none file.decls) :=
    .bind (advance_emits foreign start _) fun _ =>
      .still (by simpa [plain, foreign.plain "package " rfl] using
        emit_writes foreign ("package " ++ file.package.name)) fun _ =>
          .still (finish_writes _) fun _ => declList_emits foreign kept _
  have flushed : fileLines file = (do
      advance file.package.span.start false
      emit ("package " ++ file.package.name)
      finish file.package.span.stop
      declList none file.decls) >>= fun _ => (do
        let comments := (← MonadState.get).comments
        modify fun page => { page with comments := [] }
        comments.forM trailingComment) := by
    simp only [fileLines, bind_assoc]
  rw [flushed] at outcome
  obtain ⟨_, middle, isDeclared, outcome⟩ := bind_eq_ok.mp outcome
  obtain ⟨taken, isTaken, marks⟩ := declared _ _ _ inOrder isDeclared
  obtain ⟨_, _, ⟨⟩, outcome⟩ := bind_eq_ok.mp outcome
  obtain ⟨_, _, ⟨⟩, outcome⟩ := bind_eq_ok.mp outcome
  have trailing := Writes.forM fun comment (_ : comment ∈ middle.comments) =>
    trailingComment_writes foreign comment
  obtain ⟨-, marks'⟩ := trailing _ _ _ outcome
  rw [isTaken.split, watch.commentMarks_append, marks', ← List.append_assoc]
  refine congrArg (· ++ watch.commentMarks middle.comments) ?_
  rwa [List.append_nil, List.nil_append] at marks

end Declarations

end Layout

end GoMend
