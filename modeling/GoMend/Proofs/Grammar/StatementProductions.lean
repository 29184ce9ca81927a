import GoMend.Proofs.Grammar.Productions

/-!
# The behaviour of statements and declarations

The productions of statements and declarations behave as those of expressions do.  From this the
productions behave at every depth of unrolling, the better the deeper they are unrolled.
-/

namespace GoMend

open Token (Any)

namespace Parse

variable {valid : Pos → Prop} {Here : Token → Prop} {limit wide : Nat} {rules : Rules}

/-! ### Declarations of items -/

theorem importSpec_behaves :
    Behaves valid Here 1 limit (fun spec => (Node.spec spec).IsGraded) importSpec := by
  have path {There : Token → Prop} (start : Pos) (name : Option Ident) : Behaves valid There 1 limit
      (fun spec => (Node.spec spec).IsGraded) (do
        if (← token) = .string then
          let path ← literal
          return .importSpec ⟨⟨start, path.span.stop⟩, name, path⟩
        else
          expected "import path") := by
    refine .bind_token fun tok _ => .ite (fun isString => ?_) fun _ => .expected
    refine .bind_step (Nat.le_succ limit) (literal_behaves (by simp [isString])) fun path _ =>
      .pure (Node.isGraded_of_children trivial ?_)
    simp [Node.children, Node.specChildren, or_imp, forall_and]
  refine .bind_pos fun start _ => .bind_token fun tok _ => ?_
  split
  · exact .bind ident_behaves.option fun name _ => path start name
  · exact .bind_advance (by decide) (Nat.le_succ limit) (path start _).relax
  · exact path start none

theorem valueSpec_behaves (behave : rules.Behave valid limit) (keyword : Token) :
    Behaves valid Here 1 limit (fun spec => (Node.spec spec).IsGraded) (valueSpec rules keyword) := by
  refine .bind_pos fun start _ => .bind_step (Nat.le_succ limit) identList_behaves fun names _ =>
    .bind_token fun tok _ => ?_
  have rest (type : Option Expr) (typeGraded : ∀ value ∈ type, (Node.expr value).IsGraded) :
      Behaves valid Any 0 limit (fun spec => (Node.spec spec).IsGraded) (do
        if ← accept .assign then
          let values ← exprList rules
          return .valueSpec ⟨start, ← prevStop⟩ names type (values.1 :: values.2)
        else if keyword = .kwVar && type.isNone then
          expected "type"
        else
          return .valueSpec ⟨start, ← prevStop⟩ names type []) := by
    refine .bind_accept (by decide) fun found => .ite (fun _ => ?_) fun _ =>
      .ite (fun _ => .expected) fun _ => .bind_prevStop fun stop =>
        .pure (Node.isGraded_of_children trivial ?_)
    · refine .bind (exprList_behaves behave behave.expr (Nat.le_succ limit)) fun values isRead =>
        .bind_prevStop fun stop => .pure (Node.isGraded_of_children trivial ?_)
      have valuesGraded (value : Expr) (isValue : value ∈ values.2) := (isRead.2 value isValue).graded
      simpa [Node.children, Node.specChildren, or_imp, forall_and, isRead.1.graded] using
        ⟨typeGraded, valuesGraded⟩
    · simpa [Node.children, Node.specChildren, or_imp, forall_and] using typeGraded
  split
  · exact (rest none (by simp)).here
  · exact (rest none (by simp)).here
  · exact (rest none (by simp)).here
  · exact .bind behave.type.here.option fun type isOperand =>
      rest type fun value isType => (isOperand value isType).graded

theorem typeSpec_behaves (behave : rules.Behave valid limit) :
    Behaves valid Here 1 limit (fun spec => (Node.spec spec).IsGraded) (typeSpec rules) := by
  refine .bind_step (Nat.le_succ limit) ident_behaves (fun name _ => .bind_get fun cursor _ _ => ?_)
  have rest : Behaves valid Any 0 limit (fun spec => (Node.spec spec).IsGraded) (do
      let isAlias ← accept .assign
      let type ← rules.type
      return .typeSpec ⟨name.span.start, ← prevStop⟩ name type isAlias) := by
    refine .bind_accept (by decide) fun found => .bind behave.type fun type isOperand =>
      .bind_prevStop fun stop => .pure (Node.isGraded_of_children trivial ?_)
    simp [Node.children, Node.specChildren, isOperand.graded]
  split
  · exact .failBind (by simp)
  · exact rest.here

theorem genDecl_behaves {keyword : Token} {item : Parse Spec} (notEnd : keyword ≠ .endOfFile)
    (itemBehaves : Behaves valid Any 1 limit (fun spec => (Node.spec spec).IsGraded) item) :
    Behaves valid Here 1 (limit + 1) (fun decl => (Node.decl (.gen decl)).IsGraded)
      (genDecl keyword item) := by
  refine .bind_expect notEnd (Nat.le_refl _) (fun start _ => .bind_accept (by decide) fun grouped => ?_)
  have rest (specs : List Spec) (graded : ∀ spec ∈ specs, (Node.spec spec).IsGraded) :
      Behaves valid Any 0 limit (fun decl => (Node.decl (.gen decl)).IsGraded) (do
        let stop ← prevStop
        expectEnd
        return (⟨⟨start, stop⟩, keyword, specs, grouped⟩ : GenDecl)) := by
    refine .bind_prevStop fun stop => .bind_expectEnd (.pure (Node.isGraded_of_children trivial ?_))
    simpa [Node.children, Node.declChildren] using graded
  split
  · have member : Behaves valid Any 1 limit (fun spec => (Node.spec spec).IsGraded)
        (do let spec ← item; expectEnd; return spec) :=
      .bind_step (Nat.le_succ limit) itemBehaves (fun spec graded => .bind_expectEnd (.pure graded))
    exact .bind (.manyWhile (.bind_token fun tok _ => .pure trivial) member) fun specs graded =>
      .bind (.expect (by decide)) fun _ _ => .bind (.pure graded) rest
  · exact .bind itemBehaves fun spec graded => rest [spec] (by simpa using graded)

/-! ### Simple statements -/

theorem rangeClause_behaves (behave : rules.Behave valid limit) {key : Expr} {others : List Expr}
    {tok : Token} {tokPos : Pos} (keyRead : key.IsRead valid)
    (othersRead : ∀ value ∈ others, value.IsRead valid) :
    Behaves valid Here 0 limit (Stmt.IsRead valid) (rangeClause rules key others tok tokPos) := by
  refine .relax (.bind_expect (by decide) (Nat.le_succ limit)
    (fun _ _ => .bind behave.expr fun operand operandRead => ?_))
  have result (value : Option Expr) (graded : ∀ second ∈ value, (Node.expr second).IsGraded) :
      Stmt.IsRead valid (.range ⟨key.span.start, operand.span.stop⟩ (some key) value (some tok)
        operand none tokPos) := by
    refine Stmt.isRead_of_children keyRead.start ?_
    simpa [Node.children, Node.stmtChildren, or_imp, forall_and, keyRead.graded,
      operandRead.graded] using graded
  split
  next third _ => exact .failAt (othersRead third (by simp)).start (by simp)
  next =>
    refine .pure (result _ fun second isSecond => (othersRead second ?_).graded)
    exact List.mem_of_mem_head? isSecond

theorem labeledFrom_behaves (behave : rules.Behave valid limit) {label : Ident}
    (labelValid : valid label.span.start) :
    Behaves valid Here 0 limit (Stmt.IsRead valid) (labeledFrom rules label) := by
  have rest (inner : Stmt) (graded : (Node.stmt inner).IsGraded) :
      Behaves valid Any 0 limit (Stmt.IsRead valid) (do
        let prev ← prevStop
        let stop := if inner.span.stop = noPos then prev else inner.span.stop
        return .labeled ⟨label.span.start, stop⟩ label inner) := by
    refine .bind_prevStop fun prev => .pure (Stmt.isRead_of_children labelValid ?_)
    simpa [Node.children, Node.stmtChildren] using graded
  have empty (here : Pos) : (Node.stmt (.empty ⟨here, here⟩)).IsGraded :=
    Node.isGraded_of_children trivial (by simp [Node.children, Node.stmtChildren])
  refine .bind_token fun tok _ => ?_
  split
  · exact .bind_pos fun here _ => (rest _ (empty here)).here
  · refine .bind behave.stmt.here fun step graded => ?_
    cases step with
    | none => exact .bind_prevStop fun here => rest _ (empty here)
    | some step => exact rest step (graded step rfl)

/-- A statement of one expression. -/
theorem isRead_exprStmt {value : Expr} (isRead : value.IsRead valid) :
    Stmt.IsRead valid (.expr value.span value) :=
  Stmt.isRead_of_children isRead.start (by simp [Node.children, Node.stmtChildren, isRead.graded])

/-- A simple statement may begin with an expression that begins at the cursor. -/
theorem simpleStmt_behaves (behave : rules.Behave valid limit)
    (exprBehaves : Behaves valid Any 1 wide (Expr.IsRead valid) rules.expr)
    (wide_le : wide ≤ limit + 1) (labelOk rangeOk : Bool) :
    Behaves valid Here 1 wide (Stmt.IsRead valid) (simpleStmt rules labelOk rangeOk) := by
  refine .bind_step wide_le (exprList_behaves behave exprBehaves wide_le) (fun values isRead => ?_)
  obtain ⟨first, others⟩ := values
  obtain ⟨firstRead, othersRead⟩ := isRead
  refine .bind_token fun tok _ => .ite (fun isAssign => ?_) fun _ => .ite (fun _ => .expected)
    fun _ => ?_
  · have notEnd : tok ≠ .endOfFile := by
      rintro rfl
      simp [Token.isAssignOperator, Token.assignOperator?] at isAssign
    refine .bind_pos fun tokPos _ => .relax (.bind_advance notEnd (Nat.le_succ limit)
      (.bind_token fun next _ => .ite
        (fun _ => rangeClause_behaves behave firstRead othersRead) fun _ =>
          .relax (.bind (exprList_behaves behave behave.expr (Nat.le_succ limit))
            fun values valuesRead => .pure ?_)))
    refine Stmt.isRead_of_children firstRead.start ?_
    simp only [Node.children, Node.stmtChildren, List.forall_mem_append, List.forall_mem_map,
      List.forall_mem_cons]
    exact ⟨⟨firstRead.graded, fun value isOther => (othersRead value isOther).graded⟩,
      valuesRead.1.graded, fun value isOther => (valuesRead.2 value isOther).graded⟩
  · split
    · refine .ite (fun _ => .relax (.bind_advance (by decide) (Nat.le_succ limit)
        (labeledFrom_behaves behave firstRead.start))) fun _ => .pure (isRead_exprStmt firstRead)
    · refine .relax (.bind_advance (by decide) (Nat.le_succ limit)
        (.bind behave.expr fun value valueRead =>
          .pure (Stmt.isRead_of_children firstRead.start ?_)))
      simp [Node.children, Node.stmtChildren, firstRead.graded, valueRead.graded]
    · refine .relax (.bind_advance (by decide) (Nat.le_succ limit) (.bind_prevStop fun stop => .pure
        (Stmt.isRead_of_children firstRead.start ?_)))
      simp [Node.children, Node.stmtChildren, firstRead.graded]
    · refine .relax (.bind_advance (by decide) (Nat.le_succ limit) (.bind_prevStop fun stop => .pure
        (Stmt.isRead_of_children firstRead.start ?_)))
      simp [Node.children, Node.stmtChildren, firstRead.graded]
    · exact .pure (isRead_exprStmt firstRead)

/-! ### Blocks and clauses -/

section Blocks

variable (behave : rules.Behave valid limit)

include behave

theorem stmtList_behaves :
    Behaves valid Here 0 limit (fun steps => ∀ step ∈ steps, (Node.stmt step).IsGraded)
      (stmtList rules) := by
  refine .bind (.manyWhile (.bind_token fun tok _ => ?_) behave.stmt) fun steps graded => .pure ?_
  · split <;> exact .pure trivial
  · intro step isStep
    obtain ⟨found, isFound, rfl⟩ := List.mem_filterMap.mp isStep
    exact graded _ isFound step rfl

theorem blockStmt_behaves :
    Behaves valid Here 1 (limit + 1) (fun body => (Node.block body).IsGraded) (blockStmt rules) := by
  refine .bind_expect (by decide) (by omega) fun start _ =>
    .bind (stmtList_behaves behave) fun steps graded => .bind (.expect (by decide)) fun _ _ =>
      .bind_prevStop fun stop => .pure (Node.isGraded_of_children trivial ?_)
  simpa [Node.block, Node.children, Node.stmtChildren] using graded

omit behave in
theorem clauseBlock_behaves {clause : Parse Stmt}
    (clauseBehaves : Behaves valid Any 1 limit (fun step => (Node.stmt step).IsGraded) clause) :
    Behaves valid Here 1 (limit + 1) (fun body => (Node.block body).IsGraded)
      (clauseBlock clause) := by
  refine .bind_expect (by decide) (by omega) fun start _ =>
    .bind (.manyWhile (.bind_token fun tok _ => .pure trivial) clauseBehaves) fun steps graded =>
      .bind (.expect (by decide)) fun _ _ => .bind_prevStop fun stop =>
        .pure (Node.isGraded_of_children trivial ?_)
  simpa [Node.block, Node.children, Node.stmtChildren] using graded

theorem caseClause_behaves (ofTypes : Bool) :
    Behaves valid Here 1 limit (fun step => (Node.stmt step).IsGraded)
      (caseClause rules ofTypes) := by
  refine .bind_pos fun start _ => .bind_accept (by decide) fun found => ?_
  have rest (exprs : Option (List Expr))
      (exprsGraded : ∀ values ∈ exprs, ∀ value ∈ values, (Node.expr value).IsGraded) :
      Behaves valid Any 1 limit (fun step => (Node.stmt step).IsGraded) (do
        let colon ← expect .colon
        let body ← stmtList rules
        return .caseClause ⟨start, ← prevStop⟩ exprs body colon) := by
    refine .bind_expect (by decide) (Nat.le_succ limit) fun colon _ =>
      .bind (stmtList_behaves behave) fun body bodyGraded => .bind_prevStop fun stop =>
        .pure (Node.isGraded_of_children trivial ?_)
    cases exprs with
    | none => simpa [Node.children, Node.stmtChildren] using bodyGraded
    | some values =>
        simp only [Node.children, Node.stmtChildren, Option.getD_some, List.forall_mem_append,
          List.forall_mem_map]
        exact ⟨exprsGraded values rfl, bodyGraded⟩
  split
  · have item : Behaves valid Any 1 limit (Expr.IsRead valid)
        (if ofTypes then rules.type else rules.expr) :=
      .ite (fun _ => behave.type.mono (Nat.le_refl 1) (Nat.le_refl limit) (fun _ here => here)
        fun _ isOperand => isOperand.toIsRead) fun _ => behave.expr
    refine .bind (.commaSeparated (Nat.le_succ limit) item item) fun values isRead => rest _ ?_
    intro _ isValues value isValue
    obtain rfl := Option.some.inj isValues
    exact (List.forall_mem_cons.mpr isRead value isValue).graded
  · exact .bind (.expect (by decide)) fun _ _ => rest none (by simp)

theorem communication_behaves :
    Behaves valid Here 1 limit (Stmt.IsRead valid) (communication rules) := by
  refine .bind_step (Nat.le_succ limit) (exprList_behaves behave behave.expr (Nat.le_succ limit))
    (fun values isRead => ?_)
  obtain ⟨first, others⟩ := values
  obtain ⟨firstRead, othersRead⟩ := isRead
  refine .bind_token fun tok _ => .ite (fun isAssign => ?_) fun _ => .ite (fun _ => .expected)
    fun _ => .bind_accept (by decide) fun found => .ite (fun _ => ?_) fun _ =>
      .pure (isRead_exprStmt firstRead)
  · have notEnd : tok ≠ .endOfFile := by
      rintro rfl
      simp at isAssign
    refine .bind_pos fun tokPos _ => .relax (.bind_advance notEnd (Nat.le_succ limit)
      (.bind behave.expr fun value valueRead =>
        .pure (Stmt.isRead_of_children firstRead.start ?_)))
    simp only [Node.children, Node.stmtChildren, List.forall_mem_append, List.forall_mem_map,
      List.forall_mem_cons]
    exact ⟨⟨firstRead.graded, fun value isOther => (othersRead value isOther).graded⟩,
      valueRead.graded, by simp⟩
  · refine .bind behave.expr fun value valueRead =>
      .pure (Stmt.isRead_of_children firstRead.start ?_)
    simp [Node.children, Node.stmtChildren, firstRead.graded, valueRead.graded]

theorem commClause_behaves :
    Behaves valid Here 1 limit (fun step => (Node.stmt step).IsGraded) (commClause rules) := by
  refine .bind_pos fun start _ => .bind_accept (by decide) fun found => ?_
  have rest (comm : Option Stmt) (commGraded : ∀ step ∈ comm, (Node.stmt step).IsGraded) :
      Behaves valid Any 1 limit (fun step => (Node.stmt step).IsGraded) (do
        let colon ← expect .colon
        let body ← stmtList rules
        return .commClause ⟨start, ← prevStop⟩ comm body colon) := by
    refine .bind_expect (by decide) (Nat.le_succ limit) fun colon _ =>
      .bind (stmtList_behaves behave) fun body bodyGraded => .bind_prevStop fun stop =>
        .pure (Node.isGraded_of_children trivial ?_)
    simp only [Node.children, Node.stmtChildren, List.forall_mem_append, List.forall_mem_map,
      Option.mem_toList]
    exact ⟨commGraded, bodyGraded⟩
  split
  · exact .bind (communication_behaves behave).option fun comm isRead =>
      rest comm fun step isComm => (isRead step isComm).graded
  · exact .bind (.expect (by decide)) fun _ _ => rest none (by simp)

end Blocks

/-! ### Compound statements -/

section Compound

variable (behave : rules.Behave valid limit)

include behave

/-- A simple statement that is read with no more lexemes ahead than the others. -/
theorem headerStmt_behaves {Here : Token → Prop} (rangeOk : Bool) :
    Behaves valid Here 1 limit (Stmt.IsRead valid) (simpleStmt rules false rangeOk) :=
  simpleStmt_behaves behave behave.expr (Nat.le_succ limit) false rangeOk

omit behave in
/-- What follows the first statement of the header of an `if`. -/
def ifHeaderRest (rules : Rules) (start : Pos) (first : Option Stmt) :
    Parse (Option Stmt × Expr) := do
  if ← accept .semicolon then
    if (← token) = .leftBrace then
      fail .missingCondition
    return (first, ← rules.expr)
  else
    match first with
    | some (.expr _ cond) => return (none, cond)
    | _ => failAt start .assignmentAsValue

theorem ifHeaderRest_behaves {start : Pos} (startValid : valid start) {first : Option Stmt}
    (isRead : ∀ step ∈ first, step.IsRead valid) :
    Behaves valid Any 0 limit (fun header => (∀ init ∈ header.1, (Node.stmt init).IsGraded) ∧
      (Node.expr header.2).IsGraded) (ifHeaderRest rules start first) := by
  refine .bind_accept (by decide) fun found => .ite (fun _ => .bind_token fun tok _ => ?_) fun _ => ?_
  · split
    · exact .failBind (by simp)
    · exact .bind behave.expr.here fun cond condRead =>
        .pure ⟨fun step isInit => (isRead step isInit).graded, condRead.graded⟩
  · split
    next span cond =>
      have graded := (isRead _ rfl).graded
      exact .pure ⟨by simp, graded.child (by simp [Node.children, Node.stmtChildren])⟩
    next => exact .failAt startValid (by simp)

theorem ifHeader_behaves {start : Pos} (startValid : valid start) :
    Behaves valid Here 0 limit (fun header => (∀ init ∈ header.1, (Node.stmt init).IsGraded) ∧
      (Node.expr header.2).IsGraded) (ifHeader rules start) := by
  have rest (first : Option Stmt) (isRead : ∀ step ∈ first, step.IsRead valid) :=
    ifHeaderRest_behaves behave startValid isRead
  refine .bind_token fun tok _ => ?_
  split
  · exact .failBind (by simp)
  · refine .bind_token fun again _ => ?_
    split
    · exact (rest none (by simp)).here
    · exact .bind (headerStmt_behaves behave false).option rest

theorem ifStmt_behaves :
    Behaves valid Here 1 (limit + 1) (fun step => (Node.stmt step).IsGraded) (ifStmt rules) := by
  refine .bind_expect (by decide) (by omega) fun start startValid =>
    .bind (.atLevel (ifHeader_behaves behave startValid)) fun header graded => ?_
  obtain ⟨init, cond⟩ := header
  obtain ⟨initGraded, condGraded⟩ := graded
  refine .bind (blockStmt_behaves behave).later fun body bodyGraded => ?_
  have result (span : Span) (otherwise : Option Stmt)
      (graded : ∀ step ∈ otherwise, (Node.stmt step).IsGraded) :
      (Node.stmt (.ifElse span init cond body otherwise)).IsGraded := by
    refine Node.isGraded_of_children trivial ?_
    simp only [Node.children, Node.stmtChildren, List.forall_mem_append, List.forall_mem_map,
      List.forall_mem_cons, Option.mem_toList]
    exact ⟨initGraded, condGraded, bodyGraded, graded⟩
  refine .bind_accept (by decide) fun found => .ite (fun _ => .bind_token fun tok _ => ?_) fun _ =>
    .bind_prevStop fun stop => .bind_expectEnd (.pure (result _ none (by simp)))
  split
  · exact .bind behave.ifStmt.here fun otherwise graded =>
      .pure (result _ _ (by simpa using graded))
  · exact .bind (blockStmt_behaves behave).later.here fun otherwise graded =>
      .bind_expectEnd (.pure (result _ _ (by simpa [Node.block] using graded)))
  · exact .expected

theorem switchHeader_behaves :
    Behaves valid Here 0 limit (fun header => (∀ init ∈ header.1, (Node.stmt init).IsGraded) ∧
      ∀ tag ∈ header.2, tag.IsRead valid) (switchHeader rules) := by
  have rest (first : Option Stmt) (isRead : ∀ step ∈ first, step.IsRead valid) :
      Behaves valid Any 0 limit (fun header => (∀ init ∈ header.1, (Node.stmt init).IsGraded) ∧
        ∀ tag ∈ header.2, tag.IsRead valid) (do
          if ← accept .semicolon then
            if (← token) = .leftBrace then
              return (first, none)
            else
              return (first, some (← simpleStmt rules false false))
          else
            return (none, first)) := by
    have initGraded (step : Stmt) (isInit : step ∈ first) : (Node.stmt step).IsGraded :=
      (isRead step isInit).graded
    refine .bind_accept (by decide) fun found => .ite (fun _ => .bind_token fun tok _ =>
      .ite (fun _ => .pure ⟨initGraded, by simp⟩) fun _ => ?_) fun _ => .pure ⟨by simp, isRead⟩
    exact .bind (headerStmt_behaves behave false) fun tag tagRead =>
      .pure ⟨initGraded, by simpa using tagRead⟩
  refine .bind_token fun tok _ => .ite (fun _ => .pure ⟨by simp, by simp⟩) fun _ =>
    .bind_token fun again _ => ?_
  split
  · exact (rest none (by simp)).here
  · exact .bind (headerStmt_behaves behave false).option rest

theorem switchStmt_behaves :
    Behaves valid Here 1 (limit + 1) (fun step => (Node.stmt step).IsGraded) (switchStmt rules) := by
  refine .bind_expect (by decide) (by omega) fun start startValid =>
    .bind (.atLevel (switchHeader_behaves behave)) fun header isRead => ?_
  obtain ⟨init, tag⟩ := header
  obtain ⟨initGraded, tagRead⟩ := isRead
  refine .bind (clauseBlock_behaves (caseClause_behaves behave _)).later fun body bodyGraded =>
    .bind_prevStop fun stop => .bind_expectEnd ?_
  cases tag with
  | none =>
      refine .pure (Node.isGraded_of_children trivial ?_)
      simpa [Node.children, Node.stmtChildren, or_imp, forall_and, Node.block, bodyGraded] using
        ⟨initGraded, bodyGraded⟩
  | some guard =>
      have guardRead := tagRead guard rfl
      refine .ite (fun _ => .pure (Node.isGraded_of_children trivial ?_)) fun _ => ?_
      · simpa [Node.children, Node.stmtChildren, or_imp, forall_and, Node.block, bodyGraded] using
          ⟨initGraded, guardRead.graded, bodyGraded⟩
      · split
        next _ value _ =>
          refine .pure (Node.isGraded_of_children trivial ?_)
          have valueGraded := guardRead.graded.child
            (show Node.expr value ∈ _ by simp [Node.children, Node.stmtChildren])
          simpa [Node.children, Node.stmtChildren, or_imp, forall_and, Node.block, bodyGraded] using
            ⟨initGraded, valueGraded, bodyGraded⟩
        next => exact .failAt guardRead.start (by simp)

theorem selectStmt_behaves :
    Behaves valid Here 1 (limit + 1) (fun step => (Node.stmt step).IsGraded) (selectStmt rules) := by
  refine .bind_expect (by decide) (by omega) fun start _ =>
    .bind (clauseBlock_behaves (commClause_behaves behave)).later fun body graded =>
      .bind_expectEnd (.pure (Node.isGraded_of_children trivial ?_))
  simpa [Node.children, Node.stmtChildren, Node.block] using graded

/-- What is known of the header of a loop. -/
def LoopHeader.IsRead (valid : Pos → Prop) : LoopHeader → Prop
  | .overRange key value _ operand _ =>
      (∀ name ∈ key, (Node.expr name).IsGraded) ∧ (∀ name ∈ value, (Node.expr name).IsGraded) ∧
        (Node.expr operand).IsGraded
  | .clauses init cond post =>
      (∀ step ∈ init, (Node.stmt step).IsGraded) ∧ (∀ step ∈ cond, step.IsRead valid) ∧
        ∀ step ∈ post, (Node.stmt step).IsGraded

theorem loopClauses_behaves {init : Option Stmt} (graded : ∀ step ∈ init, (Node.stmt step).IsGraded) :
    Behaves valid Here 0 limit (LoopHeader.IsRead valid) (loopClauses rules init) := by
  have last (cond : Option Stmt) (condRead : ∀ step ∈ cond, step.IsRead valid) :
      Behaves valid Any 0 limit (LoopHeader.IsRead valid) (do
        if !(← accept .semicolon) then
          expected "';'"
        let post ←
          if (← token) = .leftBrace then pure none else some <$> simpleStmt rules false false
        return .clauses init cond post) := by
    have result (post : Option Stmt) (postRead : ∀ step ∈ post, step.IsRead valid) :
        (LoopHeader.clauses init cond post).IsRead valid :=
      ⟨graded, condRead, fun step isPost => (postRead step isPost).graded⟩
    have last : Behaves valid Any 0 limit (LoopHeader.IsRead valid) (do
        let post ←
          if (← token) = .leftBrace then pure none else some <$> simpleStmt rules false false
        return .clauses init cond post) := by
      refine .bind_token fun tok _ => ?_
      split
      · exact .pure (result none (by simp))
      · exact .bind (headerStmt_behaves behave false).option fun post postRead =>
          .pure (result post postRead)
    refine .bind_accept (by decide) fun found => ?_
    split
    · have never : Behaves valid Any 0 limit (fun _ => True) (expected "';'" : Parse PUnit) :=
        .expected
      exact .bind never fun _ _ => last
    · exact last
  refine .bind_token fun tok _ => ?_
  split
  · exact (last none (by simp)).here
  · exact .bind (headerStmt_behaves behave false).option last

theorem loopHeader_behaves :
    Behaves valid Here 0 limit (LoopHeader.IsRead valid) (loopHeader rules) := by
  refine .bind_token fun tok _ => ?_
  split
  · exact .pure ⟨by simp, by simp, by simp⟩
  · exact .relax (.bind_advance (by decide) (Nat.le_succ limit) (.bind behave.expr fun operand isRead =>
      .pure ⟨by simp, by simp, isRead.graded⟩))
  · exact .relax (.bind_advance (by decide) (Nat.le_succ limit) (loopClauses_behaves behave (by simp)))
  · refine .bind (headerStmt_behaves behave true) fun first isRead => ?_
    split
    next span key value tok operand body tokPos =>
      have graded := isRead.graded
      refine .pure ⟨fun name isKey => graded.child ?_, fun name isValue => graded.child ?_,
        graded.child ?_⟩
      all_goals simp_all [Node.children, Node.stmtChildren]
    next first _ =>
      exact .bind_accept (by decide) fun found => .ite (fun _ => loopClauses_behaves behave
        (by simpa using isRead.graded)) fun _ => .pure ⟨by simp, by simpa using isRead, by simp⟩

theorem forStmt_behaves :
    Behaves valid Here 1 (limit + 1) (fun step => (Node.stmt step).IsGraded) (forStmt rules) := by
  refine .bind_expect (by decide) (by omega) fun start _ =>
    .bind (.atLevel (loopHeader_behaves behave)) fun header isRead =>
      .bind (blockStmt_behaves behave).later fun body bodyGraded => .bind_expectEnd ?_
  have loop (init : Option Stmt) (cond : Option Expr) (post : Option Stmt)
      (initGraded : ∀ step ∈ init, (Node.stmt step).IsGraded)
      (condGraded : ∀ value ∈ cond, (Node.expr value).IsGraded)
      (postGraded : ∀ step ∈ post, (Node.stmt step).IsGraded) :
      (Node.stmt (.loop ⟨start, body.span.stop⟩ init cond post (some body))).IsGraded := by
    refine Node.isGraded_of_children trivial ?_
    simp only [Node.children, Node.stmtChildren, List.forall_mem_append, List.forall_mem_map,
      Option.mem_toList]
    exact ⟨initGraded, condGraded, postGraded, by simpa using bodyGraded⟩
  split
  · obtain ⟨keyGraded, valueGraded, operandGraded⟩ := isRead
    refine .pure (Node.isGraded_of_children trivial ?_)
    simp only [Node.children, Node.stmtChildren, List.forall_mem_append, List.forall_mem_cons,
      List.forall_mem_map, Option.mem_toList]
    exact ⟨keyGraded, valueGraded, operandGraded, by simpa using bodyGraded⟩
  · exact .pure (loop _ none _ isRead.1 (by simp) isRead.2.2)
  next init span cond post =>
    have condGraded := (isRead.2.1 _ rfl).graded.child
      (show Node.expr cond ∈ _ by simp [Node.children, Node.stmtChildren])
    exact .pure (loop _ (some cond) _ isRead.1 (by simpa using condGraded) isRead.2.2)
  next cond _ _ => exact .failAt (isRead.2.1 cond rfl).start (by simp)

theorem callStmt_behaves {keyword : Token} {build : Span → Expr → Stmt}
    (notEnd : keyword ≠ .endOfFile)
    (graded : ∀ span value, (Node.expr value).IsGraded → (Node.stmt (build span value)).IsGraded) :
    Behaves valid Here 1 (limit + 1) (fun step => (Node.stmt step).IsGraded)
      (callStmt rules keyword build) := by
  refine .bind_expect notEnd (Nat.le_refl _) (fun start _ => .bind behave.expr fun value isRead => ?_)
  split
  · exact .bind_prevStop fun stop => .bind_expectEnd (.pure (graded _ _ isRead.graded))
  · exact .failAt isRead.start (by simp)

theorem returnStmt_behaves :
    Behaves valid Here 1 (limit + 1) (fun step => (Node.stmt step).IsGraded) (returnStmt rules) := by
  refine .bind_expect (by decide) (Nat.le_refl _) (fun start _ => .bind_token fun tok _ => ?_)
  have rest (results : List Expr) (graded : ∀ value ∈ results, (Node.expr value).IsGraded) :
      Behaves valid Any 0 limit (fun step => (Node.stmt step).IsGraded) (do
        let stop ← prevStop
        expectEnd
        return .ret ⟨start, stop⟩ results) := by
    refine .bind_prevStop fun stop => .bind_expectEnd (.pure (Node.isGraded_of_children trivial ?_))
    simpa [Node.children, Node.stmtChildren] using graded
  split
  · exact (rest [] (by simp)).here
  · exact (rest [] (by simp)).here
  · refine .bind (exprList_behaves behave behave.expr (Nat.le_succ limit)) fun values isRead => ?_
    obtain ⟨first, others⟩ := values
    exact rest _ fun value isValue => (List.forall_mem_cons.mpr isRead value isValue).graded

omit behave in
theorem branchStmt_behaves {keyword : Token} (notEnd : keyword ≠ .endOfFile) :
    Behaves valid Here 1 limit (fun step => (Node.stmt step).IsGraded) (branchStmt keyword) := by
  refine .bind_expect notEnd (Nat.le_succ limit) (fun start _ => ?_)
  have rest (label : Option Ident) : Behaves valid Any 0 limit
      (fun step => (Node.stmt step).IsGraded) (do
        let stop ← prevStop
        expectEnd
        return .branch ⟨start, stop⟩ keyword label) := by
    refine .bind_prevStop fun stop => .bind_expectEnd (.pure (Node.isGraded_of_children trivial ?_))
    simp [Node.children, Node.stmtChildren]
  refine .bind_token fun tok _ => ?_
  split
  · exact .bind ident_behaves.option fun label _ => rest label
  · exact (rest none).here

theorem declStmt_behaves {keyword : Token} (notEnd : keyword ≠ .endOfFile) :
    Behaves valid Here 1 (limit + 1) (fun step => (Node.stmt step).IsGraded)
      (declStmt rules keyword) := by
  have item : Behaves valid Any 1 limit (fun spec => (Node.spec spec).IsGraded)
      (if keyword = .kwType then typeSpec rules else valueSpec rules keyword) :=
    .ite (fun _ => typeSpec_behaves behave) fun _ => valueSpec_behaves behave keyword
  refine .bind_step (Nat.le_succ _) (genDecl_behaves notEnd item) fun decl graded =>
    .pure (Node.isGraded_of_children trivial ?_)
  simpa [Node.children, Node.stmtChildren] using graded

/-- A statement may begin with an expression that begins at the cursor. -/
theorem statement_behaves (wide_le : wide ≤ limit + 1)
    (exprBehaves : Behaves valid Any 1 wide (Expr.IsRead valid) rules.expr) :
    Behaves valid Here 1 wide (fun step => ∀ inner ∈ step, (Node.stmt inner).IsGraded)
      (statement rules) := by
  have some {production : Parse Stmt} {tok : Token}
      (behaves : Behaves valid (· = tok) 1 (limit + 1) (fun step => (Node.stmt step).IsGraded)
        production) :
      Behaves valid (· = tok) 1 wide (fun step => ∀ inner ∈ step, (Node.stmt inner).IsGraded)
        (Option.some <$> production) :=
    behaves.option.narrow (Nat.le_refl 1) wide_le
  refine .bind_token fun tok _ => .ite (fun _ => ?_) fun _ => ?_
  · refine .bind_step wide_le (simpleStmt_behaves behave exprBehaves wide_le true false)
      (fun step isRead => ?_)
    split
    · exact .pure (by simpa using isRead.graded)
    · exact .bind_expectEnd (.pure (by simpa using isRead.graded))
  · split
    · exact some (declStmt_behaves behave (by decide))
    · exact some (declStmt_behaves behave (by decide))
    · exact some (declStmt_behaves behave (by decide))
    · refine some (callStmt_behaves behave (by decide) fun span value graded =>
        Node.isGraded_of_children trivial ?_)
      simpa [Node.children, Node.stmtChildren] using graded
    · refine some (callStmt_behaves behave (by decide) fun span value graded =>
        Node.isGraded_of_children trivial ?_)
      simpa [Node.children, Node.stmtChildren] using graded
    · exact some (returnStmt_behaves behave)
    · exact some (branchStmt_behaves (by decide))
    · exact some (branchStmt_behaves (by decide))
    · exact some (branchStmt_behaves (by decide))
    · exact some (branchStmt_behaves (by decide))
    · exact .bind_step (Nat.le_succ wide) ((blockStmt_behaves behave).narrow (Nat.le_refl 1) wide_le)
        (fun body graded => .bind_expectEnd (.pure (by simpa [Node.block] using graded)))
    · exact some (ifStmt_behaves behave)
    · exact some (switchStmt_behaves behave)
    · exact some (selectStmt_behaves behave)
    · exact some (forStmt_behaves behave)
    · exact .bind_advance (by decide) (Nat.le_succ wide) (.pure (by simp))
    · exact .expected

/-! ### Declarations -/

theorem funcDecl_behaves :
    Behaves valid Here 1 (limit + 1) (fun decl => (Node.decl (.func decl)).IsGraded)
      (funcDecl rules) := by
  refine .bind_expect (by decide) (Nat.le_refl _) (fun start _ => .bind_token fun tok _ => ?_)
  have last (recv : Option FieldList) (name : Ident) (type : FuncType) (body : Option Block)
      (recvGraded : ∀ list ∈ recv, (Node.fieldList list).IsGraded)
      (typeGraded : (Node.expr (.funcType type)).IsGraded)
      (bodyGraded : ∀ block ∈ body, (Node.block block).IsGraded) :
      Behaves valid Any 0 limit (fun decl => (Node.decl (.func decl)).IsGraded) (do
        let stop ← prevStop
        expectEnd
        return (⟨⟨start, stop⟩, recv, name, type, body⟩ : FuncDecl)) := by
    refine .bind_prevStop fun stop => .bind_expectEnd (.pure (Node.isGraded_of_children trivial ?_))
    simp only [Node.children, Node.declChildren, List.forall_mem_append, List.forall_mem_cons,
      List.forall_mem_map, Option.mem_toList]
    exact ⟨recvGraded, Node.isGraded_ident name, typeGraded, bodyGraded⟩
  have rest (recv : Option FieldList) (recvGraded : ∀ list ∈ recv, (Node.fieldList list).IsGraded) :
      Behaves valid Any 0 limit (fun decl => (Node.decl (.func decl)).IsGraded) (do
        let name ← ident
        if (← token) = .leftBracket then
          fail .typeParameters
        let type ← funcTypeFrom rules start
        let body ←
          if (← token) = .leftBrace then
            some <$> atLevel 0 rules.block
          else
            pure none
        let stop ← prevStop
        expectEnd
        return (⟨⟨start, stop⟩, recv, name, type, body⟩ : FuncDecl)) := by
    refine .bind ident_behaves fun name _ => .bind_token fun tok _ => ?_
    split
    · exact .failBind (by simp)
    · refine .bind (funcTypeFrom_behaves behave start).later.here fun type isRead =>
        .bind_token fun tok _ => ?_
      split
      · exact .bind (Behaves.atLevel behave.block.here).option fun body graded =>
          last recv name type body recvGraded isRead.2 graded
      · exact (last recv name type none recvGraded isRead.2 (by simp)).here
  split
  · exact .bind (parameters_behaves behave).later.option rest
  · exact (rest none (by simp)).here

theorem declaration_behaves :
    Behaves valid Here 1 (limit + 1) (fun decl => (Node.decl decl).IsGraded)
      (declaration rules) := by
  refine .bind_token fun tok _ => ?_
  split
  · exact .fail (by simp)
  · exact .map (genDecl_behaves (by decide) (valueSpec_behaves behave _)) fun decl graded => graded
  · exact .map (genDecl_behaves (by decide) (valueSpec_behaves behave _)) fun decl graded => graded
  · exact .map (genDecl_behaves (by decide) (typeSpec_behaves behave)) fun decl graded => graded
  · exact .map (funcDecl_behaves behave) fun decl graded => graded
  · exact .fail (by simp)

end Compound

end Parse

/-! ### Unrolling -/

namespace Rules

variable {valid : Pos → Prop} {low middle high : Nat} {rules : Rules}

theorem exhausted_behaves : exhausted.BehaveWithin valid 0 0 0 := by
  have never {α : Type} {limit : Nat} (isZero : limit = 0) (Fits : α → Prop) :
      Parse.Behaves valid Any 1 limit Fits (Parse.fail .nestedTooDeeply) :=
    ⟨fun _ _ _ _ _ outcome => absurd outcome Parse.fail_ne_ok,
      fun _ _ _ _ few => absurd (isZero ▸ few) (Nat.not_lt_zero _)⟩
  exact ⟨fun least => never (ite_self 0) _, fun _ _ _ _ outcome => absurd outcome Parse.fail_ne_ok,
    never rfl _, never rfl _, never rfl _, never rfl _, never rfl _, never rfl _⟩

/-- The productions behave with lower limits. -/
theorem BehaveWithin.narrow {low' middle' high' : Nat}
    (behave : rules.BehaveWithin valid low middle high) (low_le : low' ≤ low)
    (middle_le : middle' ≤ middle) (high_le : high' ≤ high) :
    rules.BehaveWithin valid low' middle' high' := by
  have same {tok : Token} (here : tok.Any) : tok.Any := here
  refine ⟨fun least => ?_, behave.stops, ?_, ?_, ?_, ?_, ?_, ?_⟩
  · refine (behave.binary least).mono (Nat.le_refl 1) ?_ (fun _ => same) fun _ fits => fits
    split <;> omega
  · exact behave.unary.mono (Nat.le_refl 1) middle_le (fun _ => same) fun _ fits => fits
  · exact behave.element.mono (Nat.le_refl 1) low_le (fun _ => same) fun _ fits => fits
  · exact behave.type.mono (Nat.le_refl 1) high_le (fun _ => same) fun _ fits => fits
  · exact behave.block.mono (Nat.le_refl 1) high_le (fun _ => same) fun _ fits => fits
  · exact behave.stmt.mono (Nat.le_refl 1) low_le (fun _ => same) fun _ fits => fits
  · exact behave.ifStmt.mono (Nat.le_refl 1) high_le (fun _ => same) fun _ fits => fits

/-- Each unrolling raises one of the limits. -/
theorem BehaveWithin.unroll (behave : rules.BehaveWithin valid low middle high)
    (low_le : low ≤ middle) (middle_le : middle ≤ high) (high_le : high ≤ low + 1) :
    rules.unroll.BehaveWithin valid middle high (low + 1) := by
  have lowest : rules.Behave valid low :=
    behave.narrow (Nat.le_refl low) low_le (low_le.trans middle_le)
  have middle_le' := middle_le.trans high_le
  exact
    { binary := Parse.binaryExpr_behaves lowest high_le behave.type
      stops := fun _ _ _ _ outcome => Parse.binaryExpr_stops outcome
      unary := Parse.unaryExpr_behaves lowest high_le behave.type
      element := Parse.elementValue_behaves lowest middle_le' behave.expr
      type := Parse.typeExpr_behaves lowest
      block := Parse.blockStmt_behaves lowest
      stmt := Parse.statement_behaves lowest middle_le' behave.expr
      ifStmt := Parse.ifStmt_behaves lowest }

/-- Three unrollings are enough for one more lexeme. -/
theorem ofDepth_behaves (depth : Nat) :
    (ofDepth depth).BehaveWithin valid (depth / 3) ((depth + 1) / 3) ((depth + 2) / 3) := by
  induction depth with
  | zero => exact exhausted_behaves
  | succ depth ih =>
      have next := ih.unroll (by omega) (by omega) (by omega)
      rwa [show depth / 3 + 1 = (depth + 1 + 2) / 3 by omega] at next

end Rules

/-! ### Files -/

namespace Parse

variable {valid : Pos → Prop} {limit : Nat} {rules : Rules}

theorem fileContent_behaves (behave : rules.Behave valid limit) :
    Behaves valid Any 1 (limit + 1) (fun content => ∀ decl ∈ content.2, (Node.decl decl).IsGraded)
      (fileContent rules) := by
  have rest (package : Ident) : Behaves valid Any 0 limit
      (fun content => ∀ decl ∈ content.2, (Node.decl decl).IsGraded) (do
        expectEnd
        let imports ← manyWhile (do return (← token) = .kwImport) (genDecl .kwImport importSpec)
        let decls ← manyWhile (do return (← token) ≠ .endOfFile) (declaration rules)
        return (package, imports.map .gen ++ decls)) := by
    have imports : Behaves valid Any 1 limit (fun decl => (Node.decl (.gen decl)).IsGraded)
        (genDecl .kwImport importSpec) :=
      (genDecl_behaves (by decide) importSpec_behaves).narrow (Nat.le_refl 1) (Nat.le_succ limit)
    have decls : Behaves valid Any 1 limit (fun decl => (Node.decl decl).IsGraded)
        (declaration rules) :=
      (declaration_behaves behave).narrow (Nat.le_refl 1) (Nat.le_succ limit)
    refine .bind_expectEnd (.bind (.manyWhile (.bind_token fun tok _ => .pure trivial) imports)
      fun imports importsGraded => .bind (.manyWhile (.bind_token fun tok _ => .pure trivial) decls)
        fun decls declsGraded => .pure ?_)
    rw [List.forall_mem_append, List.forall_mem_map]
    exact ⟨importsGraded, declsGraded⟩
  refine .bind_expect (by decide) (Nat.le_refl _)
    (fun _ _ => .bind ident_behaves fun package nameValid => ?_)
  split
  · have never : Behaves valid Any 0 limit (fun _ => True)
        (failAt package.span.start .blankPackageName : Parse PUnit) := .failAt nameValid (by simp)
    exact .bind never fun _ _ => rest package
  · exact rest package

end Parse

end GoMend
