import GoMend.Proofs.Grammar.Behaviour
import GoMend.Proofs.Grammar.Reading
import GoMend.Proofs.Tree.Graded

/-!
# The behaviour of the productions

Every production reads at least one lexeme when it succeeds, and what it gives begins at a valid
position and has operators that bind as they should.  A production refers to others after it has
taken a lexeme, with the few exceptions that are named, so that an unrolling that is deep enough for
the lexemes ahead is never used up.
-/

namespace GoMend

open Token (Any)

/-! ### What is read -/

/-- An expression begins at a valid position and has operators that bind as they should. -/
structure Expr.IsRead (valid : Pos → Prop) (value : Expr) : Prop where
  start : valid value.span.start
  graded : (Node.expr value).IsGraded

/-- An expression that was read where operators of at least the given precedence are read. -/
structure Expr.IsBound (valid : Pos → Prop) (least : Nat) (value : Expr) : Prop extends
    IsRead valid value where
  binds : value.Binds least

/-- An expression that was read and is no binary operator. -/
structure Expr.IsOperand (valid : Pos → Prop) (value : Expr) : Prop extends
    IsRead valid value where
  alone : ∀ least, value.Binds least

/-- A simple statement begins at a valid position and has operators that bind as they should. -/
structure Stmt.IsRead (valid : Pos → Prop) (step : Stmt) : Prop where
  start : valid step.span.start
  graded : (Node.stmt step).IsGraded

variable {valid : Pos → Prop}

theorem Expr.isOperand_of_children {value : Expr} (alone : ∀ least, value.Binds least)
    (start : valid value.span.start)
    (children : ∀ child ∈ (Node.expr value).children, child.IsGraded) : value.IsOperand valid := by
  have joinsWell : (Node.expr value).JoinsWell := by
    cases value with
    | binary span left op right => exact absurd (alone (op.precedence + 1)) (Nat.not_succ_le_self _)
    | _ => trivial
  exact ⟨⟨start, Node.isGraded_of_children joinsWell children⟩, alone⟩

theorem Stmt.isRead_of_children {step : Stmt} (start : valid step.span.start)
    (children : ∀ child ∈ (Node.stmt step).children, child.IsGraded) : step.IsRead valid :=
  ⟨start, Node.isGraded_of_children trivial children⟩

/-- Productions that behave if there are fewer lexemes ahead than the limits say.  The limits differ for
productions that are called before a lexeme is taken: elements and statements, which begin with
expressions, have the lowest one, and types, blocks and `if` statements, which begin with a lexeme
of their own, have the highest one. -/
structure Rules.BehaveWithin (valid : Pos → Prop) (low middle high : Nat) (rules : Rules) : Prop where
  binary : ∀ least, Parse.Behaves valid Any 1 (if least = 0 then 0 else middle)
    (Expr.IsBound valid least) (rules.binary least)
  stops : ∀ ⦃least cursor value after⦄, rules.binary least cursor = .ok (value, after) →
    after.current.token.precedence < least
  unary : Parse.Behaves valid Any 1 middle (Expr.IsOperand valid) rules.unary
  element : Parse.Behaves valid Any 1 low (Expr.IsRead valid) rules.element
  type : Parse.Behaves valid Any 1 high (Expr.IsOperand valid) rules.type
  block : Parse.Behaves valid Any 1 high (fun body => (Node.block body).IsGraded) rules.block
  stmt : Parse.Behaves valid Any 1 low (fun step => ∀ inner ∈ step, (Node.stmt inner).IsGraded)
    rules.stmt
  ifStmt : Parse.Behaves valid Any 1 high (fun step => (Node.stmt step).IsGraded) rules.ifStmt

/-- Productions that behave if there are fewer lexemes ahead than one limit says. -/
abbrev Rules.Behave (valid : Pos → Prop) (limit : Nat) (rules : Rules) : Prop :=
  rules.BehaveWithin valid limit limit limit

theorem Rules.BehaveWithin.expr {low middle high : Nat} {rules : Rules}
    (behave : rules.BehaveWithin valid low middle high) :
    Parse.Behaves valid Any 1 middle (Expr.IsRead valid) rules.expr :=
  (behave.binary 1).mono (Nat.le_refl 1) (Nat.le_refl middle) (fun _ here => here)
    fun _ isBound => isBound.toIsRead

namespace Parse

variable {Here : Token → Prop} {limit : Nat} {rules : Rules}

/-! ### Names and literals -/

theorem ident_behaves : Behaves valid Here 1 limit (fun name => valid name.span.start) ident := by
  refine .bind_get fun cursor stands _ => .ite (fun isIdent => ?_) fun _ => .expected
  exact .bind_advance (by simp [isIdent]) (Nat.le_succ limit) (.pure stands.current)

theorem identList_behaves :
    Behaves valid Here 1 limit (fun names => ∀ name ∈ names, valid name.span.start) identList :=
  .bind_step (Nat.le_succ limit) (.commaSeparated (Nat.le_succ limit) ident_behaves ident_behaves)
    (fun _ fits => .pure (List.forall_mem_cons.mpr fits))

theorem literal_behaves (notEnd : ∀ tok, Here tok → tok ≠ .endOfFile) :
    Behaves valid Here 1 limit (fun literal => valid literal.span.start) literal :=
  .bind_get fun _ stands here =>
    .bind_advance (notEnd _ here) (Nat.le_succ limit) (.pure stands.current)

/-- Expressions divided by commas, the first of which may be read with more lexemes ahead. -/
theorem exprList_behaves {wide : Nat} (behave : rules.Behave valid limit)
    (exprBehaves : Behaves valid Any 1 wide (Expr.IsRead valid) rules.expr)
    (wide_le : wide ≤ limit + 1) :
    Behaves valid Here 1 wide
      (fun values => values.1.IsRead valid ∧ ∀ value ∈ values.2, value.IsRead valid)
      (exprList rules) :=
  .commaSeparated wide_le exprBehaves.here behave.expr

/-! ### Types -/

section Types

variable (behave : rules.Behave valid limit)

include behave

theorem paramType_behaves : Behaves valid Here 1 limit (Expr.IsRead valid) (paramType rules) := by
  have typeBehaves := behave.type.mono (Nat.le_refl 1) (Nat.le_refl limit) (fun _ here => here)
    fun _ isOperand => isOperand.toIsRead
  refine .bind_token fun tok _ => .ite (fun isEllipsis => ?_) fun _ => typeBehaves.here
  refine .bind_pos fun start isValid => .bind_advance (by simp [isEllipsis]) (Nat.le_succ limit)
    (.bind typeBehaves.relax fun elem isRead =>
    .pure ⟨isValid, Node.isGraded_of_children trivial ?_⟩)
  simp [Node.children, Node.exprChildren, isRead.graded]

/-- What is known of an entry of a parameter list. -/
structure ParamEntry.IsRead (valid : Pos → Prop) (entry : ParamEntry) : Prop where
  first : entry.first.IsRead valid
  type : ∀ type ∈ entry.type, type.IsRead valid

theorem paramEntry_behaves :
    Behaves valid Here 1 limit (ParamEntry.IsRead valid) (paramEntry rules) := by
  refine .bind_step (Nat.le_succ limit) (paramType_behaves behave)
    (fun first isRead => .bind_token fun tok _ => ?_)
  split
  · exact .pure ⟨isRead, by simp⟩
  · exact .pure ⟨isRead, by simp⟩
  · cases first with
    | ident name =>
        exact .bind (paramType_behaves behave) fun type typeRead =>
          .pure ⟨isRead, by simpa using typeRead⟩
    | _ => exact .expected

omit behave in
theorem namedFields_behaves {entries : List ParamEntry} (isRead : ∀ entry ∈ entries, entry.IsRead valid)
    {waiting : List Ident} (waitingValid : ∀ name ∈ waiting, valid name.span.start) :
    Behaves valid Here 0 limit (fun fields => ∀ field ∈ fields, (Node.field field).IsGraded)
      (namedFields waiting entries) := by
  induction entries generalizing waiting with
  | nil =>
      cases waiting with
      | nil => exact .pure (by simp)
      | cons name waiting => exact .failAt (waitingValid name List.mem_cons_self) (by simp)
  | cons entry entries ih =>
      obtain ⟨entryRead, othersRead⟩ := List.forall_mem_cons.mp isRead
      obtain ⟨first, type⟩ := entry
      have firstValid := entryRead.first.start
      cases first with
      | ident name =>
          cases type with
          | none =>
              refine ih othersRead ?_
              simpa [or_imp, forall_and] using ⟨waitingValid, firstValid⟩
          | some type =>
              have typeRead := entryRead.type type rfl
              refine .bind (ih othersRead (by simp)) fun fields graded =>
                .pure (List.forall_mem_cons.mpr ⟨Node.isGraded_of_children trivial ?_, graded⟩)
              simp [Node.children, or_imp, forall_and, typeRead.graded]
      | _ => exact .failAt firstValid (by simp)

omit behave in
theorem isGraded_unnamedField {type : Expr} (isRead : type.IsRead valid) :
    (Node.field (unnamedField type)).IsGraded :=
  Node.isGraded_of_children trivial (by simp [Node.children, unnamedField, isRead.graded])

theorem parameters_behaves :
    Behaves valid Here 1 (limit + 1) (fun list => (Node.fieldList list).IsGraded)
      (parameters rules) := by
  refine .bind_expect (by decide) (by omega) fun start _ =>
    .bind (.listUntil (paramEntry_behaves behave)) fun entries isRead =>
      .bind (.expect (by decide)) fun _ _ => ?_
  have rest (fields : List Field) (graded : ∀ field ∈ fields, (Node.field field).IsGraded) :
      Behaves valid Any 0 limit (fun list => (Node.fieldList list).IsGraded)
        (do return ⟨⟨start, ← prevStop⟩, fields⟩) :=
    .bind_prevStop fun stop => .pure (Node.isGraded_of_children trivial (by simpa [Node.children]))
  split
  · exact .bind (namedFields_behaves isRead (by simp)) rest
  · refine .bind (.pure ?_) rest
    intro field isField
    obtain ⟨entry, isEntry, rfl⟩ := List.mem_map.mp isField
    exact isGraded_unnamedField (isRead entry isEntry).first

/-- Parameters and results are graded. -/
def GradedSignature (signature : FieldList × Option FieldList) : Prop :=
  (Node.fieldList signature.1).IsGraded ∧ ∀ results ∈ signature.2, (Node.fieldList results).IsGraded

theorem signature_behaves : Behaves valid Here 1 (limit + 1) GradedSignature (signature rules) := by
  refine .bind_step (Nat.le_refl _) (parameters_behaves behave)
    (fun params graded => .bind_token fun tok _ =>
    .ite (fun _ => ?_) fun _ => .ite (fun _ => ?_) fun _ => .pure ⟨graded, by simp⟩)
  · exact .bind (parameters_behaves behave).later fun results resultsGraded =>
      .pure ⟨graded, by simpa using resultsGraded⟩
  · refine .bind behave.type.here fun type isOperand => .pure ⟨graded, ?_⟩
    simp only [Option.mem_some_iff, forall_eq']
    exact Node.isGraded_of_children trivial
      (by simpa [Node.children] using isGraded_unnamedField isOperand.toIsRead)

theorem funcTypeFrom_behaves (start : Pos) :
    Behaves valid Here 1 (limit + 1)
      (fun type => type.span.start = start ∧ (Node.expr (.funcType type)).IsGraded)
      (funcTypeFrom rules start) := by
  refine .bind_step (Nat.le_refl _) (signature_behaves behave)
    (fun signature graded => .bind_prevStop fun stop =>
    .pure ⟨rfl, Node.isGraded_of_children trivial ?_⟩)
  obtain ⟨paramsGraded, resultsGraded⟩ := graded
  simpa [Node.children, Node.exprChildren, paramsGraded] using resultsGraded

omit behave in
theorem qualifiedFrom_behaves {first : Ident} (firstValid : valid first.span.start) :
    Behaves valid Here 0 limit (Expr.IsOperand valid) (qualifiedFrom first) := by
  refine .bind_accept (by decide) fun found => .ite (fun _ => ?_) fun _ => .pure ?_
  · refine .bind ident_behaves fun sel _ =>
      .pure (Expr.isOperand_of_children (fun _ => trivial) firstValid ?_)
    simp [Node.children, Node.exprChildren]
  · refine Expr.isOperand_of_children (fun _ => trivial) firstValid ?_
    simp [Node.children, Node.exprChildren]

theorem arrayLength_behaves :
    Behaves valid Here 0 limit (fun length => ∀ value ∈ length, (Node.expr value).IsGraded)
      (arrayLength rules) := by
  refine .bind_token fun tok _ => ?_
  split
  · refine .bind_pos fun start _ => .relax (.bind_advance (by decide) (Nat.le_succ limit) (.pure ?_))
    simp only [Option.mem_some_iff, forall_eq']
    exact Node.isGraded_of_children trivial (by simp [Node.children, Node.exprChildren])
  · exact .pure (by simp)
  · exact .bind (.bracketed behave.expr.here) fun length isRead => .pure (by simpa using isRead.graded)

theorem structMember_behaves :
    Behaves valid Here 1 limit (fun member => member.2.IsRead valid) (structMember rules) := by
  refine .bind_token fun tok _ => .ite (fun _ => ?_) fun _ => ?_
  · exact .bind_step (Nat.le_succ limit) behave.type.here
      (fun type isOperand => .pure isOperand.toIsRead)
  · refine .bind_step (Nat.le_succ limit) ident_behaves
      (fun first firstValid => .bind_token fun tok _ => ?_)
    have plain : (Expr.ident first).IsRead valid := ⟨firstValid, Node.isGraded_ident first⟩
    split
    · exact .bind (qualifiedFrom_behaves firstValid) fun type isOperand =>
        .pure isOperand.toIsRead
    · exact .pure plain
    · exact .pure plain
    · exact .pure plain
    · exact .bind (.manyWhile (.accept (by decide)) ident_behaves) fun others _ =>
        .bind behave.type fun type isOperand => .pure isOperand.toIsRead

theorem structField_behaves :
    Behaves valid Here 1 limit (fun field => (Node.field field).IsGraded) (structField rules) := by
  refine .bind_pos fun start _ => .bind_step (Nat.le_succ limit) (structMember_behaves behave)
    (fun member isRead =>
    .bind_token fun tok _ => ?_)
  have rest (tag : Option BasicLit) : Behaves valid Any 0 limit
      (fun field => (Node.field field).IsGraded)
      (do
        let stop ← prevStop
        expectEnd
        return ⟨⟨start, stop⟩, member.1, member.2, tag⟩) := by
    refine .bind_prevStop fun stop => .bind_expectEnd (.pure (Node.isGraded_of_children trivial ?_))
    simp [Node.children, or_imp, forall_and, isRead.graded]
  split
  next isString =>
    exact .bind (literal_behaves (by simp [isString])).option fun tag _ => rest tag
  next => exact (rest none).here

omit behave in
theorem interfaceMember_behaves (behave : rules.Behave valid limit) :
    Behaves valid Here 1 limit (fun field => (Node.field field).IsGraded)
      (interfaceMember rules) := by
  refine .bind_step (Nat.le_succ limit) ident_behaves
    (fun name nameValid => .bind_token fun tok _ => ?_)
  have rest (field : Field) (graded : (Node.field field).IsGraded) : Behaves valid Any 0 limit
      (fun field => (Node.field field).IsGraded) (do expectEnd; return field) :=
    .bind_expectEnd (.pure graded)
  split
  · refine .bind_pos fun start _ => .bind (funcTypeFrom_behaves behave start).later.here
      fun type isRead =>
      .bind_prevStop fun stop => ?_
    refine .bind (.pure ?_) rest
    refine Node.isGraded_of_children trivial ?_
    simp [Node.children, isRead.2]
  · refine .bind (qualifiedFrom_behaves nameValid) fun embedded isOperand => .bind (.pure ?_) rest
    refine Node.isGraded_of_children trivial ?_
    simp [Node.children, isOperand.graded]

omit behave in
theorem members_behaves {member : Parse Field}
    (memberBehaves : Behaves valid Any 1 limit (fun field => (Node.field field).IsGraded) member) :
    Behaves valid Here 1 (limit + 1) (fun list => (Node.fieldList list).IsGraded)
      (members member) := by
  refine .bind_expect (by decide) (by omega) fun start _ =>
    .bind (.manyWhile (.bind_token fun tok _ => .pure trivial) memberBehaves) fun fields graded =>
      .bind (.expect (by decide)) fun _ _ => .bind_prevStop fun stop =>
        .pure (Node.isGraded_of_children trivial ?_)
  simpa [Node.children] using graded

/-- A type begins with a lexeme of its own, so other types are read with one lexeme less ahead. -/
theorem typeExpr_behaves :
    Behaves valid Here 1 (limit + 1) (Expr.IsOperand valid) (typeExpr rules) := by
  refine .bind_pos fun start startValid => .bind_token fun tok _ => ?_
  have type := behave.type
  split
  · exact .bind_step (Nat.le_refl _) ident_behaves
      (fun name nameValid => qualifiedFrom_behaves nameValid)
  · refine .bind_advance (by decide) (Nat.le_refl _)
      (.bind (arrayLength_behaves behave) fun length lengthGraded =>
      .bind (.expect (by decide)) fun _ _ => .bind type fun elem isOperand =>
        .pure (Expr.isOperand_of_children (fun _ => trivial) startValid ?_))
    simpa [Node.children, Node.exprChildren, or_imp, forall_and, isOperand.graded] using lengthGraded
  · refine .bind_advance (by decide) (Nat.le_refl _)
      (.bind (members_behaves (structField_behaves behave)).later
      fun fields graded => .bind_prevStop fun stop =>
        .pure (Expr.isOperand_of_children (fun _ => trivial) startValid ?_))
    simpa [Node.children, Node.exprChildren] using graded
  · refine .bind_advance (by decide) (Nat.le_refl _) (.bind type fun operand isOperand =>
      .pure (Expr.isOperand_of_children (fun _ => trivial) startValid ?_))
    simp [Node.children, Node.exprChildren, isOperand.graded]
  · refine .bind_advance (by decide) (Nat.le_refl _)
      (.bind (funcTypeFrom_behaves behave start).later fun type isRead =>
      .pure ⟨⟨?_, isRead.2⟩, fun _ => True.intro⟩)
    exact show valid type.span.start from isRead.1 ▸ startValid
  · refine .bind_advance (by decide) (Nat.le_refl _)
      (.bind (members_behaves (interfaceMember_behaves behave)).later
      fun fields graded => .bind_prevStop fun stop =>
        .pure (Expr.isOperand_of_children (fun _ => trivial) startValid ?_))
    simpa [Node.children, Node.exprChildren] using graded
  · refine .bind_advance (by decide) (Nat.le_refl _)
      (.bind (.expect (by decide)) fun _ _ => .bind type fun key keyRead =>
      .bind (.expect (by decide)) fun _ _ => .bind type fun value valueRead =>
        .pure (Expr.isOperand_of_children (fun _ => trivial) startValid ?_))
    simp [Node.children, Node.exprChildren, keyRead.graded, valueRead.graded]
  · refine .bind_advance (by decide) (Nat.le_refl _)
      (.bind_accept (by decide) fun found => .bind type fun elem isOperand =>
      .pure (Expr.isOperand_of_children (fun _ => trivial) startValid ?_))
    simp [Node.children, Node.exprChildren, isOperand.graded]
  · refine .bind_advance (by decide) (Nat.le_refl _)
      (.bind (.expect (by decide)) fun _ _ => .bind type fun elem isOperand =>
      .pure (Expr.isOperand_of_children (fun _ => trivial) startValid ?_))
    simp [Node.children, Node.exprChildren, isOperand.graded]
  · refine .bind_advance (by decide) (Nat.le_refl _)
      (.bind type fun inner isOperand => .bind (.expect (by decide)) fun _ _ =>
      .bind_prevStop fun stop => .pure (Expr.isOperand_of_children (fun _ => trivial) startValid ?_))
    simp [Node.children, Node.exprChildren, isOperand.graded]
  · exact .expected

end Types

/-! ### Expressions -/

section Expressions

variable (behave : rules.Behave valid limit)

include behave

theorem keyedElement_behaves :
    Behaves valid Any 1 limit (Expr.IsRead valid) (keyedElement rules) := by
  refine .bind_step (Nat.le_succ limit) behave.element
    (fun key keyRead => .bind_accept (by decide) fun found =>
    .ite (fun _ => .bind behave.element fun value valueRead =>
      .pure ⟨keyRead.start, Node.isGraded_of_children trivial ?_⟩) fun _ => .pure keyRead)
  simp [Node.children, Node.exprChildren, keyRead.graded, valueRead.graded]

/-- A composite literal begins with its type or with its brace. -/
theorem compositeLit_behaves (type : Option Expr) :
    Behaves valid Here 1 (limit + 1)
      (fun result => (∀ value ∈ type, value.IsRead valid) → result.IsOperand valid)
      (compositeLit rules type) := by
  refine .bind_expect (by decide) (by omega) fun brace braceValid =>
    .bind (.bracketed (.listUntil (keyedElement_behaves behave))) fun elems elemsRead =>
      .bind (.expect (by decide)) fun _ _ => .bind_prevStop fun stop => .pure fun typeRead =>
        Expr.isOperand_of_children (fun _ => trivial) ?_ ?_
  · cases type with
    | none => exact braceValid
    | some value => exact (typeRead value rfl).start
  · simp only [Node.children, Node.exprChildren, List.forall_mem_append, List.forall_mem_map,
      Option.mem_toList]
    exact ⟨fun value isType => (typeRead value isType).graded,
      fun value isElem => (elemsRead value isElem).graded⟩

/-- The key or value of a literal may be an expression that begins at the cursor. -/
theorem elementValue_behaves {wide : Nat} (wide_le : wide ≤ limit + 1)
    (exprBehaves : Behaves valid Any 1 wide (Expr.IsRead valid) rules.expr) :
    Behaves valid Here 1 wide (Expr.IsRead valid) (elementValue rules) := by
  refine .bind_token fun tok _ => .ite (fun _ => ?_) fun _ => exprBehaves.here
  exact (compositeLit_behaves behave none).mono (Nat.le_refl 1) wide_le (fun _ here => here)
    fun _ isOperand => (isOperand (by simp)).toIsRead

theorem funcLitOrType_behaves :
    Behaves valid Here 1 (limit + 1) (Expr.IsOperand valid) (funcLitOrType rules) := by
  refine .bind_expect (by decide) (by omega) fun start startValid =>
    .bind (funcTypeFrom_behaves behave start).later fun type isRead =>
      .bind_token fun tok _ => .ite (fun _ => ?_) fun _ => .pure ?_
  · refine .bind (.atLevel behave.block.here) fun body graded =>
      .pure (Expr.isOperand_of_children (fun _ => trivial) startValid ?_)
    simp [Node.children, Node.exprChildren, isRead.2, graded]
  · exact ⟨⟨show valid type.span.start from isRead.1 ▸ startValid, isRead.2⟩, fun _ => True.intro⟩

/-- An operand may be a type that begins at the cursor. -/
theorem operand_behaves {wide : Nat} (wide_le : wide ≤ limit + 1)
    (typeBehaves : Behaves valid Any 1 wide (Expr.IsOperand valid) rules.type) :
    Behaves valid Here 1 wide (Expr.IsOperand valid) (operand rules) := by
  have literalBehaves {tok : Token} (notEnd : tok ≠ .endOfFile) :
      Behaves valid (· = tok) 1 wide (Expr.IsOperand valid) (do return .lit (← literal)) :=
    .bind_step (Nat.le_succ wide) (literal_behaves (by simpa using notEnd))
      fun literal literalValid =>
        .pure (Expr.isOperand_of_children (fun _ => trivial) literalValid
          (by simp [Node.children, Node.exprChildren]))
  refine .bind_token fun tok _ => ?_
  split
  · exact .bind_step (Nat.le_succ wide) ident_behaves fun name nameValid =>
      .pure (Expr.isOperand_of_children (fun _ => trivial) nameValid
        (by simp [Node.children, Node.exprChildren]))
  · exact literalBehaves (by decide)
  · exact literalBehaves (by decide)
  · exact literalBehaves (by decide)
  · exact literalBehaves (by decide)
  · exact literalBehaves (by decide)
  · refine .bind_expect (by decide) wide_le (fun start startValid => .bind (.bracketed behave.expr)
      fun inner isRead =>
      .bind (.expect (by decide)) fun _ _ => .bind_prevStop fun stop =>
        .pure (Expr.isOperand_of_children (fun _ => trivial) startValid ?_))
    simp [Node.children, Node.exprChildren, isRead.graded]
  · exact (funcLitOrType_behaves behave).narrow (Nat.le_refl 1) wide_le
  · exact typeBehaves.here
  · exact typeBehaves.here
  · exact typeBehaves.here
  · exact typeBehaves.here
  · exact typeBehaves.here
  · exact .expected

theorem selectorOrAssertion_behaves (value : Expr) :
    Behaves valid Here 1 (limit + 1) (fun result => value.IsOperand valid → result.IsOperand valid)
      (selectorOrAssertion rules value) := by
  refine .bind_token fun tok _ => ?_
  split
  · refine .bind_step (Nat.le_succ _) ident_behaves (fun sel _ => .pure fun isOperand =>
      Expr.isOperand_of_children (fun _ => trivial) isOperand.start ?_)
    simp [Node.children, Node.exprChildren, isOperand.graded]
  · have rest (type : Option Expr) (graded : ∀ value ∈ type, (Node.expr value).IsGraded) :
        Behaves valid Any 0 limit
          (fun result : Expr => value.IsOperand valid → result.IsOperand valid) (do
            let _ ← expect .rightParen
            return Expr.typeAssert ⟨value.span.start, ← prevStop⟩ value type) := by
      refine .bind (.expect (by decide)) fun _ _ => .bind_prevStop fun stop => .pure fun isOperand =>
        Expr.isOperand_of_children (fun _ => trivial) isOperand.start ?_
      simpa [Node.children, Node.exprChildren, isOperand.graded] using graded
    refine .bind_advance (by decide) (Nat.le_refl _) (.bind_accept (by decide) fun found => ?_)
    split
    · exact rest none (by simp)
    · exact .bind behave.type.option fun type typeRead =>
        rest type fun value isType => (typeRead value isType).graded
  · exact .expected

theorem sliceIndex_behaves :
    Behaves valid Here 0 limit (fun index => ∀ value ∈ index, (Node.expr value).IsGraded)
      (sliceIndex rules) := by
  refine .bind_token fun tok _ => ?_
  split
  · exact .pure (by simp)
  · exact .pure (by simp)
  · exact .bind behave.expr.here fun index isRead => .pure (by simpa using isRead.graded)

/-- All indices are graded. -/
def Indices.IsGraded (parts : Indices) : Prop :=
  ∀ value ∈ parts.first.toList ++ (parts.second.toList ++ parts.third.toList),
    (Node.expr value).IsGraded

theorem indices_behaves : Behaves valid Here 0 limit Indices.IsGraded (indices rules) := by
  have rest (first : Option Expr) (graded : ∀ value ∈ first, (Node.expr value).IsGraded) :
      Behaves valid Any 0 limit Indices.IsGraded (do
        if ← accept .colon then
          let second ← sliceIndex rules
          if ← accept .colon then
            let third ← sliceIndex rules
            return ⟨first, second, third, 2⟩
          else
            return ⟨first, second, none, 1⟩
        else
          return { first }) := by
    refine .bind_accept (by decide) fun found => .ite (fun _ => .bind (sliceIndex_behaves behave)
      fun second secondGraded => .bind_accept (by decide) fun again => .ite (fun _ =>
        .bind (sliceIndex_behaves behave) fun third thirdGraded => .pure ?_) fun _ => .pure ?_)
        fun _ => .pure ?_
    · simpa [Indices.IsGraded, or_imp, forall_and] using ⟨graded, secondGraded, thirdGraded⟩
    · simpa [Indices.IsGraded, or_imp, forall_and] using ⟨graded, secondGraded⟩
    · simpa [Indices.IsGraded] using graded
  refine .bind_token fun tok _ => ?_
  split
  · exact (rest none (by simp)).here
  · exact .bind behave.expr.here.option fun first isRead =>
      rest first fun value isFirst => (isRead value isFirst).graded

theorem indexOrSlice_behaves (value : Expr) :
    Behaves valid Here 1 (limit + 1) (fun result => value.IsOperand valid → result.IsOperand valid)
      (indexOrSlice rules value) := by
  refine .bind_expect (by decide) (by omega) fun _ _ =>
    .bind (.bracketed (indices_behaves behave)) fun parts graded =>
      .bind (.expect (by decide)) fun _ _ => .bind_prevStop fun stop =>
        .ite (fun _ => .pure fun isOperand => ?_) fun _ => ?_
  · refine Expr.isOperand_of_children (fun _ => trivial) isOperand.start ?_
    simpa [Node.children, Node.exprChildren, Indices.IsGraded, or_imp, forall_and,
      isOperand.graded] using graded
  · cases first : parts.first with
    | none => exact .expected
    | some index =>
        refine .pure fun isOperand => Expr.isOperand_of_children (fun _ => trivial) isOperand.start ?_
        have indexGraded := graded index (by simp [first])
        simp [Node.children, Node.exprChildren, isOperand.graded, indexGraded]

theorem call_behaves (callee : Expr) :
    Behaves valid Here 1 (limit + 1) (fun result => callee.IsOperand valid → result.IsOperand valid)
      (call rules callee) := by
  have item : Behaves valid Any 1 limit (fun arg => (Node.expr arg.1).IsGraded)
      (do let arg ← rules.expr; return (arg, ← accept .ellipsis)) :=
    .bind_step (Nat.le_succ limit) behave.expr
      (fun arg isRead => .bind_accept (by decide) fun found => .pure isRead.graded)
  refine .bind_expect (by decide) (by omega) fun _ _ => .bind (.bracketed (.listUntil item))
    fun args graded =>
    .bind (.expect (by decide)) fun _ _ => .bind_prevStop fun stop => .pure fun isOperand =>
      Expr.isOperand_of_children (fun _ => trivial) isOperand.start ?_
  refine List.forall_mem_cons.mpr ⟨isOperand.graded, ?_⟩
  simpa only [List.forall_mem_map] using graded

theorem extension_extends (value : Expr) :
    Extends valid Here (limit + 1) (fun result => value.IsOperand valid → result.IsOperand valid)
      (extension rules value) := by
  refine .bind_token fun tok _ => ?_
  split
  · rw [← bind_assoc]
    exact .some (.bind_advance (by decide) (Nat.le_refl _)
      (selectorOrAssertion_behaves behave value).later)
  · exact .some (indexOrSlice_behaves behave value)
  · exact .some (call_behaves behave value)
  · refine .bind_get fun cursor => .ite (fun _ => .some ?_) fun _ => .none
    refine (compositeLit_behaves behave (some value)).mono (Nat.le_refl 1) (Nat.le_refl _)
      (fun _ here => here) fun result fits isOperand => fits ?_
    simpa using isOperand.toIsRead
  · exact .none

theorem primaryFrom_behaves (value : Expr) :
    Behaves valid Here 0 (limit + 1) (fun result => value.IsOperand valid → result.IsOperand valid)
      (primaryFrom rules value) := by
  have steps (first : Expr) (fits : value.IsOperand valid → first.IsOperand valid) :
      Extends valid Any (limit + 1) (fun result => value.IsOperand valid → result.IsOperand valid)
        (extension rules first) :=
    (extension_extends behave first).mono fun _ keeps isOperand => keeps (fits isOperand)
  exact Behaves.extendAll steps fun isOperand => isOperand

/-- An expression may begin with a type that begins at the cursor. -/
theorem unaryExpr_behaves {wide : Nat} (wide_le : wide ≤ limit + 1)
    (typeBehaves : Behaves valid Any 1 wide (Expr.IsOperand valid) rules.type) :
    Behaves valid Here 1 wide (Expr.IsOperand valid) (unaryExpr rules) := by
  have primary {value : Expr} (isOperand : value.IsOperand valid) :
      Behaves valid Any 0 wide (Expr.IsOperand valid) (primaryFrom rules value) :=
    (primaryFrom_behaves behave value).mono (Nat.le_refl 0) wide_le (fun _ here => here)
      fun _ keeps => keeps isOperand
  refine .bind_pos fun start startValid => .bind_token fun tok _ => .ite (fun isOperator => ?_)
    fun _ => .ite (fun isArrow => .bind_get fun cursor _ _ => .ite (fun _ => ?_) fun _ => ?_)
      fun _ => .ite (fun isStar => ?_) fun _ => ?_
  · refine .bind_advance ?_ wide_le (.bind behave.unary fun operand isOperand =>
      .pure (Expr.isOperand_of_children (fun _ => trivial) startValid ?_))
    · rintro rfl
      cases isOperator
    · simp [Node.children, Node.exprChildren, isOperand.graded]
  · exact .bind_step (Nat.le_succ wide) typeBehaves.here (fun _ isOperand => primary isOperand)
  · refine .bind_advance (by simp_all) wide_le (.bind behave.unary fun operand isOperand =>
      .pure (Expr.isOperand_of_children (fun _ => trivial) startValid ?_))
    simp [Node.children, Node.exprChildren, isOperand.graded]
  · refine .bind_advance (by simp [isStar]) wide_le (.bind behave.unary fun operand isOperand =>
      .pure (Expr.isOperand_of_children (fun _ => trivial) startValid ?_))
    simp [Node.children, Node.exprChildren, isOperand.graded]
  · exact .bind_step (Nat.le_succ wide) (operand_behaves behave wide_le typeBehaves)
      (fun _ isOperand => primary isOperand)

/-- An operator takes a lexeme and its right operand is read with one lexeme less ahead. -/
theorem binaryStep_extends {least wide : Nat} (wide_le : wide ≤ limit + 1)
    (positive : least = 0 → wide = 0) {left : Expr} (leftValid : valid left.span.start) :
    Extends valid Here wide (fun value => valid value.span.start) (binaryStep rules least left) := by
  have right (op : Token) : Behaves valid Any 1 limit (Expr.IsBound valid (op.precedence + 1))
      (rules.binary (op.precedence + 1)) := behave.binary (op.precedence + 1)
  refine .bind_token fun op _ => .ite (fun _ => .none) fun strong => ?_
  by_cases atEnd : op = .endOfFile
  · -- Only without a least precedence can the end of the file pass for an operator.
    subst atEnd
    have nothing : wide = 0 := positive (by simpa [Token.precedence] using strong)
    refine ⟨fun cursor value after stands here outcome => ?_, fun cursor after here outcome => ?_,
      fun _ _ _ _ few => absurd (nothing ▸ few) (Nat.not_lt_zero _)⟩
    · simp only [bind_eq_ok, advance_eq_ok] at outcome
      obtain ⟨_, _, rfl, operand, middle, operandOutcome, -⟩ := outcome
      have same : cursor.next = cursor := by simp [Cursor.next, here]
      rw [same] at operandOutcome
      exact absurd operandOutcome ((right _).not_reads stands here)
    · simp [bind_eq_ok] at outcome
  · have joined : Behaves valid (· = op) 1 wide (fun value => valid value.span.start) (do
        advance
        let right ← rules.binary (op.precedence + 1)
        return Expr.binary ⟨left.span.start, right.span.stop⟩ left op right) :=
      .bind_advance atEnd wide_le (.bind (right op) fun right _ => .pure leftValid)
    simpa using Extends.some joined

/-- What is known of a left operand in front of the next operator. -/
structure LeftOperand (valid : Pos → Prop) (least : Nat) (cursor : Cursor) (value : Expr) : Prop
    extends Expr.IsBound valid least value where
  stands : cursor.Stands valid
  next : value.Binds cursor.current.token.precedence

/-- An operator that joins a left operand to a right one gives a left operand again. -/
theorem binaryStep_keeps {least : Nat} {cursor after : Cursor} {left : Expr} {extended : Option Expr}
    (isLeft : LeftOperand valid least cursor left)
    (outcome : binaryStep rules least left cursor = .ok (extended, after)) :
    LeftOperand valid least after (extended.getD left) := by
  have extending : Extends valid Any 0 (fun value => valid value.span.start)
      (binaryStep rules least left) :=
    binaryStep_extends behave (Nat.zero_le _) (fun _ => rfl) isLeft.start
  cases extended with
  | none =>
      obtain rfl := extending.stays trivial outcome
      exact isLeft
  | some value =>
      obtain ⟨start, read, -, consumed⟩ := extending.reads isLeft.stands trivial outcome
      have standsAfter := consumed.stands isLeft.stands
      simp only [binaryStep, bind_eq_ok, token_eq_ok, ite_eq_ok, pure_eq_ok, advance_eq_ok] at outcome
      obtain ⟨op, _, ⟨rfl, rfl⟩, ⟨-, none, -⟩ | ⟨strong, _, _, rfl, right, middle, rightOutcome,
        valueEq, rfl⟩⟩ := outcome
      · cases none
      · obtain rfl := Option.some.inj valueEq
        have rightBound := ((behave.binary _).reads isLeft.stands.next trivial rightOutcome).1
        have weaker := behave.stops rightOutcome
        refine ⟨⟨⟨start, Node.isGraded_of_children ⟨isLeft.next, rightBound.binds⟩ ?_⟩, ?_⟩,
          standsAfter, ?_⟩
        · simp [Node.children, Node.exprChildren, isLeft.graded, rightBound.graded]
        · exact Nat.le_of_not_lt strong
        · exact Nat.le_of_lt_succ weaker

/-- An expression begins with an operand, so with the type with which that may begin. -/
theorem binaryExpr_behaves {wide : Nat} (wide_le : wide ≤ limit + 1)
    (typeBehaves : Behaves valid Any 1 wide (Expr.IsOperand valid) rules.type) (least : Nat) :
    Behaves valid Here 1 (if least = 0 then 0 else wide) (Expr.IsBound valid least)
      (binaryExpr rules least) := by
  have narrow : (if least = 0 then 0 else wide) ≤ wide := by split <;> omega
  have unary : Behaves valid Any 1 (if least = 0 then 0 else wide) (Expr.IsOperand valid)
      (unaryExpr rules) :=
    (unaryExpr_behaves behave wide_le typeBehaves).narrow (Nat.le_refl 1) narrow
  have steps (left : Expr) (leftValid : valid left.span.start) :
      Extends valid Any (if least = 0 then 0 else wide) (fun value => valid value.span.start)
        (binaryStep rules least left) :=
    binaryStep_extends behave (narrow.trans wide_le) (fun isZero => if_pos isZero) leftValid
  have reads : Behaves valid Here 1 (if least = 0 then 0 else wide)
    (fun value => valid value.span.start)
      (binaryExpr rules least) :=
    .bind_step (Nat.le_succ _) unary.here (fun first isOperand => .extendAll steps isOperand.start)
  refine reads.strengthen fun cursor value after stands outcome => ?_
  obtain ⟨first, middle, firstOutcome, restOutcome⟩ := bind_eq_ok.mp outcome
  obtain ⟨isOperand, read, -, consumed⟩ := unary.reads stands trivial firstOutcome
  have isLeft : LeftOperand valid least middle first :=
    ⟨⟨isOperand.toIsRead, isOperand.alone least⟩, consumed.stands stands, isOperand.alone _⟩
  have inTheEnd : LeftOperand valid least after value :=
    extendAll_keeps (fun _ _ _ _ isLeft => binaryStep_keeps behave isLeft) isLeft restOutcome
  exact inTheEnd.toIsBound

end Expressions

/-- An expression ends in front of a token that is no operator of the precedence. -/
theorem binaryExpr_stops {least : Nat} {cursor after : Cursor} {value : Expr}
    (outcome : binaryExpr rules least cursor = .ok (value, after)) :
    after.current.token.precedence < least := by
  obtain ⟨first, middle, -, restOutcome⟩ := bind_eq_ok.mp outcome
  obtain ⟨last, lastOutcome⟩ := extendAll_ends restOutcome
  simp only [binaryStep, bind_eq_ok, token_eq_ok, ite_eq_ok, pure_eq_ok] at lastOutcome
  obtain ⟨op, _, ⟨rfl, rfl⟩, ⟨weak, -, rfl⟩ | ⟨-, _, _, -, _, _, -, some, -⟩⟩ := lastOutcome
  · exact weak
  · cases some

end Parse

end GoMend
