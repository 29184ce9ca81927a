import GoMend.Grammar.Expressions

/-!
# Statements and declarations of items

The rules for statements and for the items of `const`, `var` and `type` declarations.  Composite
literals of a plain type name are not read in the header of a statement, where its block begins.
-/

namespace GoMend

/-- Whether a simple statement can begin with the token. -/
def Token.startsSimpleStmt : Token → Bool
  | .ident | .int | .float | .imag | .char | .string | .kwFunc | .leftParen => true
  | .leftBracket | .kwStruct | .kwMap | .kwChan | .kwInterface => true
  | .add | .sub | .mul | .bitAnd | .bitXor | .arrow | .logicalNot => true
  | _ => false

/-- Whether an expression is the `x.(type)` of a type switch. -/
def Expr.isTypeGuard : Expr → Bool
  | .typeAssert _ _ none => true
  | _ => false

/-- Whether a statement is the guard of a type switch. -/
def Stmt.isTypeGuard : Stmt → Bool
  | .expr _ value => value.isTypeGuard
  | .assign _ [_] .define [value] _ => value.isTypeGuard
  | _ => false

namespace Parse

/-! ### Declarations of items -/

/-- An import. -/
def importSpec : Parse Spec := do
  let start ← pos
  let name ←
    match ← token with
    | .ident => some <$> ident
    | .period => do
        advance
        pure (some ⟨⟨start, start + 1⟩, "."⟩)
    | _ => pure none
  if (← token) = .string then
    let path ← literal
    return .importSpec ⟨⟨start, path.span.stop⟩, name, path⟩
  else
    expected "import path"

/-- Constants or variables; a variable needs a type or values. -/
def valueSpec (rules : Rules) (keyword : Token) : Parse Spec := do
  let start ← pos
  let names ← identList
  let type ←
    match ← token with
    | .assign | .semicolon | .rightParen => pure none
    | _ => some <$> rules.type
  if ← accept .assign then
    let (first, others) ← exprList rules
    return .valueSpec ⟨start, ← prevStop⟩ names type (first :: others)
  else if keyword = .kwVar && type.isNone then
    expected "type"
  else
    return .valueSpec ⟨start, ← prevStop⟩ names type []

/-- A named type.  A bracket and a name before the beginning of a type would be type parameters. -/
def typeSpec (rules : Rules) : Parse Spec := do
  let name ← ident
  let cursor ← get
  if cursor.current.token = .leftBracket && cursor.peek 1 = .ident && (cursor.peek 2).startsType then
    fail .typeParameters
  let isAlias ← accept .assign
  let type ← rules.type
  return .typeSpec ⟨name.span.start, ← prevStop⟩ name type isAlias

/-- The items of a declaration, one or several in parentheses. -/
def genDecl (keyword : Token) (item : Parse Spec) : Parse GenDecl := do
  let start ← expect keyword
  let grouped ← accept .leftParen
  let specs ←
    if grouped then do
      let specs ← manyWhile
        (do let tok ← token; return tok ≠ .rightParen && tok ≠ .endOfFile)
        (do let spec ← item; expectEnd; return spec)
      let _ ← expect .rightParen
      pure specs
    else do
      pure [← item]
  let stop ← prevStop
  expectEnd
  return ⟨⟨start, stop⟩, keyword, specs, grouped⟩

/-! ### Simple statements -/

/-- The loop over a range whose variables have been read, without its body. -/
def rangeClause (rules : Rules) (key : Expr) (others : List Expr) (tok : Token) (tokPos : Pos) :
    Parse Stmt := do
  let _ ← expect .kwRange
  let operand ← rules.expr
  match others with
  | _ :: third :: _ => failAt third.span.start .tooManyRangeVariables
  | _ =>
      let span : Span := ⟨key.span.start, operand.span.stop⟩
      return .range span (some key) others.head? (some tok) operand none tokPos

/-- A statement after its label. -/
def labeledFrom (rules : Rules) (label : Ident) : Parse Stmt := do
  let inner ←
    if (← token) = .rightBrace then do
      let here ← pos
      pure (.empty ⟨here, here⟩)
    else do
      match ← rules.stmt with
      | some stmt => pure stmt
      | none =>
          let here ← prevStop
          pure (.empty ⟨here, here⟩)
  let prev ← prevStop
  let stop := if inner.span.stop = noPos then prev else inner.span.stop
  return .labeled ⟨label.span.start, stop⟩ label inner

/-- An expression, a send, an increment, an assignment or a label with its statement.  In the
header of a loop an assignment may range over its right side. -/
def simpleStmt (rules : Rules) (labelOk rangeOk : Bool) : Parse Stmt := do
  let (first, others) ← exprList rules
  let start := first.span.start
  let tok ← token
  if tok = .define || tok = .assign || tok.isAssignOperator then
    let tokPos ← pos
    advance
    if rangeOk && (← token) = .kwRange && (tok = .define || tok = .assign) then
      rangeClause rules first others tok tokPos
    else
      let (value, values) ← exprList rules
      let last := values.getLast?.getD value
      return .assign ⟨start, last.span.stop⟩ (first :: others) tok (value :: values) tokPos
  else if !others.isEmpty then
    expected "1 expression"
  else
    match tok, first with
    | .colon, .ident label =>
        if labelOk then
          advance
          labeledFrom rules label
        else
          return .expr first.span first
    | .arrow, _ =>
        advance
        let value ← rules.expr
        return .send ⟨start, value.span.stop⟩ first value
    | .increment, _ | .decrement, _ =>
        advance
        return .incDec ⟨start, ← prevStop⟩ first tok
    | _, _ => return .expr first.span first

/-! ### Blocks and clauses -/

/-- Statements up to a closing brace or the next clause. -/
def stmtList (rules : Rules) : Parse (List Stmt) := do
  let stmts ← manyWhile
    (do
      match ← token with
      | .kwCase | .kwDefault | .rightBrace | .endOfFile => return false
      | _ => return true)
    rules.stmt
  return stmts.filterMap id

/-- Statements in braces. -/
def blockStmt (rules : Rules) : Parse Block := do
  let start ← expect .leftBrace
  let stmts ← stmtList rules
  let _ ← expect .rightBrace
  return ⟨⟨start, ← prevStop⟩, stmts⟩

/-- Clauses in braces. -/
def clauseBlock (clause : Parse Stmt) : Parse Block := do
  let start ← expect .leftBrace
  let clauses ← manyWhile
    (do let tok ← token; return tok = .kwCase || tok = .kwDefault) clause
  let _ ← expect .rightBrace
  return ⟨⟨start, ← prevStop⟩, clauses⟩

/-- A clause of a switch; the cases of a type switch are types. -/
def caseClause (rules : Rules) (ofTypes : Bool) : Parse Stmt := do
  let start ← pos
  let exprs ←
    if ← accept .kwCase then do
      let (first, others) ← commaSeparated (if ofTypes then rules.type else rules.expr)
      pure (some (first :: others))
    else do
      let _ ← expect .kwDefault
      pure none
  let colon ← expect .colon
  let body ← stmtList rules
  return .caseClause ⟨start, ← prevStop⟩ exprs body colon

/-- The communication of a clause of a select. -/
def communication (rules : Rules) : Parse Stmt := do
  let (first, others) ← exprList rules
  let start := first.span.start
  let tok ← token
  if tok = .assign || tok = .define then
    let tokPos ← pos
    advance
    let value ← rules.expr
    return .assign ⟨start, value.span.stop⟩ (first :: others) tok [value] tokPos
  else if !others.isEmpty then
    expected "1 expression"
  else if ← accept .arrow then
    let value ← rules.expr
    return .send ⟨start, value.span.stop⟩ first value
  else
    return .expr first.span first

/-- A clause of a select. -/
def commClause (rules : Rules) : Parse Stmt := do
  let start ← pos
  let comm ←
    if ← accept .kwCase then
      some <$> communication rules
    else do
      let _ ← expect .kwDefault
      pure none
  let colon ← expect .colon
  let body ← stmtList rules
  return .commClause ⟨start, ← prevStop⟩ comm body colon

/-! ### Compound statements -/

/-- The header of an `if`: an optional statement and a condition. -/
def ifHeader (rules : Rules) (start : Pos) : Parse (Option Stmt × Expr) := do
  if (← token) = .leftBrace then
    fail .missingCondition
  let first ←
    if (← token) = .semicolon then pure none else some <$> simpleStmt rules false false
  if ← accept .semicolon then
    if (← token) = .leftBrace then
      fail .missingCondition
    return (first, ← rules.expr)
  else
    match first with
    | some (.expr _ cond) => return (none, cond)
    | _ => failAt start .assignmentAsValue

/-- An `if` with its `else`. -/
def ifStmt (rules : Rules) : Parse Stmt := do
  let start ← expect .kwIf
  let (init, cond) ← inHeader (ifHeader rules start)
  let body ← blockStmt rules
  if ← accept .kwElse then
    match ← token with
    | .kwIf =>
        let otherwise ← rules.ifStmt
        return .ifElse ⟨start, otherwise.span.stop⟩ init cond body (some otherwise)
    | .leftBrace =>
        let otherwise ← blockStmt rules
        expectEnd
        return .ifElse ⟨start, otherwise.span.stop⟩ init cond body (some (.block otherwise))
    | _ => expected "if statement or block"
  else
    let stop ← prevStop
    expectEnd
    return .ifElse ⟨start, stop⟩ init cond body none

/-- The header of a `switch`: an optional statement and an optional tag. -/
def switchHeader (rules : Rules) : Parse (Option Stmt × Option Stmt) := do
  if (← token) = .leftBrace then
    return (none, none)
  let first ←
    if (← token) = .semicolon then pure none else some <$> simpleStmt rules false false
  if ← accept .semicolon then
    if (← token) = .leftBrace then
      return (first, none)
    else
      return (first, some (← simpleStmt rules false false))
  else
    return (none, first)

/-- A `switch` over values or types. -/
def switchStmt (rules : Rules) : Parse Stmt := do
  let start ← expect .kwSwitch
  let (init, tag) ← inHeader (switchHeader rules)
  let ofTypes := tag.any Stmt.isTypeGuard
  let body ← clauseBlock (caseClause rules ofTypes)
  let span : Span := ⟨start, ← prevStop⟩
  expectEnd
  match tag with
  | none => return .switch span init none body
  | some guard =>
      if ofTypes then
        return .typeSwitch span init guard body
      else
        match guard with
        | .expr _ value => return .switch span init (some value) body
        | _ => failAt guard.span.start .switchTagNotExpression

/-- A `select`. -/
def selectStmt (rules : Rules) : Parse Stmt := do
  let start ← expect .kwSelect
  let body ← clauseBlock (commClause rules)
  expectEnd
  return .select ⟨start, body.span.stop⟩ body

/-- The header of a loop. -/
inductive LoopHeader where
  /-- A loop over a range, with the loop's own range of positions still to come. -/
  | overRange (key value : Option Expr) (tok : Option Token) (operand : Expr) (tokPos : Pos)
  /-- A loop with a condition, which is a statement as far as it has been read. -/
  | clauses (init cond post : Option Stmt)

/-- The second and third part of a loop header. -/
def loopClauses (rules : Rules) (init : Option Stmt) : Parse LoopHeader := do
  let cond ←
    if (← token) = .semicolon then pure none else some <$> simpleStmt rules false false
  if !(← accept .semicolon) then
    expected "';'"
  let post ←
    if (← token) = .leftBrace then pure none else some <$> simpleStmt rules false false
  return .clauses init cond post

/-- The header of a loop. -/
def loopHeader (rules : Rules) : Parse LoopHeader := do
  match ← token with
  | .leftBrace => return .clauses none none none
  | .kwRange =>
      advance
      return .overRange none none none (← rules.expr) noPos
  | .semicolon =>
      advance
      loopClauses rules none
  | _ =>
      match ← simpleStmt rules false true with
      | .range _ key value tok operand _ tokPos =>
          return .overRange key value tok operand tokPos
      | first =>
          if ← accept .semicolon then
            loopClauses rules (some first)
          else
            return .clauses none (some first) none

/-- A `for`. -/
def forStmt (rules : Rules) : Parse Stmt := do
  let start ← expect .kwFor
  let header ← inHeader (loopHeader rules)
  let body ← blockStmt rules
  expectEnd
  let span : Span := ⟨start, body.span.stop⟩
  match header with
  | .overRange key value tok operand tokPos =>
      return .range span key value tok operand (some body) tokPos
  | .clauses init none post => return .loop span init none post (some body)
  | .clauses init (some (.expr _ cond)) post =>
      return .loop span init (some cond) post (some body)
  | .clauses _ (some cond) _ => failAt cond.span.start .loopConditionNotExpression

/-- A `go` or `defer` with its call. -/
def callStmt (rules : Rules) (keyword : Token) (build : Span → Expr → Stmt) : Parse Stmt := do
  let start ← expect keyword
  let call ← rules.expr
  match call with
  | .call .. =>
      let stop ← prevStop
      expectEnd
      return build ⟨start, stop⟩ call
  | other => failAt other.span.start (.notACall keyword)

/-- A `return` with its results. -/
def returnStmt (rules : Rules) : Parse Stmt := do
  let start ← expect .kwReturn
  let results ←
    match ← token with
    | .semicolon | .rightBrace => pure []
    | _ => do
        let (first, others) ← exprList rules
        pure (first :: others)
  let stop ← prevStop
  expectEnd
  return .ret ⟨start, stop⟩ results

/-- A `break`, `continue`, `goto` or `fallthrough`; the last one takes no label. -/
def branchStmt (keyword : Token) : Parse Stmt := do
  let start ← expect keyword
  let label ←
    if keyword ≠ .kwFallthrough && (← token) = .ident then some <$> ident else pure none
  let stop ← prevStop
  expectEnd
  return .branch ⟨start, stop⟩ keyword label

/-- A declaration as a statement. -/
def declStmt (rules : Rules) (keyword : Token) : Parse Stmt := do
  let decl ← genDecl keyword
    (if keyword = .kwType then typeSpec rules else valueSpec rules keyword)
  return .decl decl.span decl

/-- A statement, or nothing for a lone semicolon. -/
def statement (rules : Rules) : Parse (Option Stmt) := do
  let tok ← token
  if tok.startsSimpleStmt then
    match ← simpleStmt rules true false with
    | .labeled span label inner => return some (.labeled span label inner)
    | simple =>
        expectEnd
        return some simple
  else
    match tok with
    | .kwConst | .kwType | .kwVar => some <$> declStmt rules tok
    | .kwGo => some <$> callStmt rules tok .go
    | .kwDefer => some <$> callStmt rules tok .defer
    | .kwReturn => some <$> returnStmt rules
    | .kwBreak | .kwContinue | .kwGoto | .kwFallthrough => some <$> branchStmt tok
    | .leftBrace =>
        let block ← blockStmt rules
        expectEnd
        return some (.block block)
    | .kwIf => some <$> ifStmt rules
    | .kwSwitch => some <$> switchStmt rules
    | .kwSelect => some <$> selectStmt rules
    | .kwFor => some <$> forStmt rules
    | .semicolon =>
        advance
        return none
    | _ => expected "statement"

end Parse

end GoMend
