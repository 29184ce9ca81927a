import GoMend.Layout.Page
import GoMend.Layout.Spacing
import GoMend.Tree.Node

/-!
# Printing trees

An expression is printed as a text, which may hold line breaks where its brackets had them in the
source.  A simple statement is a text too, and a compound one writes lines on the page.  Nodes
without a position are printed on lines of their own, without empty lines or comments.
-/

namespace GoMend

namespace Layout

/-- Texts divided by commas. -/
def commas (texts : List String) : String :=
  ", ".intercalate texts

/-- The text in parentheses, if they are needed. -/
def inParens (needed : Bool) (text : String) : String :=
  if needed then "(" ++ text ++ ")" else text

/-- Names divided by commas. -/
def nameList (names : List Ident) : String :=
  commas (names.map (·.name))

/-- Whether an expression is a binary one. -/
def isBinary : Expr → Bool
  | .binary .. => true
  | _ => false

/-- Whether an expression stands in parentheses. -/
def isParen : Expr → Bool
  | .paren .. => true
  | _ => false

/-- Whether results are a single type, which needs no parentheses. -/
def isSingleType : List Field → Bool
  | [field] => field.names.isEmpty
  | _ => false

/-- Whether an operand repeats the sign before it, so that a blank must divide the two. -/
def repeatsSign (op : Token) : Expr → Bool
  | .unary _ inner _ => inner = op && (op = .add || op = .sub)
  | _ => false

/-- The text of the keyword of a channel type. -/
def chanKeyword : ChanDir → String
  | .send => "chan<- "
  | .receive => "<-chan "
  | .both => "chan "

/-! ### Lists in brackets -/

/-- How the elements of a bracketed list are printed. -/
structure ElementPlan where
  depth : Nat
  /-- Whether keys that stand alone on their lines are set in a column of their own. -/
  alignKeys : Bool
  /-- What follows the last element. -/
  spread : String
  openLine : Nat
  /-- Whether the closing bracket stands on a line of its own, after a comma. -/
  trailing : Bool

/-- The elements of a bracketed list as far as they are printed.  Elements that begin on the same
source line make up a group. -/
structure ElementState where
  /-- The text on the line of the opening bracket. -/
  first : String := ""
  rows : Rows
  /-- The source line of the last group, if there is one. -/
  line : Option Nat := none
  /-- Whether the last group stands on the line of the opening bracket. -/
  onOpenLine : Bool := false
  /-- The texts of the last group as far as it is printed. -/
  group : List String := []

namespace ElementState

/-- Begin a group at a source line, unless it goes on the last one. -/
def enter (state : ElementState) (plan : ElementPlan) (pos : Pos) (line : Nat) :
    Print ElementState := do
  if state.line = some line then
    return state
  else if state.line.isNone && line = plan.openLine then
    return { state with line := some line, onOpenLine := true, group := [] }
  else
    let rows ← state.rows.beforeItem pos
    return { state with rows, line := some line, onOpenLine := false, group := [] }

/-- What follows a group, the last one or one before it. -/
def suffix (plan : ElementPlan) (isLast : Bool) : String :=
  if isLast then
    plan.spread ++ (if plan.trailing then "," else "")
  else
    ","

/-- End a group that consists of the given cells and ends at a position. -/
def leave (state : ElementState) (cells : List String) (stop : Pos) : Print ElementState := do
  if state.onOpenLine then
    let prevLine ← lineOf stop
    return { state with first := joined cells, rows := { state.rows with prevLine } }
  else
    return { state with rows := ← state.rows.addItem cells stop }

end ElementState

/-- The positions and brackets of a list. -/
structure Brackets where
  opening : String
  closing : String
  openPos : Pos
  closePos : Pos
  depth : Nat
  alignKeys : Bool := false
  spread : Bool := false

/-- Print a list in brackets.  It stays on one line if it did so in the source.  Otherwise its
elements stand on the lines on which they stood, one step further to the right. -/
def bracketed (brackets : Brackets) (elems : List Expr) (texts : Print (List String))
    (rows : ElementPlan → ElementState → Print ElementState) : Print String := do
  match elems.getLast? with
  | none => return brackets.opening ++ brackets.closing
  | some last =>
      let spread := if brackets.spread then "..." else ""
      let set ← read
      let openLine := lineIn set brackets.openPos
      let closeLine := lineIn set brackets.closePos
      let lastLine := lineIn set last.span.stop
      if openLine = 0 ||
          (elems.all (fun elem => lineIn set elem.span.start = openLine) &&
            closeLine = lastLine) then
        return brackets.opening ++ commas (← texts) ++ spread ++ brackets.closing
      else
        let trailing := lastLine < closeLine
        let plan : ElementPlan :=
          { depth := brackets.depth, alignKeys := brackets.alignKeys, spread, openLine, trailing }
        let (first, lines) ← nested do
          let state ← rows plan { rows := { prevLine := openLine } }
          return (state.first, ← state.rows.close brackets.closePos)
        let indent := (← get).indent
        let body := lines.map fun line =>
          if line.isEmpty then "\n" else "\n" ++ tabs (indent + 1) ++ line
        let ending := if trailing then "\n" ++ tabs indent else ""
        return brackets.opening ++ first ++ String.join body ++ ending ++ brackets.closing

/-! ### Statements -/

/-- Whether a statement is a text without lines of its own. -/
def isSimple : Stmt → Bool
  | .expr .. | .assign .. | .incDec .. | .send .. | .go .. | .defer .. => true
  | .ret .. | .branch .. | .empty .. => true
  | _ => false

/-- Whether a statement may follow an `else`. -/
def isElseBranch : Stmt → Bool
  | .ifElse .. | .block .. => true
  | _ => false

/-- Whether a statement prints nothing. -/
def isEmptyStmt : Stmt → Bool
  | .empty .. => true
  | _ => false

/-- The text of a statement in a header, which has to be a simple one. -/
def simpleText (step : Stmt) (printed : Print (Option String)) : Print String := do
  if isSimple step then
    return (← printed).getD ""
  else
    throw (.notSimple step.kind)

/-- Write the text of a statement, unless it has written its lines itself. -/
def emitText (printed : Print (Option String)) : Print Unit := do
  match ← printed with
  | some text => emit text
  | none => return

/-- Whether an empty block stays on one line: it did so in the source, without a comment in it, or
it has no position. -/
def staysOnOneLine (span : Span) : Print Bool := do
  if !span.isPositioned then
    return true
  else if (← get).comments.head?.any (·.span.start < span.stop) then
    return false
  else
    return (← lineOf span.start) = (← lineOf (span.stop - 1))

/-- Whether an item of a declaration has a type. -/
def hasType : Spec → Bool
  | .valueSpec _ _ type _ => type.isSome
  | _ => false

/-- The cells without the empty ones at their end; the first cell stays. -/
def dropEmptyEnd (cells : List String) : List String :=
  match cells with
  | [] => []
  | first :: rest => first :: (rest.reverse.dropWhile (·.isEmpty)).reverse

mutual

/-- The text of an expression that stands where operators of at least the given precedence need no
parentheses.  A binary operand shares the cutoff of the expression around it. -/
def exprText (shared : Option Nat) (prec depth : Nat) : Expr → Print String
  | .ident name => return name.name
  | .lit literal => return literal.value
  | .binary span left op right => do
      let value : Expr := .binary span left op right
      let parens := op.precedence < prec
      let inner := if parens then reducedDepth depth else depth
      let limit := if parens then cutoff value inner else shared.getD (cutoff value depth)
      let blank := if op.precedence < limit then " " else ""
      let leftText ←
        exprText (some limit) op.precedence (inner + leftDepth left op.precedence) left
      let rightText ← exprText (some limit) (op.precedence + 1) (inner + 1) right
      return inParens parens (leftText ++ blank ++ op.text ++ blank ++ rightText)
  | .unary _ op operand => do
      let parens := unaryPrec < prec
      let inner := if parens then reducedDepth depth else depth
      let operandText ← exprText none unaryPrec inner operand
      let blank := if repeatsSign op operand then " " else ""
      return inParens parens (op.text ++ blank ++ operandText)
  | .star _ operand => do
      let parens := unaryPrec < prec
      let inner := if parens then reducedDepth depth else depth
      return inParens parens ("*" ++ (← exprText none unaryPrec inner operand))
  | .paren _ inner => do
      let doubled := isParen inner
      let text ← exprText none 0 (if doubled then depth else reducedDepth depth) inner
      return inParens (!doubled) text
  | .selector _ operand sel =>
      return (← exprText none highestPrec depth operand) ++ "." ++ sel.name
  | .typeAssert _ operand type => do
      let typeText ←
        match type with
        | none => pure "type"
        | some type => exprText none 0 1 type
      return (← exprText none highestPrec depth operand) ++ ".(" ++ typeText ++ ")"
  | .index _ operand index => do
      let operandText ← exprText none highestPrec 1 operand
      return operandText ++ "[" ++ (← exprText none 0 (depth + 1) index) ++ "]"
  | .slice _ operand low high max full => do
      let operandText ← exprText none highestPrec 1 operand
      let present := [low, high, if full then max else none].filterMap id
      let spaced := depth ≤ 1 && 1 < present.length && present.any isBinary
      let colon (before after : Option Expr) : String :=
        (if before.isSome && spaced then " " else "") ++ ":" ++
          (if after.isSome && spaced then " " else "")
      let lowText ← optionText (depth + 1) low
      let highText ← optionText (depth + 1) high
      let maxText ← if full then optionText (depth + 1) max else pure ""
      let ending := if full then colon high max ++ maxText else ""
      return operandText ++ "[" ++ lowText ++ colon low high ++ highText ++ ending ++ "]"
  | .call span callee args spread => do
      let inner := if 1 < args.length then depth + 1 else depth
      let calleeText ← exprText none highestPrec inner callee
      let calleeText :=
        match callee with
        | .funcType _ => "(" ++ calleeText ++ ")"
        | _ => calleeText
      let brackets : Brackets :=
        { opening := "(", closing := ")", openPos := callee.span.stop
          closePos := span.stop - 1, depth := inner, spread }
      let argsText ← bracketed brackets args (exprTexts inner args)
        (fun plan state => elementRows plan state args)
      return calleeText ++ argsText
  | .composite span type elems => do
      let typeText ←
        match type with
        | none => pure ""
        | some type => exprText none highestPrec depth type
      let openPos := (type.map (·.span.stop)).getD span.start
      let brackets : Brackets :=
        { opening := "\x7b", closing := "\x7d", openPos, closePos := span.stop - 1, depth := 1
          alignKeys := true }
      let elemsText ← bracketed brackets elems (exprTexts 1 elems)
        (fun plan state => elementRows plan state elems)
      return typeText ++ elemsText
  | .keyValue _ key value => do
      let keyText ← exprText none 0 depth key
      return keyText ++ ": " ++ (← exprText none 0 depth value)
  | .funcLit _ type body => do
      let head := "func" ++ (← signatureText type) ++ " "
      let lines ← capture (blockLines head true body)
      return String.ofList (("\n".intercalate lines).toList.dropWhile (· = '\t'))
  | .ellipsis _ elem => return "..." ++ (← optionText 1 elem)
  | .arrayType _ length elem => do
      let lengthText ← optionText 1 length
      return "[" ++ lengthText ++ "]" ++ (← exprText none 0 1 elem)
  | .mapType _ key value => do
      let keyText ← exprText none 0 1 key
      return "map[" ++ keyText ++ "]" ++ (← exprText none 0 1 value)
  | .chanType _ dir elem => return chanKeyword dir ++ (← exprText none 0 1 elem)
  | .funcType type => return "func" ++ (← signatureText type)
  | .structType _ fields => fieldBlock "struct" true fields
  | .interfaceType _ methods => fieldBlock "interface" false methods
termination_by structural value => value

/-- The text of an expression that may be missing. -/
def optionText (depth : Nat) : Option Expr → Print String
  | none => return ""
  | some value => exprText none 0 depth value
termination_by structural value => value

/-- The texts of expressions. -/
def exprTexts (depth : Nat) : List Expr → Print (List String)
  | [] => return []
  | value :: rest => do
      let text ← exprText none 0 depth value
      return text :: (← exprTexts depth rest)
termination_by structural values => values

/-- Print the elements of a list in brackets, group by group. -/
def elementRows (plan : ElementPlan) (state : ElementState) : List Expr → Print ElementState
  | [] => return state
  | elem :: rest => do
      let line ← lineOf elem.span.start
      let isFirst := state.line ≠ some line
      let state ← state.enter plan elem.span.start line
      let set ← read
      let isLast := !(rest.head?.any fun next => lineIn set next.span.start = line)
      let suffix := ElementState.suffix plan rest.isEmpty
      let plain : Print ElementState := do
        let texts := state.group ++ [← exprText none 0 plan.depth elem]
        if isLast then
          state.leave [commas texts ++ suffix] elem.span.stop
        else
          return { state with group := texts }
      let state ←
        match elem with
        | .keyValue _ key value =>
            if plan.alignKeys && isFirst && isLast then do
              let keyText ← exprText none 0 plan.depth key
              let valueText ← exprText none 0 plan.depth value
              state.leave [keyText ++ ":", valueText ++ suffix] elem.span.stop
            else
              plain
        | _ => plain
      elementRows plan state rest
termination_by structural elems => elems

/-- Parameters and results. -/
def signatureText : FuncType → Print String
  | ⟨_, params, results⟩ => do
      let text := "(" ++ (← paramsText params) ++ ")"
      match results with
      | none => return text
      | some ⟨_, fields⟩ =>
          let inner := commas (← paramTexts fields)
          if fields.isEmpty then
            return text
          else
            return text ++ " " ++ inParens (!isSingleType fields) inner
termination_by structural type => type

/-- Parameters without their parentheses. -/
def paramsText : FieldList → Print String
  | ⟨_, fields⟩ => return commas (← paramTexts fields)
termination_by structural list => list

/-- The texts of parameters. -/
def paramTexts : List Field → Print (List String)
  | [] => return []
  | ⟨_, names, type, _⟩ :: rest => do
      let typeText ← exprText none 0 1 type
      let text := if names.isEmpty then typeText else nameList names ++ " " ++ typeText
      return text :: (← paramTexts rest)
termination_by structural fields => fields

/-- The members of a struct or an interface on lines of their own. -/
def fieldBlock (keyword : String) (isStruct : Bool) : FieldList → Print String
  | ⟨span, fields⟩ => do
      if fields.isEmpty then
        return keyword ++ "\x7b\x7d"
      else
        let lines ← nested do
          let rows ← fieldRows isStruct { prevLine := ← lineOf span.start } fields
          rows.close (span.stop - 1)
        let indent := (← get).indent
        let body := lines.map fun line =>
          if line.isEmpty then "\n" else "\n" ++ tabs (indent + 1) ++ line
        return keyword ++ " \x7b" ++ String.join body ++ "\n" ++ tabs indent ++ "\x7d"
termination_by structural list => list

/-- The rows of the members of a struct or an interface. -/
def fieldRows (isStruct : Bool) (rows : Rows) : List Field → Print Rows
  | [] => return rows
  | ⟨span, names, type, tag⟩ :: rest => do
      let rows ← rows.beforeItem span.start
      let cells ←
        if isStruct then do
          let typeText ← exprText none 0 1 type
          let nameCells := if names.isEmpty then [] else [nameList names]
          pure (nameCells ++ [typeText] ++ tag.toList.map (·.value))
        else
          match type with
          | .funcType method => do
              pure [((names.head?.map (·.name)).getD "func") ++ (← signatureText method)]
          | other => do pure [← exprText none 0 1 other]
      let rows ← rows.addItem cells span.stop
      fieldRows isStruct rows rest
termination_by structural fields => fields

/-- Write a block after the head of its statement.  The closing brace is left out if an `else`
follows it. -/
def blockLines (head : String) (closed : Bool) : Block → Print Unit
  | ⟨span, stmts⟩ => do
      if stmts.isEmpty && (← staysOnOneLine span) then
        emit (head ++ (if closed then "\x7b\x7d" else "\x7b"))
      else
        emit (head ++ "\x7b")
        finish span.start
        nested do
          stmtLines stmts
          if span.isPositioned then
            advance (span.stop - 1) false
        if closed then
          emit "\x7d"
      finish span.stop
termination_by structural block => block

/-- Write statements one after the other. -/
def stmtLines : List Stmt → Print Unit
  | [] => return
  | step :: rest => do
      if !isEmptyStmt step then
        advance step.span.start false
        emitText (stmtText false step)
        finish step.span.stop
      stmtLines rest
termination_by structural stmts => stmts

/-- Write the clauses of a `switch` or a `select`. -/
def clauseLines : List Stmt → Print Unit
  | [] => return
  | clause :: rest => do
      advance clause.span.start false
      match clause with
      | .caseClause span exprs body colon =>
          match exprs with
          | none => emit "default:"
          | some exprs => emit ("case " ++ commas (← exprTexts 1 exprs) ++ ":")
          finish (if colon = noPos then span.start else colon)
          nested (stmtLines body)
      | .commClause span comm body colon =>
          match comm with
          | none => emit "default:"
          | some comm => emit ("case " ++ (← simpleText comm (stmtText false comm)) ++ ":")
          finish (if colon = noPos then span.start else colon)
          nested (stmtLines body)
      | other => throw (.notAClause other.kind)
      clauseLines rest
termination_by structural clauses => clauses

/-- Write the body of a `switch` or a `select` after its head. -/
def clauseBlock (head : String) : Block → Print Unit
  | ⟨span, clauses⟩ => do
      emit (head ++ "\x7b")
      finish span.start
      clauseLines clauses
      if span.isPositioned then
        advance (span.stop - 1) false
      emit "\x7d"
      finish span.stop
termination_by structural block => block

/-- The text of a statement of a header and what divides it from the rest of the header. -/
def initText : Option Stmt → Print String
  | none => return ""
  | some init => return (← simpleText init (stmtText false init)) ++ "; "
termination_by structural init => init

/-- The text of a simple statement.  A compound one writes its lines and has no text. -/
def stmtText (afterElse : Bool) : Stmt → Print (Option String)
  | .expr _ value => return some (← exprText none 0 1 value)
  | .assign _ lhs tok rhs _ => do
      let depth := if 1 < lhs.length && 1 < rhs.length then 2 else 1
      let left ← exprTexts depth lhs
      let right ← exprTexts depth rhs
      return some (commas left ++ " " ++ tok.text ++ " " ++ commas right)
  | .incDec _ operand tok => return some ((← exprText none highestPrec 1 operand) ++ tok.text)
  | .send _ channel value => do
      let channelText ← exprText none 0 1 channel
      return some (channelText ++ " <- " ++ (← exprText none 0 1 value))
  | .go _ call => return some ("go " ++ (← exprText none 0 1 call))
  | .defer _ call => return some ("defer " ++ (← exprText none 0 1 call))
  | .ret _ results => do
      if results.isEmpty then
        return some "return"
      else
        return some ("return " ++ commas (← exprTexts 1 results))
  | .branch _ tok label =>
      match label with
      | none => return some tok.text
      | some label => return some (tok.text ++ " " ++ label.name)
  | .empty _ => return some ""
  | .block body => do
      blockLines (if afterElse then "\x7d else " else "") true body
      return none
  | .labeled _ label inner => do
      emitOutdented (label.name ++ ":")
      finish label.span.stop
      if !isEmptyStmt inner then
        advance inner.span.start false
        emitText (stmtText false inner)
      return none
  | .decl _ item => do
      genDeclLines item
      return none
  | .ifElse _ init cond body otherwise => do
      let lead := if afterElse then "\x7d else " else ""
      let head := lead ++ "if " ++ (← initText init)
      let condText ← exprText none 0 1 cond
      blockLines (head ++ condText ++ " ") otherwise.isNone body
      match otherwise with
      | none => return none
      | some branch =>
          if isElseBranch branch then
            stmtText true branch
          else
            throw (.badElse branch.kind)
  | .switch _ init tag body => do
      let head := "switch " ++ (← initText init)
      let tagText ←
        match tag with
        | none => pure ""
        | some tag => do pure ((← exprText none 0 1 tag) ++ " ")
      clauseBlock (head ++ tagText) body
      return none
  | .typeSwitch _ init guard body => do
      let head := "switch " ++ (← initText init)
      let guardText ← simpleText guard (stmtText false guard)
      clauseBlock (head ++ guardText ++ " ") body
      return none
  | .select _ body => do
      clauseBlock "select " body
      return none
  | .loop _ init cond post body => do
      let initPart ←
        match init with
        | none => pure ""
        | some init => simpleText init (stmtText false init)
      let condPart ← optionText 1 cond
      let postPart ←
        match post with
        | none => pure ""
        | some post => simpleText post (stmtText false post)
      let head :=
        if init.isSome || post.isSome then
          "for " ++ Text.trimEnd (initPart ++ "; " ++ condPart ++ "; " ++ postPart) ++ " "
        else if cond.isSome then
          "for " ++ condPart ++ " "
        else
          "for "
      match body with
      | none => emit (head ++ "\x7b\x7d")
      | some body => blockLines head true body
      return none
  | .range _ key value tok operand body _ => do
      let targets ←
        match key with
        | none => pure ""
        | some key => do
            let keyText ← exprText none 0 1 key
            let valueText ←
              match value with
              | none => pure ""
              | some value => do pure (", " ++ (← exprText none 0 1 value))
            pure (keyText ++ valueText ++ " " ++ (tok.getD .define).text ++ " ")
      let head := "for " ++ targets ++ "range " ++ (← exprText none 0 1 operand) ++ " "
      match body with
      | none => emit (head ++ "\x7b\x7d")
      | some body => blockLines head true body
      return none
  | .caseClause .. => throw (.strayClause "CaseClause")
  | .commClause .. => throw (.strayClause "CommClause")
termination_by structural step => step

/-- The cells of an item of a declaration. -/
def specCells (keepType : Bool) : Spec → Print (List String)
  | .importSpec item =>
      match item.name with
      | none => return [item.path.value]
      | some name => return [name.name ++ " " ++ item.path.value]
  | .valueSpec _ names type values => do
      let typeCells ← if keepType then do pure [← optionText 1 type] else pure []
      let valueCells ←
        if values.isEmpty then pure [] else do pure ["= " ++ commas (← exprTexts 1 values)]
      return dropEmptyEnd (nameList names :: (typeCells ++ valueCells))
  | .typeSpec _ name type isAlias => do
      let typeText ← exprText none 0 1 type
      return [name.name ++ " " ++ (if isAlias then "= " else "") ++ typeText]
termination_by structural item => item

/-- The rows of the items of a declaration. -/
def specRows (keepType : Bool) (rows : Rows) : List Spec → Print Rows
  | [] => return rows
  | item :: rest => do
      let rows ← rows.beforeItem item.span.start
      let cells ← specCells keepType item
      let rows ← rows.addItem cells item.span.stop
      specRows keepType rows rest
termination_by structural items => items

/-- Write a declaration of items, on one line or with its items in parentheses.  A column for the
type is kept if any of the items has one. -/
def genDeclLines : GenDecl → Print Unit
  | ⟨span, tok, specs, grouped⟩ => do
      let keepType := specs.any hasType
      if grouped then
        emit (tok.text ++ " (")
        finish span.start
        nested do
          let rows ← specRows keepType { prevLine := (← get).lastLine } specs
          (← rows.close (span.stop - 1)).forM emit
        emit ")"
      else
        match specs with
        | [] => throw .missingItem
        | item :: _ =>
            let cells ← specCells keepType item
            emit (tok.text ++ " " ++ joined (cells.filter (!·.isEmpty)))
termination_by structural decl => decl

end

/-- Write a function. -/
def funcDeclLines (decl : FuncDecl) : Print Unit := do
  let recvText ←
    match decl.recv with
    | none => pure ""
    | some recv => do pure ("(" ++ (← paramsText recv) ++ ") ")
  let head := "func " ++ recvText ++ decl.name.name ++ (← signatureText decl.type)
  match decl.body with
  | none => emit head
  | some body => blockLines (head ++ " ") true body

/-- Write a declaration. -/
def declLines : Decl → Print Unit
  | .gen decl => genDeclLines decl
  | .func decl => funcDeclLines decl

/-- The keyword of a declaration. -/
def declKeyword : Decl → Token
  | .gen decl => decl.tok
  | .func _ => .kwFunc

/-- Write declarations, given the keyword of the one before them.  An empty line divides
declarations of different keywords. -/
def declList (prev : Option Token) : List Decl → Print Unit
  | [] => return
  | decl :: rest => do
      let keyword := declKeyword decl
      if decl.span.isPositioned then
        advance decl.span.start (prev ≠ some keyword)
      else
        blankLine
      declLines decl
      finish decl.span.stop
      declList (some keyword) rest

/-- Write a file. -/
def fileLines (file : File) : Print Unit := do
  advance file.package.span.start false
  emit ("package " ++ file.package.name)
  finish file.package.span.stop
  declList none file.decls
  let comments := (← get).comments
  modify fun page => { page with comments := [] }
  comments.forM trailingComment

/-- The lines that a computation writes on an empty page. -/
def linesOf (set : Option FileSet) (comments : List Comment) (printed : Print Unit) :
    Except PrintError (List String) := do
  let ((), page) ← (printed.run set).run { comments }
  return page.lines.reverse

end Layout

/-- The text of a file.  Without the set of files to which its positions belong, line breaks and
empty lines of the source are not kept. -/
def File.print (file : File) (set : Option FileSet) : Except PrintError String := do
  let comments := file.comments.mergeSort fun first second => first.span.start ≤ second.span.start
  let lines ← Layout.linesOf set comments (Layout.fileLines file)
  return "\n".intercalate lines ++ "\n"

/-- The text of an expression, a statement or a declaration, without comments. -/
def Node.print : Node → Except PrintError String
  | .expr value => do
      let (text, _) ← ((Layout.exprText Option.none 0 1 value).run Option.none).run {}
      return text
  | .stmt step => do
      let lines ← Layout.linesOf Option.none [] (Layout.emitText (Layout.stmtText false step))
      return "\n".intercalate lines
  | .decl item => do
      let lines ← Layout.linesOf Option.none [] (Layout.declLines item)
      return "\n".intercalate lines
  | other => throw (.notPrintable other.kind)

end GoMend
