import GoMend.Grammar.Types

/-!
# Expressions

Binary operators are read by precedence climbing.  After an operand come the selectors, type
assertions, indices, calls and braces that extend it.
-/

namespace GoMend

namespace Expr

/-- Whether an expression has the form of a type name: a name or a qualified name. -/
def isTypeName : Expr → Bool
  | .ident _ => true
  | .selector _ (.ident _) _ => true
  | _ => false

/-- Whether a brace after the expression may open a composite literal. -/
def isLiteralType : Expr → Bool
  | .arrayType .. | .structType .. | .mapType .. => true
  | expr => expr.isTypeName

end Expr

namespace Parse

/-- Whether a token is a prefix operator other than the arrow and the star. -/
def isUnaryOperator : Token → Bool
  | .add | .sub | .logicalNot | .bitXor | .bitAnd => true
  | _ => false

/-- An element of a composite literal: a value, or a key with its value. -/
def keyedElement (rules : Rules) : Parse Expr := do
  let key ← rules.element
  if ← accept .colon then
    let value ← rules.element
    return .keyValue ⟨key.span.start, value.span.stop⟩ key value
  else
    return key

/-- The elements of a composite literal and its range, which begins with its type. -/
def compositeLit (rules : Rules) (type : Option Expr) : Parse Expr := do
  let brace ← expect .leftBrace
  let elems ← bracketed (listUntil .rightBrace (keyedElement rules))
  let _ ← expect .rightBrace
  let start := (type.map (·.span.start)).getD brace
  return .composite ⟨start, ← prevStop⟩ type elems

/-- A key or a value of a composite literal, which may be a literal without its type. -/
def elementValue (rules : Rules) : Parse Expr := do
  if (← token) = .leftBrace then
    compositeLit rules none
  else
    rules.expr

/-- A function literal, or a function type when no body follows. -/
def funcLitOrType (rules : Rules) : Parse Expr := do
  let start ← expect .kwFunc
  let type ← funcTypeFrom rules start
  if (← token) = .leftBrace then
    let body ← atLevel 0 rules.block
    return .funcLit ⟨start, body.span.stop⟩ type body
  else
    return .funcType type

/-- An operand. -/
def operand (rules : Rules) : Parse Expr := do
  match ← token with
  | .ident => return .ident (← ident)
  | .int | .float | .imag | .char | .string => return .lit (← literal)
  | .leftParen =>
      let start ← expect .leftParen
      let inner ← bracketed rules.expr
      let _ ← expect .rightParen
      return .paren ⟨start, ← prevStop⟩ inner
  | .kwFunc => funcLitOrType rules
  | .leftBracket | .kwStruct | .kwMap | .kwChan | .kwInterface => rules.type
  | _ => expected "operand"

/-- A selector or a type assertion after its point. -/
def selectorOrAssertion (rules : Rules) (operand : Expr) : Parse Expr := do
  match ← token with
  | .ident =>
      let sel ← ident
      return .selector ⟨operand.span.start, sel.span.stop⟩ operand sel
  | .leftParen =>
      advance
      let type ← if ← accept .kwType then pure none else some <$> rules.type
      let _ ← expect .rightParen
      return .typeAssert ⟨operand.span.start, ← prevStop⟩ operand type
  | _ => expected "selector or type assertion"

/-- An index of a slice that may be left out before a colon or the closing bracket. -/
def sliceIndex (rules : Rules) : Parse (Option Expr) := do
  match ← token with
  | .colon | .rightBracket => return none
  | _ => return some (← rules.expr)

/-- The parts between the brackets of an index or a slice. -/
structure Indices where
  first : Option Expr
  second : Option Expr := none
  third : Option Expr := none
  colons : Nat := 0

/-- The indices between brackets, divided by at most two colons. -/
def indices (rules : Rules) : Parse Indices := do
  let first ← if (← token) = .colon then pure none else some <$> rules.expr
  if ← accept .colon then
    let second ← sliceIndex rules
    if ← accept .colon then
      let third ← sliceIndex rules
      return ⟨first, second, third, 2⟩
    else
      return ⟨first, second, none, 1⟩
  else
    return { first }

/-- An index or a slice of an operand. -/
def indexOrSlice (rules : Rules) (operand : Expr) : Parse Expr := do
  let _ ← expect .leftBracket
  let parts ← bracketed (indices rules)
  let _ ← expect .rightBracket
  let span : Span := ⟨operand.span.start, ← prevStop⟩
  if 0 < parts.colons then
    return .slice span operand parts.first parts.second parts.third (parts.colons = 2)
  else
    match parts.first with
    | some index => return .index span operand index
    | none => expected "operand"

/-- A call of an operand. -/
def call (rules : Rules) (callee : Expr) : Parse Expr := do
  let _ ← expect .leftParen
  let args ← bracketed <| listUntil .rightParen do
    let arg ← rules.expr
    return (arg, ← accept .ellipsis)
  let _ ← expect .rightParen
  return .call ⟨callee.span.start, ← prevStop⟩ callee (args.map (·.1)) (args.any (·.2))

/-- What follows an operand and extends it, if anything does. -/
def extension (rules : Rules) (operand : Expr) : Parse (Option Expr) := do
  match ← token with
  | .period =>
      advance
      return some (← selectorOrAssertion rules operand)
  | .leftBracket => return some (← indexOrSlice rules operand)
  | .leftParen => return some (← call rules operand)
  | .leftBrace =>
      if operand.isLiteralType && (0 ≤ (← get).level || !operand.isTypeName) then
        return some (← compositeLit rules (some operand))
      else
        return none
  | _ => return none

/-- An operand with everything that extends it. -/
def primaryFrom (rules : Rules) (operand : Expr) : Parse Expr :=
  extendAll (extension rules) operand

/-- An expression without a binary operator outside of brackets. -/
def unaryExpr (rules : Rules) : Parse Expr := do
  let start ← pos
  let tok ← token
  if isUnaryOperator tok then
    advance
    let operand ← rules.unary
    return .unary ⟨start, operand.span.stop⟩ tok operand
  else if tok = .arrow then
    if (← get).peek 1 = .kwChan then
      primaryFrom rules (← rules.type)
    else
      advance
      let operand ← rules.unary
      return .unary ⟨start, operand.span.stop⟩ .arrow operand
  else if tok = .mul then
    advance
    let operand ← rules.unary
    return .star ⟨start, operand.span.stop⟩ operand
  else
    primaryFrom rules (← operand rules)

/-- The next operator of at least the given precedence with its right operand, joined to what
stands on the left of it. -/
def binaryStep (rules : Rules) (least : Nat) (left : Expr) : Parse (Option Expr) := do
  let op ← token
  if op.precedence < least then
    return none
  else
    advance
    let right ← rules.binary (op.precedence + 1)
    return some (.binary ⟨left.span.start, right.span.stop⟩ left op right)

/-- An expression whose binary operators outside of brackets have at least the given precedence. -/
def binaryExpr (rules : Rules) (least : Nat) : Parse Expr := do
  extendAll (binaryStep rules least) (← unaryExpr rules)

end Parse

end GoMend
