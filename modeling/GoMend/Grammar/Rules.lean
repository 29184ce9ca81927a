import GoMend.Grammar.Cursor
import GoMend.Tree

/-!
# Mutually dependent productions

The productions of expressions, types and statements refer to each other.  They are written as
functions of the productions to which they refer, and a finite unrolling of these functions reads
every text whose nesting is not deeper than the unrolling.
-/

namespace GoMend

/-- The productions to which others refer. -/
structure Rules where
  /-- An expression whose binary operators have at least the given precedence. -/
  binary : Nat → Parse Expr
  /-- An expression without a binary operator outside of brackets. -/
  unary : Parse Expr
  /-- A key or a value of a composite literal. -/
  element : Parse Expr
  type : Parse Expr
  block : Parse Block
  /-- A statement, or nothing for a lone semicolon. -/
  stmt : Parse (Option Stmt)
  ifStmt : Parse Stmt

namespace Rules

open Parse

/-- An expression. -/
def expr (rules : Rules) : Parse Expr :=
  rules.binary 1

/-- The unrolling of depth zero, which reads nothing. -/
def exhausted : Rules where
  binary _ := fail .nestedTooDeeply
  unary := fail .nestedTooDeeply
  element := fail .nestedTooDeeply
  type := fail .nestedTooDeeply
  block := fail .nestedTooDeeply
  stmt := fail .nestedTooDeeply
  ifStmt := fail .nestedTooDeeply

end Rules

namespace Parse

/-- A name. -/
def ident : Parse Ident := do
  let lexeme := (← get).current
  if lexeme.token = .ident then
    advance
    return ⟨lexeme.span, lexeme.text⟩
  else
    expected "identifier"

/-- Names divided by commas. -/
def identList : Parse (List Ident) := do
  let (first, others) ← commaSeparated ident
  return first :: others

/-- The literal at the cursor, of the class that its token has. -/
def literal : Parse BasicLit := do
  let lexeme := (← get).current
  advance
  return ⟨lexeme.span, lexeme.token, lexeme.text⟩

/-- Expressions divided by commas: the first one and the others. -/
def exprList (rules : Rules) : Parse (Expr × List Expr) :=
  commaSeparated rules.expr

end Parse

end GoMend
