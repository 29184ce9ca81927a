import GoMend.Tree

/-!
# Blanks around binary operators

Whether blanks stand around an operator depends on its precedence and on a cutoff for the whole
expression.  The cutoff depends on which precedences are mixed in the expression, on how deeply
it is nested, and on operators that would run together with what follows them.
-/

namespace GoMend

namespace Layout

/-- The precedence of prefix operators. -/
def unaryPrec : Nat := 6

/-- A precedence above all operators. -/
def highestPrec : Nat := 7

/-- What a binary expression mixes: operators like `+`, operators like `*`, and the highest
precedence at which an operator must keep away from its right operand. -/
structure Mixture where
  hasSum : Bool := false
  hasProduct : Bool := false
  problem : Nat := 0

namespace Mixture

/-- The mixture of an operator alone. -/
def ofPrecedence (precedence : Nat) : Mixture :=
  { hasSum := precedence = 4, hasProduct := precedence = 5 }

/-- The mixture of two parts. -/
def union (first second : Mixture) : Mixture :=
  ⟨first.hasSum || second.hasSum, first.hasProduct || second.hasProduct,
    max first.problem second.problem⟩

/-- The mixture after an operator that stands before a prefix operator. -/
def beforeUnary (mixture : Mixture) (op unaryOp : Token) : Mixture :=
  let pair := op.text ++ unaryOp.text
  if pair = "/*" || pair = "&&" || pair = "&^" then
    { mixture with problem := 5 }
  else if pair = "++" || pair = "--" then
    { mixture with problem := max mixture.problem 4 }
  else
    mixture

end Mixture

/-- What an expression mixes, given that it is an operand that may be left without parentheses
only if its operator has at least the given precedence. -/
def mixture (least : Nat) : Expr → Mixture
  | .binary _ left op right =>
      if op.precedence < least then
        {}
      else
        let precedence := op.precedence
        let outer := (Mixture.ofPrecedence precedence).union (mixture precedence left)
        match right with
        | .binary .. => outer.union (mixture (precedence + 1) right)
        | .star .. => if op = .quo then { outer with problem := 5 } else outer
        | .unary _ unaryOp _ => outer.beforeUnary op unaryOp
        | _ => outer
  | _ => {}

/-- Operators of a precedence below the cutoff have blanks around them. -/
def cutoff (value : Expr) (depth : Nat) : Nat :=
  let mixed := mixture 0 value
  if 0 < mixed.problem then
    mixed.problem + 1
  else if mixed.hasSum && mixed.hasProduct then
    if depth = 1 then 5 else 4
  else
    if depth = 1 then 6 else 4

/-- How much deeper the left operand of an operator counts. -/
def leftDepth (left : Expr) (precedence : Nat) : Nat :=
  match left with
  | .binary _ _ op _ => if op.precedence = precedence then 0 else 1
  | _ => 1

/-- The nesting inside parentheses. -/
def reducedDepth (depth : Nat) : Nat :=
  max (depth - 1) 1

end Layout

end GoMend
