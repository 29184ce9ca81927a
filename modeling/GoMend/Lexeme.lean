import GoMend.Position
import GoMend.Token

/-!
# Lexemes, comments and faults

A source text is read as a list of lexemes that ends with the end of the file.  Comments stand
beside that list.  What cannot be read is a fault at a position; the fault becomes an error of a
file when its line and column are known.
-/

namespace GoMend

/-- A token with its text and the position of its first character.  A semicolon that a line end
stands for has the line feed as its text. -/
structure Lexeme where
  token : Token
  text : String
  pos : Pos
  deriving DecidableEq, Repr

namespace Lexeme

/-- The position just after the lexeme. -/
def stop (lexeme : Lexeme) : Pos :=
  lexeme.pos + lexeme.text.length

/-- The range of the lexeme. -/
def span (lexeme : Lexeme) : Span :=
  ⟨lexeme.pos, lexeme.stop⟩

/-- How a message names the lexeme. -/
def describe (lexeme : Lexeme) : String :=
  if lexeme.token = .semicolon ∧ lexeme.text = "\n" then
    "newline"
  else if lexeme.token = .endOfFile then
    "EOF"
  else if lexeme.token.isLiteral then
    s!"{lexeme.token.text} {lexeme.text}"
  else
    s!"'{lexeme.token.text}'"

end Lexeme

/-- A comment with its markers. -/
structure Comment where
  text : String
  span : Span
  deriving DecidableEq, Repr

/-- Why a text is not a source file. -/
inductive FaultCause where
  | commentNotTerminated
  | invalidNumber
  /-- A literal of the named kind has no closing quote. -/
  | literalNotTerminated (kind : String)
  | invalidCharacter (char : Char)
  /-- Something else should stand where the lexeme was found. -/
  | expected (what : String) (found : Lexeme)
  | blankPackageName
  | lateImport
  | notADeclaration
  | typeParameters
  | mixedParameters
  /-- A `go` or `defer` is not followed by a call. -/
  | notACall (keyword : Token)
  | tooManyRangeVariables
  | missingCondition
  | assignmentAsValue
  | switchTagNotExpression
  | loopConditionNotExpression
  /-- The productions were unrolled too few times for the length of the text. -/
  | nestedTooDeeply
  deriving DecidableEq, Repr

/-- A fault and the position to which it refers. -/
structure Fault where
  cause : FaultCause
  pos : Pos
  deriving DecidableEq, Repr

/-- The error of a file that cannot be read. -/
structure ParseError where
  file : String
  line : Nat
  column : Nat
  cause : FaultCause
  deriving DecidableEq, Repr

namespace ParseError

/-- The error of a fault in a file. -/
def ofFault (file : SourceFile) (fault : Fault) : ParseError :=
  let position := file.position fault.pos
  ⟨file.name, position.line, position.column, fault.cause⟩

end ParseError

end GoMend
