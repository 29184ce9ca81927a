import GoMend.Lexeme
import GoMend.Text.Quoted

/-!
# What a fault says

The error of a file names the place where the file cannot be read and says why it cannot.
-/

namespace GoMend

/-- The wording of a fault. -/
def FaultCause.message : FaultCause → String
  | .commentNotTerminated => "comment not terminated"
  | .invalidNumber => "invalid number literal"
  | .literalNotTerminated kind => s!"{kind} literal not terminated"
  | .invalidCharacter char => "invalid character " ++ Text.quoted char.toString
  | .expected what found => s!"expected {what}, found {found.describe}"
  | .blankPackageName => "invalid package name _"
  | .lateImport => "imports must appear before other declarations"
  | .notADeclaration => "non-declaration statement outside function body"
  | .typeParameters => "type parameters are not supported"
  | .mixedParameters => "mixed named and unnamed parameters"
  | .notACall keyword => s!"expression in {keyword.text} must be function call"
  | .tooManyRangeVariables => "range clause permits at most two iteration variables"
  | .missingCondition => "missing condition in if statement"
  | .assignmentAsValue => "cannot use assignment as value"
  | .switchTagNotExpression => "switch expression must be an expression"
  | .loopConditionNotExpression => "expected for loop condition"
  | .nestedTooDeeply => "nested too deeply"

namespace ParseError

/-- The text of the error: its place and its wording. -/
def message (error : ParseError) : String :=
  s!"{error.file}:{error.line}:{error.column}: {error.cause.message}"

end ParseError

end GoMend
