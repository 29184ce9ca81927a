import GoMend.Diagnostic

/-!
# Shapes of diagnostics

A diagnostic can be mended when its message has one of three shapes.  A shape holds what the
message says about the program: the name of a variable or the path of an import.
-/

namespace GoMend

/-- What a message reports, as far as there is a fix for it. -/
inductive Shape where
  | unusedVariable (name : String)
  /-- The path has its quotes. -/
  | unusedImport (path : String)
  | noNewVariables
  deriving DecidableEq, Repr

namespace Shape

/-- The word under which the fix for a shape is known. -/
def fixId : Shape → String
  | .unusedVariable _ => "declared_not_used"
  | .unusedImport _ => "imported_not_used"
  | .noNewVariables => "no_new_variables"

/-- Whether a character can stand in the name of an unused variable. -/
def isWordChar (char : Char) : Bool :=
  char.isAlphanum || char = '_'

/-- The part of a text before an ending. -/
def before? (ending text : List Char) : Option (List Char) :=
  if ending.isSuffixOf text then some (text.take (text.length - ending.length)) else none

/-- The part of a line before an ending, where the line may have its line feed. -/
def beforeLineEnd? (ending line : List Char) : Option (List Char) :=
  before? ending line <|> before? (ending ++ ['\n']) line

/-- Whether a text is a path between double quotes on one line. -/
def isQuotedPath (text : List Char) : Bool :=
  3 ≤ text.length && text.head? = some '"' && text.getLast? = some '"' && !text.contains '\n'

/-- The shape of a message about a variable. -/
def ofVariableMessage? (message : List Char) : Option Shape := do
  let name ← beforeLineEnd? " declared but not used".toList message
  if !name.isEmpty && name.all isWordChar then some (.unusedVariable (String.ofList name)) else none

/-- The shape of a message about an import. -/
def ofImportMessage? (message : List Char) : Option Shape := do
  let path ← beforeLineEnd? " imported but not used".toList message
  if isQuotedPath path then some (.unusedImport (String.ofList path)) else none

/-- The shape of a message about a short variable declaration. -/
def ofDefineMessage? (message : List Char) : Option Shape :=
  if message = "no new variables on left side of :=".toList then some .noNewVariables else none

/-- The shape of a message, if it has one. -/
def ofMessage? (message : String) : Option Shape :=
  ofVariableMessage? message.toList <|> ofImportMessage? message.toList <|>
    ofDefineMessage? message.toList

end Shape

/-- The shape of a diagnostic, which is the shape of its message. -/
def Diagnostic.shape? (diagnostic : Diagnostic) : Option Shape :=
  Shape.ofMessage? diagnostic.message

end GoMend
