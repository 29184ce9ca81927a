import GoMend.Position

/-!
# Diagnostics

A diagnostic is a message about a position.  The messages of the scope check are the wordings of
findings.
-/

namespace GoMend

/-- A problem that a checker reports. -/
structure Diagnostic where
  message : String
  pos : Pos
  deriving DecidableEq, Repr

/-- What the scope check can find. -/
inductive Finding where
  | unusedVariable (name : String)
  /-- An import without a name; the path has its quotes. -/
  | unusedImport (path : String)
  | unusedNamedImport (path name : String)
  | noNewVariables
  /-- The guard of a type switch declares nothing. -/
  | noNewVariable
  /-- Something else than a name is to be declared; the text is the printed expression. -/
  | notAName (text : String)
  | undefined (name : String)
  | blankValue
  | redeclared (name : String)
  | duplicateArgument (name : String)
  | packageAsValue (name : String)
  | unusedLabel (name : String)
  | redefinedLabel (name : String)
  | undefinedLabel (name : String)
  deriving DecidableEq, Repr

namespace Finding

/-- The wording of a finding. -/
def message : Finding → String
  | .unusedVariable name => s!"{name} declared but not used"
  | .unusedImport path => s!"{path} imported but not used"
  | .unusedNamedImport path name => s!"{path} imported as {name} and not used"
  | .noNewVariables => "no new variables on left side of :="
  | .noNewVariable => "no new variable on left side of :="
  | .notAName text => s!"non-name {text} on left side of :="
  | .undefined name => s!"undefined: {name}"
  | .blankValue => "cannot use _ as value"
  | .redeclared name => s!"{name} redeclared in this block"
  | .duplicateArgument name => s!"duplicate argument {name}"
  | .packageAsValue name => s!"use of package {name} without selector"
  | .unusedLabel name => s!"label {name} declared but not used"
  | .redefinedLabel name => s!"label {name} already defined"
  | .undefinedLabel name => s!"label {name} not defined"

/-- The diagnostic of a finding at a position. -/
def diagnostic (finding : Finding) (pos : Pos) : Diagnostic :=
  ⟨finding.message, pos⟩

end Finding

namespace Diagnostic

/-- Diagnostics in the order of their positions.  Those of one position keep their order. -/
def sorted (diagnostics : List Diagnostic) : List Diagnostic :=
  diagnostics.mergeSort fun first second => first.pos ≤ second.pos

end Diagnostic

end GoMend
