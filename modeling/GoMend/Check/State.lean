import GoMend.Diagnostic
import GoMend.Layout.Render
import GoMend.Scope

/-!
# The state of a scope check

A check walks through the files of a package with the scopes around the place where it is.  It
notes what it finds, which objects are read, and which variables and imports have to be read.
-/

namespace GoMend

/-- Why a tree cannot be checked. -/
inductive CheckError where
  /-- A clause of the wrong kind in a `switch` or a `select`. -/
  | wrongClause
  /-- A clause that stands among statements. -/
  | notAStatement (kind : String)
  /-- The guard of a type switch assigns to nothing. -/
  | missingTarget
  /-- An expression of a message cannot be printed. -/
  | notPrintable (error : PrintError)
  deriving DecidableEq, Repr

/-- The wording of an error, as far as it has one. -/
def CheckError.message? : CheckError → Option String
  | .wrongClause | .missingTarget => none
  | .notAStatement kind => some s!"unexpected statement {kind}"
  | .notPrintable error => error.message?

/-- A label of the function that is being checked. -/
structure Label where
  name : String
  pos : Pos
  used : Bool := false
  deriving DecidableEq, Repr

/-- An import that has to be read. -/
structure ImportedName where
  object : Object
  spec : ImportSpec
  deriving DecidableEq, Repr

/-- The state of a check. -/
structure CheckState where
  /-- The scopes around the place of the check, the innermost one first. -/
  scopes : List Scope := [{ kind := "package" }, Scope.outermost]
  /-- The number of the next object. -/
  nextId : Nat := Scope.outermost.objects.length
  /-- The numbers of the objects that have been read. -/
  used : List Nat := []
  /-- The variables of functions, the last one first. -/
  locals : List Object := []
  /-- The imports that bind a name, the last one first. -/
  imports : List ImportedName := []
  /-- The labels of the function that is being checked. -/
  labels : List Label := []
  /-- Whether the file has an import that brings in unknown names. -/
  lenient : Bool := false
  /-- The findings so far, the last one first. -/
  found : List (Finding × Pos) := []

/-- A step of a check. -/
abbrev Check := StateT CheckState (Except CheckError)

namespace Check

/-- Note a finding. -/
def report (pos : Pos) (finding : Finding) : Check Unit :=
  modify fun state => { state with found := (finding, pos) :: state.found }

/-- Check inside a new scope, which is left afterwards. -/
def inScope {α : Type} (kind : String) (inner : Check α) : Check α := do
  modify fun state => { state with scopes := { kind } :: state.scopes }
  let result ← inner
  modify fun state => { state with scopes := state.scopes.tail }
  return result

/-- The object that a name denotes here. -/
def lookup? (name : String) : Check (Option Object) :=
  return Scope.lookup? (← get).scopes name

/-- The object that a name denotes in the innermost scope. -/
def lookupLocal? (name : String) : Check (Option Object) :=
  return (← get).scopes.head?.bind (·.find? name)

/-- Note that an object is read. -/
def markUsed (object : Object) : Check Unit :=
  modify fun state => { state with used := object.id :: state.used }

/-- A new object. -/
def newObject (name : String) (kind : ObjectKind) (pos : Pos) : Check Object := do
  let id := (← get).nextId
  modify fun state => { state with nextId := id + 1 }
  return { id, name, kind, pos }

/-- Put an object into the innermost scope, unless its name is taken there. -/
def insert (object : Object) : Check Bool := do
  if (← lookupLocal? object.name).isSome then
    return false
  else
    modify fun state =>
      match state.scopes with
      | [] => state
      | scope :: outer => { state with scopes := scope.add object :: outer }
    return true

/-- Declare a name in the innermost scope.  The blank name declares nothing. -/
def declare (ident : Ident) (kind : ObjectKind) : Check (Option Object) := do
  if ident.isBlank then
    return none
  else
    let object ← newObject ident.name kind ident.span.start
    if ← insert object then
      return some object
    else
      report ident.span.start (.redeclared ident.name)
      return none

/-- Declare a variable that has to be read. -/
def declareLocal (ident : Ident) : Check Unit := do
  match ← declare ident .var with
  | none => return
  | some object => modify fun state => { state with locals := object :: state.locals }

/-- Read a name. -/
def resolve (ident : Ident) : Check (Option Object) := do
  match ← lookup? ident.name with
  | some object =>
      markUsed object
      return some object
  | none =>
      if !(← get).lenient then
        report ident.span.start (.undefined ident.name)
      return none

/-- Read a name as a value. -/
def use (ident : Ident) : Check Unit := do
  if ident.isBlank then
    report ident.span.start .blankValue
  else
    match ← resolve ident with
    | some object =>
        if object.kind = .package then
          report ident.span.start (.packageAsValue ident.name)
    | none => return

/-- Assign to a name, which does not read it. -/
def assignTo (ident : Ident) : Check Unit := do
  if !ident.isBlank && (← lookup? ident.name).isNone && !(← get).lenient then
    report ident.span.start (.undefined ident.name)

/-- Read a bare key of a composite literal, which may also be the name of a field. -/
def useKey (ident : Ident) : Check Unit := do
  match ← lookup? ident.name with
  | some object => markUsed object
  | none => return

/-- Declare the names on the left of `:=`, and tell whether any of them is new. -/
def defineNames : List Expr → Check Bool
  | [] => return false
  | .ident name :: rest => do
      if name.isBlank || (← lookupLocal? name.name).isSome then
        defineNames rest
      else
        declareLocal name
        let _ ← defineNames rest
        return true
  | other :: rest => do
      match (Node.expr other).print with
      | .error error => throw (.notPrintable error)
      | .ok text => report other.span.start (.notAName text)
      defineNames rest

/-- Check the left side of `:=`. -/
def define (targets : List Expr) (tokPos : Pos) : Check Unit := do
  if !(← defineNames targets) then
    report tokPos .noNewVariables

/-- Declare a parameter; two of one name clash. -/
def declareParam (ident : Ident) : Check Unit := do
  if !ident.isBlank then
    let object ← newObject ident.name .var ident.span.start
    if !(← insert object) then
      report ident.span.start (.duplicateArgument ident.name)

/-- Declare the parameters of lists of fields. -/
def declareParams (lists : List FieldList) : Check Unit :=
  lists.forM fun list => list.fields.forM fun field => field.names.forM declareParam

/-- Use a label of the function. -/
def useLabel (ident : Ident) : Check Unit := do
  if (← get).labels.any (·.name = ident.name) then
    modify fun state =>
      { state with
        labels := state.labels.map fun label =>
          if label.name = ident.name then { label with used := true } else label }
  else
    report ident.span.start (.undefinedLabel ident.name)

/-- Declare a label of the function. -/
def declareLabel (ident : Ident) : Check Unit := do
  if (← get).labels.any (·.name = ident.name) then
    report ident.span.start (.redefinedLabel ident.name)
  else
    modify fun state =>
      { state with labels := state.labels ++ [{ name := ident.name, pos := ident.span.start }] }

/-- Check a function body that has the given labels.  The labels of the function around it are not
seen inside, and are seen again afterwards. -/
def withLabels (labels : List Ident) (body : Check Unit) : Check Unit := do
  let outer := (← get).labels
  modify fun state => { state with labels := [] }
  labels.forM declareLabel
  body
  (← get).labels.forM fun label => do
    if !label.used then
      report label.pos (.unusedLabel label.name)
  modify fun state => { state with labels := outer }

end Check

end GoMend
