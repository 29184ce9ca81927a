import GoMend.Fix.Edit

/-!
# Fixers

A fixer mends the diagnostics of one shape.  A registry knows at most one fixer for every shape.
-/

namespace GoMend

/-- A way to mend the diagnostics of one shape. -/
structure Fixer where
  name : String
  /-- The word of the shape that the fixer mends. -/
  fixId : String
  /-- The edit of a file, given the nodes around the diagnostic from the innermost one on. -/
  mend : Shape → List Node.Address → File → Edited := Shape.mend

namespace Fixer

/-- Reads unused variables. -/
def unusedBinding : Fixer :=
  { name := "UnusedBindingFixer", fixId := "declared_not_used" }

/-- Blanks unused imports. -/
def unusedImport : Fixer :=
  { name := "UnusedImportFixer", fixId := "imported_not_used" }

/-- Replaces `:=` where nothing is declared. -/
def redundantDefine : Fixer :=
  { name := "RedundantDefineFixer", fixId := "no_new_variables" }

/-- The fixers that there are. -/
def builtin : List Fixer :=
  [unusedBinding, unusedImport, redundantDefine]

/-- The fixer of a name. -/
def builtin? (name : String) : Option Fixer :=
  builtin.find? (·.name = name)

/-- A fixer that changes nothing and says always the same. -/
def saying (name fixId message : String) : Fixer where
  name
  fixId
  mend _ _ file := .ok (.other message, file)

/-- Whether a fixer is for a shape. -/
def canFix (fixer : Fixer) (shape : Shape) : Bool :=
  shape.fixId = fixer.fixId

end Fixer

/-- Why a fixer cannot be registered. -/
inductive RegistryError where
  | noFixId (name : String)
  /-- The second name is that of the fixer which is registered. -/
  | taken (fixId name : String)
  deriving DecidableEq, Repr

/-- The wording of an error. -/
def RegistryError.message : RegistryError → String
  | .noFixId name => s!"Fixer class {name} has no fix_id defined"
  | .taken fixId name => s!"Fixer for fix_id '{fixId}' already registered: {name}"

/-- Fixers in the order of their registration; no two of them are for the same shape. -/
structure FixerRegistry where
  fixers : List Fixer := []

namespace FixerRegistry

/-- The fixer for a shape. -/
def get? (registry : FixerRegistry) (fixId : String) : Option Fixer :=
  registry.fixers.find? (·.fixId = fixId)

/-- Register one more fixer. -/
def register (registry : FixerRegistry) (fixer : Fixer) : Except RegistryError FixerRegistry :=
  if fixer.fixId.isEmpty then
    .error (.noFixId fixer.name)
  else
    match registry.get? fixer.fixId with
    | some other => .error (.taken fixer.fixId other.name)
    | none => .ok { fixers := registry.fixers ++ [fixer] }

/-- Whether there is a fixer for a shape. -/
def has (registry : FixerRegistry) (fixId : String) : Bool :=
  (registry.get? fixId).isSome

/-- The words of the shapes that have a fixer, in order. -/
def fixIds (registry : FixerRegistry) : List String :=
  (registry.fixers.map (·.fixId)).mergeSort fun first second => first ≤ second

/-- Mend a shape with the fixer for it. -/
def mend (registry : FixerRegistry) (shape : Shape) (chain : List Node.Address) (file : File) :
    Edited :=
  match registry.get? shape.fixId with
  | none => .error (.noFixer shape.fixId)
  | some fixer => fixer.mend shape chain file

/-- The registry of all fixers that there are. -/
def standard : FixerRegistry :=
  { fixers := Fixer.builtin }

end FixerRegistry

end GoMend
