import GoMend.Position

/-!
# Scopes

A scope is a block of declarations.  Scopes are nested, and a name means what the innermost scope
that declares it says.  Every declared object has a number of its own, so that two objects of one
name can be told apart.
-/

namespace GoMend

/-- What a name can denote. -/
inductive ObjectKind where
  | builtin
  | const
  | func
  | label
  | nil
  | package
  | type
  | var
  deriving DecidableEq, Repr

/-- The word for a kind of object. -/
def ObjectKind.text : ObjectKind → String
  | .builtin => "builtin"
  | .const => "const"
  | .func => "func"
  | .label => "label"
  | .nil => "nil"
  | .package => "package"
  | .type => "type"
  | .var => "var"

/-- A declared name. -/
structure Object where
  /-- The number that tells the object from all others. -/
  id : Nat
  name : String
  kind : ObjectKind
  pos : Pos := noPos
  deriving DecidableEq, Repr

/-- A block of declarations. -/
structure Scope where
  kind : String := "block"
  /-- The objects in the order of their declaration; no two of them have the same name. -/
  objects : List Object := []
  deriving DecidableEq, Repr

namespace Scope

/-- The object that a name denotes in this block itself. -/
def find? (scope : Scope) (name : String) : Option Object :=
  scope.objects.find? (·.name = name)

/-- Declare an object whose name is not declared in this block yet. -/
def add (scope : Scope) (object : Object) : Scope :=
  { scope with objects := scope.objects ++ [object] }

/-- The object that a name denotes in nested scopes, the innermost one first. -/
def lookup? (scopes : List Scope) (name : String) : Option Object :=
  scopes.findSome? (·.find? name)

/-! ### Predeclared names -/

/-- The predeclared types. -/
def predeclaredTypes : List String :=
  ["any", "bool", "byte", "comparable", "complex64", "complex128", "error", "float32", "float64",
    "int", "int8", "int16", "int32", "int64", "rune", "string", "uint", "uint8", "uint16",
    "uint32", "uint64", "uintptr"]

/-- The predeclared constants. -/
def predeclaredConsts : List String :=
  ["true", "false", "iota"]

/-- The predeclared functions. -/
def predeclaredFuncs : List String :=
  ["append", "cap", "clear", "close", "complex", "copy", "delete", "imag", "len", "make", "max",
    "min", "new", "panic", "print", "println", "real", "recover"]

/-- The predeclared names with their kinds. -/
def predeclared : List (String × ObjectKind) :=
  predeclaredTypes.map (·, .type) ++ predeclaredConsts.map (·, .const) ++
    predeclaredFuncs.map (·, .builtin) ++ [("nil", .nil)]

/-- The outermost scope, which holds the predeclared names. -/
def outermost : Scope where
  kind := "universe"
  objects := predeclared.zipIdx.map fun ((name, kind), id) => { id, name, kind }

end Scope

end GoMend
