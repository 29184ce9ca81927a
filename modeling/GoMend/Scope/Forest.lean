import GoMend.Scope
import GoMend.Text.Quoted

/-!
# Scopes with their parents

A forest keeps scopes under numbers, each with the number of the scope around it, and knows which
objects have been read.  Scopes can be extended at any time, and what is added to a scope is seen
from all scopes inside it.
-/

namespace GoMend

/-- The kind of a scope and its names in order. -/
def Scope.render (scope : Scope) : String :=
  let names := (scope.objects.map (·.name)).mergeSort fun first second => first ≤ second
  s!"Scope({scope.kind}, [" ++ ", ".intercalate (names.map Text.quoted) ++ "])"

/-- Scopes by number.  The parent of a scope has a smaller number. -/
structure ScopeForest where
  scopes : List (Scope × Option Nat) := [(Scope.outermost, none)]
  nextId : Nat := Scope.outermost.objects.length
  /-- The numbers of the objects that have been read. -/
  used : List Nat := []

namespace ScopeForest

/-- The scopes around a place, from the innermost one on, when at most so many are looked at. -/
def chainWithin (forest : ScopeForest) : Nat → Nat → List Scope
  | 0, _ => []
  | limit + 1, index =>
      match forest.scopes[index]? with
      | none => []
      | some (scope, none) => [scope]
      | some (scope, some parent) => scope :: forest.chainWithin limit parent

/-- The scopes around a place, from the innermost one on. -/
def chain (forest : ScopeForest) (index : Nat) : List Scope :=
  forest.chainWithin forest.scopes.length index

/-- Add a scope; its number is the number of scopes before it. -/
def push (forest : ScopeForest) (parent : Option Nat) (kind : String) : ScopeForest :=
  { forest with scopes := forest.scopes ++ [({ kind }, parent)] }

/-- The object that a name denotes seen from a scope. -/
def lookup? (forest : ScopeForest) (index : Nat) (name : String) : Option Object :=
  Scope.lookup? (forest.chain index) name

/-- The object that a name denotes in a scope itself. -/
def lookupLocal? (forest : ScopeForest) (index : Nat) (name : String) : Option Object :=
  (forest.scopes[index]?).bind fun (scope, _) => scope.find? name

/-- Declare a name in a scope.  If the name is taken there, its object is the result and nothing
is declared. -/
def insert (forest : ScopeForest) (index : Nat) (name : String) (kind : ObjectKind) (pos : Pos) :
    ScopeForest × Option Object :=
  match forest.lookupLocal? index name with
  | some existing => (forest, some existing)
  | none =>
      let object : Object := { id := forest.nextId, name, kind, pos }
      let scopes := forest.scopes.modify index fun (scope, parent) => (scope.add object, parent)
      ({ forest with scopes, nextId := forest.nextId + 1 }, none)

/-- Note that an object has been read. -/
def markUsed (forest : ScopeForest) (object : Object) : ScopeForest :=
  { forest with used := object.id :: forest.used }

/-- Whether an object has been read. -/
def isUsed (forest : ScopeForest) (object : Object) : Bool :=
  forest.used.contains object.id

end ScopeForest

end GoMend
