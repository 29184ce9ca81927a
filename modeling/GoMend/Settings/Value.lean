/-!
# Values of any kind

Settings come from files, from the environment and from the command line as values whose kind is
not known in advance.
-/

namespace GoMend

/-- A value of any kind. -/
inductive Value where
  | none
  | bool (value : Bool)
  | int (value : Int)
  /-- A number with a fraction or an exponent.  No setting is one, so the number is not kept. -/
  | float
  /-- A date or a time.  No setting is one, so it is not kept. -/
  | moment
  | text (value : String)
  | list (items : List Value)
  | table (entries : List (String × Value))
  deriving Repr, Inhabited

namespace Value

/-- Values by name.  No name occurs twice, and the order is that of their definition. -/
abbrev Entries := List (String × Value)

/-- Whether a value holds other values. -/
def isNested : Value → Bool
  | .list _ | .table _ => true
  | _ => false

/-- The entries with the value of a name replaced. -/
def Entries.replace (entries : Entries) (name : String) (value : Value) : Entries :=
  entries.map fun entry => if entry.1 = name then (name, value) else entry

end Value

end GoMend
