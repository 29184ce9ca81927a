import GoMend.Tree

/-!
# Discard reads

A discard read is the statement `_ = name`.  It reads a variable and does nothing else.
-/

namespace GoMend

/-- The statement `_ = name`, which stands in no file. -/
def Stmt.discardRead (name : String) : Stmt :=
  .assign {} [.ident { name := "_" }] .assign [.ident { name }] noPos

/-- Whether a statement has the form `_ = name`. -/
def Stmt.isDiscardRead : Stmt → Bool
  | .assign _ [.ident left] .assign [.ident _] _ => left.isBlank
  | _ => false

end GoMend
