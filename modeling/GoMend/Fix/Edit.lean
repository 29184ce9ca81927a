import GoMend.Diagnostic.Shape
import GoMend.Fix.DiscardRead
import GoMend.Tree.Locate

/-!
# Edits

An edit mends one diagnostic by one local change of a file.  An unused variable is read at the
end of the statements around its declaration, an unused import is bound to the blank name, and a
`:=` that declares nothing becomes `=`.

An edit looks for its place along the nodes around a position.  The nodes are given by their
addresses, so that what earlier edits have added to them is kept.
-/

namespace GoMend

/-- What an edit has done. -/
inductive Edit where
  /-- A read of the variable was added to a node of the given kind. -/
  | readAdded (name kind : String)
  | importBlanked (path : String)
  /-- The token of a statement of the given kind was replaced. -/
  | defineReplaced (kind : String)
  /-- An edit of another sort, which changes no file. -/
  | other (message : String)
  deriving DecidableEq, Repr

namespace Edit

/-- The wording of an edit. -/
def message : Edit → String
  | .readAdded name kind => s!"added `_ = {name}` to {kind}"
  | .importBlanked path => s!"import {path} rebound to _"
  | .defineReplaced kind => s!"replaced := with = in {kind}"
  | .other message => message

/-- Whether an edit changes the file that it is applied to. -/
def changesFile : Edit → Bool
  | .other _ => false
  | _ => true

end Edit

/-- Why there was nothing to edit. -/
inductive EditFailure where
  | noStatements (name : String)
  | noFile (path : String)
  | noImport (path file : String)
  | noDefine
  | noFixer (fixId : String)
  deriving DecidableEq, Repr

/-- The wording of a failure. -/
def EditFailure.message : EditFailure → String
  | .noStatements name => s!"no statement block encloses the declaration of {name}"
  | .noFile path => s!"no file encloses the import of {path}"
  | .noImport path file => s!"no unblanked import of {path} in {file}"
  | .noDefine => "no := statement encloses the diagnostic"
  | .noFixer fixId => s!"No fixer registered for fix_id: {fixId}"

/-- The edit of a file and the file after it. -/
abbrev Edited := Except EditFailure (Edit × File)

/-- The names of the files that are changed when a file of the given name is edited. -/
def Edited.filesModified (name : String) : Edited → List String
  | .ok (edit, _) => if edit.changesFile then [name] else []
  | .error _ => []

/-- Change the first element that can be changed. -/
def changeFirst? {α : Type} (change : α → Option α) : List α → Option (List α)
  | [] => none
  | first :: rest =>
      match change first with
      | some changed => some (changed :: rest)
      | none => (changeFirst? change rest).map (first :: ·)

/-! ### Reading a variable -/

/-- The block with one more statement at its end. -/
def Block.append (body : Block) (added : Stmt) : Block :=
  { body with stmts := body.stmts ++ [added] }

/-- The block that a loop without a body gets. -/
def Block.missing : Block :=
  ⟨{}, []⟩

namespace Stmt

/-- The statement with one more statement at the end of those it holds.  In an `if` they are those
of its first branch. -/
def append? (stmt added : Stmt) : Option Stmt :=
  match stmt with
  | .block body => some (.block (body.append added))
  | .caseClause span exprs body colon => some (.caseClause span exprs (body ++ [added]) colon)
  | .commClause span comm body colon => some (.commClause span comm (body ++ [added]) colon)
  | .loop span init cond post body =>
      some (.loop span init cond post (some ((body.getD .missing).append added)))
  | .range span key value tok operand body tokPos =>
      some (.range span key value tok operand (some ((body.getD .missing).append added)) tokPos)
  | .ifElse span init cond body otherwise =>
      some (.ifElse span init cond (body.append added) otherwise)
  | _ => none

end Stmt

/-- The block of clauses with one more statement at the end of the first clause. -/
def Block.appendToFirst? (body : Block) (added : Stmt) : Option Block :=
  match body.stmts with
  | [] => none
  | first :: rest => (first.append? added).map fun clause => { body with stmts := clause :: rest }

namespace Stmt

/-- The statement with a read of a variable that is declared in it.  A variable of the header of a
`switch` is seen in every clause and is read in the first one. -/
def withRead? (stmt added : Stmt) : Option Stmt :=
  match stmt with
  | .switch span init tag body => (body.appendToFirst? added).map (.switch span init tag)
  | .typeSwitch span init guard body =>
      (body.appendToFirst? added).map (.typeSwitch span init guard)
  | .select span body => (body.appendToFirst? added).map (.select span)
  | other => other.append? added

/-- Whether a statement is a `switch` or a `select` that has no clauses. -/
def hasNoClauses : Stmt → Bool
  | .switch _ _ _ body | .typeSwitch _ _ _ body | .select _ body => body.stmts.isEmpty
  | _ => false

end Stmt

namespace Node

/-- Whether no statement around the node can read a variable that is declared in it. -/
def hidesVariables : Node → Bool
  | .expr (.funcLit ..) | .decl (.func _) => true
  | .stmt step => step.hasNoClauses
  | _ => false

/-- The node with a read of a variable that is declared in it. -/
def withRead? (node : Node) (added : Stmt) : Option Node :=
  match node with
  | .stmt step => (step.withRead? added).map .stmt
  | _ => none

end Node

namespace File

/-- Add a read of a variable to the first of the given nodes that can hold it. -/
def addRead (name : String) (file : File) : List Node.Address → Edited
  | [] => .error (.noStatements name)
  | address :: outer =>
      match (Node.file file).get? address with
      | none => file.addRead name outer
      | some node =>
          if node.hidesVariables then
            .error (.noStatements name)
          else
            match node.withRead? (.discardRead name) with
            | none => file.addRead name outer
            | some changed =>
                .ok (.readAdded name node.kind, file.modify (fun _ => changed) address)

end File

/-! ### Blanking an import -/

/-- The import bound to the blank name, if it has the given path and is not blank yet. -/
def ImportSpec.blanked? (path : String) (spec : ImportSpec) : Option ImportSpec :=
  if spec.path.value = path && !spec.name.any (·.isBlank) then
    some { spec with name := some { name := "_" } }
  else
    none

/-- The item of a declaration with its import bound to the blank name. -/
def Spec.blanked? (path : String) : Spec → Option Spec
  | .importSpec spec => (spec.blanked? path).map .importSpec
  | _ => none

/-- The declaration with its first import of a path bound to the blank name. -/
def Decl.blanked? (path : String) : Decl → Option Decl
  | .gen decl =>
      (changeFirst? (Spec.blanked? path) decl.specs).map fun specs => .gen { decl with specs }
  | .func _ => none

/-- Bind the first import of a path that is not blank to the blank name.  The file has to be one of
the given nodes. -/
def File.blankImport (path : String) (file : File) (chain : List Node.Address) : Edited :=
  if chain.contains [] then
    match changeFirst? (Decl.blanked? path) file.decls with
    | none => .error (.noImport path file.name)
    | some decls => .ok (.importBlanked path, { file with decls })
  else
    .error (.noFile path)

/-! ### Replacing a define token -/

/-- The statement with `=` in the place of `:=`. -/
def Stmt.withoutDefine? : Stmt → Option Stmt
  | .assign span lhs .define rhs tokPos => some (.assign span lhs .assign rhs tokPos)
  | .range span key value (some .define) operand body tokPos =>
      some (.range span key value (some .assign) operand body tokPos)
  | _ => none

theorem Stmt.exists_of_withoutDefine? {step changed : Stmt}
    (replaced : step.withoutDefine? = some changed) :
    (∃ span lhs rhs tokPos, step = .assign span lhs .define rhs tokPos ∧
      changed = .assign span lhs .assign rhs tokPos) ∨
    ∃ span key value operand body tokPos,
      step = .range span key value (some .define) operand body tokPos ∧
        changed = .range span key value (some .assign) operand body tokPos := by
  unfold Stmt.withoutDefine? at replaced
  split at replaced
  · exact .inl ⟨_, _, _, _, rfl, (Option.some.inj replaced).symm⟩
  · exact .inr ⟨_, _, _, _, _, _, rfl, (Option.some.inj replaced).symm⟩
  · cases replaced

/-- The node with `=` in the place of `:=`. -/
def Node.withoutDefine? : Node → Option Node
  | .stmt step => step.withoutDefine?.map .stmt
  | _ => none

/-- Replace the `:=` of the first of the given nodes that has one. -/
def File.replaceDefine (file : File) : List Node.Address → Edited
  | [] => .error .noDefine
  | address :: outer =>
      match (Node.file file).get? address with
      | none => file.replaceDefine outer
      | some node =>
          match node.withoutDefine? with
          | none => file.replaceDefine outer
          | some changed =>
              .ok (.defineReplaced node.kind, file.modify (fun _ => changed) address)

/-- The edit that mends a shape. -/
def Shape.mend (shape : Shape) (chain : List Node.Address) (file : File) : Edited :=
  match shape with
  | .unusedVariable name => file.addRead name chain
  | .unusedImport path => file.blankImport path chain
  | .noNewVariables => file.replaceDefine chain

end GoMend
