import GoMend.Proofs.Grammar.StatementProductions

/-!
# What every production leaves behind

A production that succeeds has read at least one lexeme, but not the end of the file, is back at the
nesting at which it began, and has kept the end of the last lexeme that it read.  What extends an
operand may find nothing to read.  This holds from every cursor, so also within headers and brackets,
and for every depth of unrolling.
-/

namespace GoMend

open Cursor
open Token (Any)

namespace Parse

variable {α : Type}

/-- From every cursor on closed lexemes, a production reads at least so many lexemes if it succeeds. -/
def Advances (count : Nat) (production : Parse α) : Prop :=
  ∀ ⦃cursor value after⦄, cursor.IsClosed → production cursor = .ok (value, after) →
    ∃ read, count ≤ read.length ∧ Consumed read cursor after

/-- Nothing needs to be known of positions or of the lexemes that are left. -/
theorem Behaves.advances {count limit : Nat} {Fits : α → Prop} {production : Parse α}
    (behaves : Behaves (fun _ => True) Any count limit Fits production) :
    Advances count production := by
  intro cursor value after closed outcome
  have stands : cursor.Stands (fun _ => True) := ⟨closed, fun _ _ => trivial⟩
  exact (behaves.reads stands trivial outcome).2

end Parse

open Parse

namespace Rules

/-- Names, types and lists of parameters or members are read as they should. -/
structure TypesAdvance (rules : Rules) : Prop where
  ident : Advances 1 Parse.ident
  identList : Advances 1 Parse.identList
  type : Advances 1 (typeExpr rules)
  signature : Advances 1 (Parse.signature rules)
  parameters : Advances 1 (Parse.parameters rules)
  paramType : Advances 1 (Parse.paramType rules)
  structMembers : Advances 1 (members (structField rules))
  interfaceMembers : Advances 1 (members (interfaceMember rules))

/-- Expressions are read as they should, and so is what extends an operand. -/
structure ExprsAdvance (rules : Rules) : Prop where
  exprList : Advances 1 (Parse.exprList rules)
  binary : ∀ least, Advances 1 (binaryExpr rules least)
  unary : Advances 1 (unaryExpr rules)
  operand : Advances 1 (Parse.operand rules)
  primary : ∀ value, Advances 0 (primaryFrom rules value)
  selectorOrAssertion : ∀ value, Advances 1 (Parse.selectorOrAssertion rules value)
  indexOrSlice : ∀ value, Advances 1 (Parse.indexOrSlice rules value)
  call : ∀ callee, Advances 1 (Parse.call rules callee)
  compositeLit : ∀ type, Advances 1 (Parse.compositeLit rules type)
  keyedElement : Advances 1 (Parse.keyedElement rules)
  elementValue : Advances 1 (Parse.elementValue rules)
  funcLitOrType : Advances 1 (Parse.funcLitOrType rules)

/-- Statements are read as they should.  A list of statements may be empty. -/
structure StmtsAdvance (rules : Rules) : Prop where
  statement : Advances 1 (Parse.statement rules)
  stmtList : Advances 0 (Parse.stmtList rules)
  simpleStmt : ∀ labelOk rangeOk, Advances 1 (Parse.simpleStmt rules labelOk rangeOk)
  block : Advances 1 (blockStmt rules)
  body : Advances 1 (atLevel 0 (blockStmt rules))
  ifStmt : Advances 1 (Parse.ifStmt rules)
  switchStmt : Advances 1 (Parse.switchStmt rules)
  caseClause : ∀ ofTypes, Advances 1 (Parse.caseClause rules ofTypes)
  selectStmt : Advances 1 (Parse.selectStmt rules)
  commClause : Advances 1 (Parse.commClause rules)
  forStmt : Advances 1 (Parse.forStmt rules)
  deferStmt : Advances 1 (callStmt rules .kwDefer .defer)
  goStmt : Advances 1 (callStmt rules .kwGo .go)
  returnStmt : Advances 1 (Parse.returnStmt rules)
  branchStmt : ∀ keyword ∈ [Token.kwBreak, .kwContinue, .kwGoto, .kwFallthrough],
    Advances 1 (Parse.branchStmt keyword)
  declStmt : ∀ keyword ∈ [Token.kwConst, .kwVar, .kwType], Advances 1 (Parse.declStmt rules keyword)

/-- Specifications and declarations are read as they should. -/
structure DeclsAdvance (rules : Rules) : Prop where
  importSpec : Advances 1 Parse.importSpec
  valueSpec : ∀ keyword, Advances 1 (Parse.valueSpec rules keyword)
  typeSpec : Advances 1 (Parse.typeSpec rules)
  imports : Advances 1 (genDecl .kwImport Parse.importSpec)
  values : ∀ keyword ∈ [Token.kwConst, .kwVar],
    Advances 1 (genDecl keyword (Parse.valueSpec rules keyword))
  types : Advances 1 (genDecl .kwType (Parse.typeSpec rules))
  funcDecl : Advances 1 (Parse.funcDecl rules)
  declaration : Advances 1 (Parse.declaration rules)
  fileContent : Advances 1 (Parse.fileContent rules)

/-- All productions that refer to the given ones are read as they should. -/
structure Disciplined (rules : Rules) : Prop where
  types : rules.TypesAdvance
  exprs : rules.ExprsAdvance
  stmts : rules.StmtsAdvance
  decls : rules.DeclsAdvance

namespace Behave

variable {rules : Rules} (behave : rules.Behave (fun _ => True) 0)

include behave

theorem typesAdvance : rules.TypesAdvance where
  ident := (@ident_behaves _ _ 0).advances
  identList := (@identList_behaves _ _ 0).advances
  type := (typeExpr_behaves behave).advances
  signature := (signature_behaves behave).advances
  parameters := (parameters_behaves behave).advances
  paramType := (paramType_behaves behave).advances
  structMembers := (members_behaves (structField_behaves behave)).advances
  interfaceMembers := (members_behaves (interfaceMember_behaves behave)).advances

theorem exprsAdvance : rules.ExprsAdvance where
  exprList := (exprList_behaves behave behave.expr (Nat.le_succ 0)).advances
  binary least := (binaryExpr_behaves behave (Nat.le_succ 0) behave.type least).advances
  unary := (unaryExpr_behaves behave (Nat.le_succ 0) behave.type).advances
  operand := (operand_behaves behave (Nat.le_succ 0) behave.type).advances
  primary value := (primaryFrom_behaves behave value).advances
  selectorOrAssertion value := (selectorOrAssertion_behaves behave value).advances
  indexOrSlice value := (indexOrSlice_behaves behave value).advances
  call callee := (call_behaves behave callee).advances
  compositeLit type := (compositeLit_behaves behave type).advances
  keyedElement := (keyedElement_behaves behave).advances
  elementValue := (elementValue_behaves behave (Nat.le_succ 0) behave.expr).advances
  funcLitOrType := (funcLitOrType_behaves behave).advances

theorem stmtsAdvance : rules.StmtsAdvance where
  statement := (statement_behaves behave (Nat.le_succ 0) behave.expr).advances
  stmtList := (stmtList_behaves behave).advances
  simpleStmt labelOk rangeOk :=
    (simpleStmt_behaves behave behave.expr (Nat.le_succ 0) labelOk rangeOk).advances
  block := (blockStmt_behaves behave).advances
  body := (Behaves.atLevel (blockStmt_behaves behave)).advances
  ifStmt := (ifStmt_behaves behave).advances
  switchStmt := (switchStmt_behaves behave).advances
  caseClause ofTypes := (caseClause_behaves behave ofTypes).advances
  selectStmt := (selectStmt_behaves behave).advances
  commClause := (commClause_behaves behave).advances
  forStmt := (forStmt_behaves behave).advances
  deferStmt := (callStmt_behaves behave (by decide) fun _ _ graded =>
    Node.isGraded_of_children trivial (by simpa [Node.children, Node.stmtChildren] using graded)).advances
  goStmt := (callStmt_behaves behave (by decide) fun _ _ graded =>
    Node.isGraded_of_children trivial (by simpa [Node.children, Node.stmtChildren] using graded)).advances
  returnStmt := (returnStmt_behaves behave).advances
  branchStmt keyword isKeyword :=
    (@branchStmt_behaves _ _ 0 _ (by rintro rfl; simp at isKeyword)).advances
  declStmt keyword isKeyword :=
    (declStmt_behaves behave (by rintro rfl; simp at isKeyword)).advances

theorem declsAdvance : rules.DeclsAdvance where
  importSpec := (@importSpec_behaves _ _ 0).advances
  valueSpec keyword := (valueSpec_behaves behave keyword).advances
  typeSpec := (typeSpec_behaves behave).advances
  imports := (@genDecl_behaves _ _ 0 _ _ (by decide) importSpec_behaves).advances
  values keyword isKeyword := (genDecl_behaves (by rintro rfl; simp at isKeyword)
    (valueSpec_behaves behave keyword)).advances
  types := (genDecl_behaves (by decide) (typeSpec_behaves behave)).advances
  funcDecl := (funcDecl_behaves behave).advances
  declaration := (declaration_behaves behave).advances
  fileContent := (fileContent_behaves behave).advances

end Behave

/-- Whatever the depth of unrolling, every production that succeeds has read lexemes in front of the
end of the file, is back at its nesting and has kept the end of the last lexeme. -/
theorem ofDepth_disciplined (depth : Nat) : (ofDepth depth).Disciplined := by
  have behave : (ofDepth depth).Behave (fun _ => True) 0 :=
    (ofDepth_behaves depth).narrow (Nat.zero_le _) (Nat.zero_le _) (Nat.zero_le _)
  exact ⟨behave.typesAdvance, behave.exprsAdvance, behave.stmtsAdvance, behave.declsAdvance⟩

end Rules

end GoMend
