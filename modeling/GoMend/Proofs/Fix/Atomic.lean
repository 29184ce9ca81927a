import GoMend.Proofs.Fix.Absorb

/-!
# Fixes are atomic

A fix that fails leaves its file alone, and one that succeeds changes one node of it.  All nodes
around the changed one have the data that they had, and all nodes beside the way down to it are the
same as before.
-/

namespace GoMend

namespace Node

/-! ### One change -/

/-- The change of a single node that mends a shape: from the second node to the first one. -/
inductive LocalChange : Shape → Node → Node → Prop where
  | readInBlock (name : String) (span : Span) (stmts : List Stmt) :
      LocalChange (.unusedVariable name) (.stmt (.block ⟨span, stmts ++ [.discardRead name]⟩))
        (.stmt (.block ⟨span, stmts⟩))
  | readInCase (name : String) (span : Span) (exprs : Option (List Expr)) (stmts : List Stmt)
      (colon : Pos) :
      LocalChange (.unusedVariable name)
        (.stmt (.caseClause span exprs (stmts ++ [.discardRead name]) colon))
        (.stmt (.caseClause span exprs stmts colon))
  | readInComm (name : String) (span : Span) (comm : Option Stmt) (stmts : List Stmt) (colon : Pos) :
      LocalChange (.unusedVariable name)
        (.stmt (.commClause span comm (stmts ++ [.discardRead name]) colon))
        (.stmt (.commClause span comm stmts colon))
  | readInMissingLoop (name : String) (span : Span) (init : Option Stmt) (cond : Option Expr)
      (post : Option Stmt) :
      LocalChange (.unusedVariable name)
        (.stmt (.loop span init cond post (some ⟨{}, [.discardRead name]⟩)))
        (.stmt (.loop span init cond post none))
  | readInMissingRange (name : String) (span : Span) (key value : Option Expr) (tok : Option Token)
      (operand : Expr) (tokPos : Pos) :
      LocalChange (.unusedVariable name)
        (.stmt (.range span key value tok operand (some ⟨{}, [.discardRead name]⟩) tokPos))
        (.stmt (.range span key value tok operand none tokPos))
  | blank {path : String} {spec : ImportSpec} (isPath : spec.path.value = path)
      (notBlank : spec.isBlank = false) :
      LocalChange (.unusedImport path)
        (.spec (.importSpec { spec with name := some { name := "_" } })) (.spec (.importSpec spec))
  | assign (span : Span) (lhs rhs : List Expr) (tokPos : Pos) :
      LocalChange .noNewVariables (.stmt (.assign span lhs .assign rhs tokPos))
        (.stmt (.assign span lhs .define rhs tokPos))
  | range (span : Span) (key value : Option Expr) (operand : Expr) (body : Option Block)
      (tokPos : Pos) :
      LocalChange .noNewVariables
        (.stmt (.range span key value (some .assign) operand body tokPos))
        (.stmt (.range span key value (some .define) operand body tokPos))

/-- A tree that differs from another one at one node, which was changed to mend a shape. -/
inductive ChangedOnce (shape : Shape) : Node → Node → Prop where
  | here {new old : Node} (change : LocalChange shape new old) : ChangedOnce shape new old
  | inside {node other : Node} (resembles : Resembles node other) (before after : List Node)
      {new old : Node} (oldChildren : node.children = before ++ old :: after)
      (newChildren : other.children = before ++ new :: after)
      (changed : ChangedOnce shape new old) : ChangedOnce shape other node

variable {shape : Shape} {new old : Node}

theorem LocalChange.sort_eq (change : LocalChange shape new old) : new.sort = old.sort := by
  cases change <;> rfl

theorem LocalChange.ne (change : LocalChange shape new old) : new ≠ old := by
  cases change with
  | @blank path spec isPath notBlank =>
      intro same
      have nameEq : some { name := "_" } = spec.name :=
        congrArg ImportSpec.name (Spec.importSpec.inj (Node.spec.inj same))
      rw [ImportSpec.isBlank, ← nameEq] at notBlank
      cases notBlank
  | _ => simp

namespace ChangedOnce

theorem climbs (shape : Shape) : Climbs (ChangedOnce shape) where
  sort_eq changed := by
    induction changed with
    | here change => exact change.sort_eq
    | inside resembles => exact resembles.sort_eq
  child resembles before after _ _ oldChildren newChildren changed :=
    .inside resembles before after oldChildren newChildren changed

/-- What was changed is not what it was. -/
theorem ne (changed : ChangedOnce shape new old) : new ≠ old := by
  induction changed with
  | here change => exact change.ne
  | inside resembles before after oldChildren newChildren changed ih =>
      rintro rfl
      have same := oldChildren.symm.trans newChildren
      rw [List.append_cancel_left_eq, List.cons.injEq] at same
      exact ih same.1.symm

/-- A list of statements has got a read at its end. -/
theorem of_append {name : String} {step changed : Stmt}
    (isOwner : (Node.stmt step).ownStmts?.isSome)
    (appends : step.append? (.discardRead name) = some changed) :
    ChangedOnce (.unusedVariable name) (.stmt changed) (.stmt step) := by
  cases step with
  | block body =>
      obtain ⟨span, stmts⟩ := body
      obtain rfl := Option.some.inj appends
      exact .here (.readInBlock name span stmts)
  | caseClause span exprs body colon =>
      obtain rfl := Option.some.inj appends
      exact .here (.readInCase name span exprs body colon)
  | commClause span comm body colon =>
      obtain rfl := Option.some.inj appends
      exact .here (.readInComm name span comm body colon)
  | _ => cases isOwner

/-- A loop has got a body that holds a read. -/
theorem of_missing {name : String} {step changed : Stmt} (noBody : step.hasBody = false)
    (appends : step.append? (.discardRead name) = some changed) :
    ChangedOnce (.unusedVariable name) (.stmt changed) (.stmt step) := by
  cases step with
  | loop span init cond post body =>
      obtain rfl : body = none := by simpa [Stmt.hasBody] using noBody
      obtain rfl := Option.some.inj appends
      exact .here (.readInMissingLoop name span init cond post)
  | range span key value tok operand body tokPos =>
      obtain rfl : body = none := by simpa [Stmt.hasBody] using noBody
      obtain rfl := Option.some.inj appends
      exact .here (.readInMissingRange name span key value tok operand tokPos)
  | _ => cases noBody

/-- A statement has lost its `:=`. -/
theorem of_withoutDefine {step changed : Stmt} (replaced : step.withoutDefine? = some changed) :
    ChangedOnce .noNewVariables (.stmt changed) (.stmt step) := by
  obtain ⟨span, lhs, rhs, tokPos, rfl, rfl⟩ | ⟨span, key, value, operand, body, tokPos, rfl, rfl⟩ :=
    Stmt.exists_of_withoutDefine? replaced
  · exact .here (.assign span lhs rhs tokPos)
  · exact .here (.range span key value operand body tokPos)

/-- The import at a place among the declarations of a file was blanked. -/
theorem of_blank {path : String} {file : File} {place : ImportPlace} {spec : ImportSpec}
    (declsEq : file.decls = place.decls spec) (isPath : spec.path.value = path)
    (notBlank : spec.isBlank = false) :
    ChangedOnce (.unusedImport path)
      (.file { file with decls := place.decls { spec with name := some { name := "_" } } })
      (.file file) := by
  have atDecl : ChangedOnce (.unusedImport path)
      (.decl (.gen ⟨place.span, place.tok, place.specsBefore ++
        .importSpec { spec with name := some { name := "_" } } :: place.specsAfter,
          place.grouped⟩))
      (.decl (.gen ⟨place.span, place.tok,
        place.specsBefore ++ .importSpec spec :: place.specsAfter, place.grouped⟩)) := by
    refine .inside (.genDecl _ _ _ (by simp)) (place.specsBefore.map .spec)
      (place.specsAfter.map .spec) ?_ ?_ (.here (.blank isPath notBlank))
    · simp [children, declChildren]
    · simp [children, declChildren]
  refine .inside (.file _ _ _ _ _ (by simp [declsEq, ImportPlace.decls]))
    (ident file.package :: place.before.map .decl) (place.after.map .decl) ?_ ?_ atDecl
  · simp [children, declsEq, ImportPlace.decls]
  · simp [children, ImportPlace.decls]

end ChangedOnce

end Node

open Node

/-- What mends a shape changes one node of the file. -/
theorem Shape.mend_changedOnce {shape : Shape} {chain : List Address} {file edited : File}
    {edit : Edit} (outcome : shape.mend chain file = .ok (edit, edited)) :
    ChangedOnce shape (.file edited) (.file file) := by
  cases shape with
  | unusedVariable name =>
      exact (ChangedOnce.climbs _).addReadAnywhere (fun _ _ => .of_append) (fun _ _ => .of_missing)
        outcome
  | unusedImport path =>
      obtain ⟨place, spec, declsEq, rfl, isFirst⟩ := File.exists_of_blankImport outcome
      have opens := List.find?_some isFirst
      simp only [ImportSpec.opens, Bool.and_eq_true, decide_eq_true_eq, Bool.not_eq_true'] at opens
      exact .of_blank declsEq opens.1 opens.2
  | noNewVariables => exact (ChangedOnce.climbs _).replaceDefine (fun _ _ => .of_withoutDefine) outcome

namespace File

variable {file edited : File} {edit : Edit} {chain : List Address}

theorem changesFile_of_addRead {name : String}
    (outcome : file.addRead name chain = .ok (edit, edited)) : edit.changesFile = true := by
  induction chain with
  | nil => cases outcome
  | cons address outer ih =>
      unfold addRead at outcome
      split at outcome
      · exact ih outcome
      · split at outcome
        · cases outcome
        · split at outcome
          · exact ih outcome
          · obtain ⟨rfl, -⟩ := Prod.mk.inj (Except.ok.inj outcome)
            rfl

theorem changesFile_of_replaceDefine (outcome : file.replaceDefine chain = .ok (edit, edited)) :
    edit.changesFile = true := by
  induction chain with
  | nil => cases outcome
  | cons address outer ih =>
      unfold replaceDefine at outcome
      split at outcome
      · exact ih outcome
      · split at outcome
        · exact ih outcome
        · obtain ⟨rfl, -⟩ := Prod.mk.inj (Except.ok.inj outcome)
          rfl

theorem changesFile_of_blankImport {path : String}
    (outcome : file.blankImport path chain = .ok (edit, edited)) : edit.changesFile = true := by
  unfold blankImport at outcome
  split at outcome
  · split at outcome
    · cases outcome
    · obtain ⟨rfl, -⟩ := Prod.mk.inj (Except.ok.inj outcome)
      rfl
  · cases outcome

end File

/-- What mends a shape says that it has changed the file. -/
theorem Shape.changesFile_of_mend {shape : Shape} {chain : List Address} {file edited : File}
    {edit : Edit} (outcome : shape.mend chain file = .ok (edit, edited)) :
    edit.changesFile = true := by
  cases shape with
  | unusedVariable name => exact File.changesFile_of_addRead outcome
  | unusedImport path => exact File.changesFile_of_blankImport outcome
  | noNewVariables => exact File.changesFile_of_replaceDefine outcome

/-- A fix by a fixer that there is either fails, and then no file is changed and none is said to be;
or it changes one node of its file in the way that mends the shape, and says that this file is
changed. -/
theorem PendingFix.apply_atomic {fix : PendingFix} {progress : Progress} {file : File}
    (isBuiltin : fix.fixer ∈ Fixer.builtin) (isFile : progress.files[fix.unit]? = some file) :
    let outcome := fix.fixer.mend fix.shape fix.chain file
    (∀ failure, outcome = .error failure →
      (fix.apply progress).files = progress.files ∧ outcome.filesModified file.name = []) ∧
    ∀ edit edited, outcome = .ok (edit, edited) →
      (fix.apply progress).files = progress.files.set fix.unit edited ∧
        ChangedOnce fix.shape (.file edited) (.file file) ∧ edited ≠ file ∧
        outcome.filesModified file.name = [file.name] := by
  intro outcome
  have outcomeEq : fix.fixer.mend fix.shape fix.chain file = outcome := rfl
  unfold apply
  rw [isFile]
  dsimp only
  rw [outcomeEq]
  refine ⟨fun failure failed => ?_, fun edit edited mended => ?_⟩
  · rw [failed]
    exact ⟨rfl, rfl⟩
  · have isMend : fix.shape.mend fix.chain file = .ok (edit, edited) := by
      rw [← mended, ← outcomeEq, Fixer.mend_of_builtin isBuiltin]
    have changed := Shape.mend_changedOnce isMend
    rw [mended, Edited.filesModified, Shape.changesFile_of_mend isMend]
    exact ⟨rfl, changed, fun same => changed.ne (congrArg Node.file same), rfl⟩

/-- The read of a variable that is declared in a function, in the file of the function. -/
def sampleFix : PendingFix where
  diagnostic := ⟨"x declared but not used", 23⟩
  shape := .unusedVariable "x"
  unit := 0
  chain := (sampleFile.enclosing 23).map (·.address)
  fixer := .unusedBinding

theorem sampleFix_succeeds :
    ∃ edit edited, sampleFix.fixer.mend sampleFix.shape sampleFix.chain sampleFile =
      .ok (edit, edited) := by
  have isChain : sampleFix.chain = [[1, 2, 0, 0], [1, 2, 0], [1, 2], [1], []] := by
    decide +kernel
  rw [isChain]
  exact ⟨_, _, rfl⟩

/-- The fix of the sample succeeds, so it edits the file as it says. -/
theorem PendingFix.apply_atomic_sample :
    sampleFix.fixer ∈ Fixer.builtin ∧ [sampleFile][sampleFix.unit]? = some sampleFile ∧
      let outcome := sampleFix.fixer.mend sampleFix.shape sampleFix.chain sampleFile
      (∃ edit edited, outcome = .ok (edit, edited)) ∧
      (∀ failure, outcome = .error failure →
        (sampleFix.apply { files := [sampleFile] }).files = [sampleFile] ∧
          outcome.filesModified sampleFile.name = []) ∧
      ∀ edit edited, outcome = .ok (edit, edited) →
        (sampleFix.apply { files := [sampleFile] }).files = [sampleFile].set 0 edited ∧
          ChangedOnce sampleFix.shape (.file edited) (.file sampleFile) ∧ edited ≠ sampleFile ∧
          outcome.filesModified sampleFile.name = [sampleFile.name] :=
  ⟨by simp [sampleFix, Fixer.builtin], rfl, sampleFix_succeeds,
    apply_atomic (by simp [sampleFix, Fixer.builtin]) rfl⟩

end GoMend
