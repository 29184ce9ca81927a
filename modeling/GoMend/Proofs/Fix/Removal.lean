import GoMend.Proofs.Fix.Erasure

/-!
# What is removed when fixes are taken back

Discard reads are removed wherever they stand.  In files that were written without any, they come
from fixes: a fix has added them, or it has replaced the `:=` of a statement `_ := y`.  Everything
else of the files remains, in its place and in its order.
-/

namespace GoMend

open Node

/-! ### Where discard reads come from -/

namespace Node

/-- The list of a node with one more statement. -/
theorem ownStmts?_append {step changed added : Stmt} (isOwner : (Node.stmt step).ownStmts?.isSome)
    (appends : step.append? added = some changed) :
    (Node.stmt changed).ownStmts?.getD [] = (Node.stmt step).ownStmts?.getD [] ++ [added] := by
  cases step with
  | block body | caseClause span exprs body colon | commClause span comm body colon =>
      obtain rfl := Option.some.inj appends
      rfl
  | _ => cases isOwner

/-- A node that holds a list of statements assigns nothing. -/
theorem isCopy_append {step changed added : Stmt} (isOwner : (Node.stmt step).ownStmts?.isSome)
    (appends : step.append? added = some changed) : changed.isCopy = false := by
  cases step with
  | block body | caseClause span exprs body colon | commClause span comm body colon =>
      obtain rfl := Option.some.inj appends
      rfl
  | _ => cases isOwner

/-- A node that holds a list of statements is no copy. -/
theorem isCopy_of_owner {step : Stmt} (isOwner : (Node.stmt step).ownStmts?.isSome) :
    step.isCopy = false := by
  cases step with
  | assign => cases isOwner
  | _ => rfl

/-- Without its `:=`, a statement holds the same statements. -/
theorem statements_withoutDefine {step changed : Stmt}
    (replaces : step.withoutDefine? = some changed) :
    (Node.stmt changed).sort = (Node.stmt step).sort ∧
      (Node.stmt changed).statements = (Node.stmt step).statements := by
  rw [statements_eq, statements_eq]
  obtain ⟨_, _, _, _, rfl, rfl⟩ | ⟨_, _, _, _, _, _, rfl, rfl⟩ :=
    Stmt.exists_of_withoutDefine? replaces
  · exact ⟨rfl, rfl⟩
  · exact ⟨rfl, rfl⟩

/-- A fix brings no other copies than reads and statements whose `:=` it replaces. -/
theorem CopiesStem.fixCongruence : FixCongruence CopiesStem where
  toCongruence := CopiesStem.congruence
  atOwner name step changed isOwner appends := by
    obtain ⟨sortEq, -, childrenEq⟩ := children_append isOwner appends
    refine .of_below sortEq (by cases changed <;> simp [sort]) ?_ fun other isOther isCopy => ?_
    · rintro other ⟨⟩
      exact isCopy_append isOwner appends
    rw [statements_eq, ownStmts?_append isOwner appends, childrenEq, List.flatMap_append,
      List.flatMap_singleton, statements_discardRead, List.append_nil] at isOther
    rw [statements_eq]
    obtain isOwn | isBelow := List.mem_append.mp isOther
    · obtain isOld | isAdded := List.mem_append.mp isOwn
      · exact .kept (List.mem_append_left _ isOld)
      · exact List.mem_singleton.mp isAdded ▸ .added name
    · exact .kept (List.mem_append_right _ isBelow)
  atDefine step changed replaces := by
    obtain ⟨sortEq, same⟩ := statements_withoutDefine replaces
    refine ⟨sortEq, by simp [ident], ?_, fun other isOther _ => .kept (same ▸ isOther)⟩
    rintro other ⟨⟩ -
    exact ⟨step, rfl, .replaced List.mem_cons_self replaces⟩
  atImport spec name := by
    refine .of_below rfl (by simp [sort]) (by simp) fun other isOther => ?_
    rw [statements_importSpec] at isOther
    cases isOther

/-- A fix keeps all copies, except that it may replace the `:=` of one. -/
theorem CopiesStay.fixCongruence : FixCongruence CopiesStay where
  toCongruence := CopiesStay.congruence
  atOwner name step changed isOwner appends := by
    obtain ⟨sortEq, -, childrenEq⟩ := children_append isOwner appends
    refine .of_below sortEq.symm (by cases step <;> simp [sort]) ?_ fun other isOther _ => .inl ?_
    · rintro other ⟨⟩
      exact isCopy_of_owner isOwner
    · rw [statements_eq] at isOther ⊢
      rw [ownStmts?_append isOwner appends, childrenEq, List.flatMap_append]
      exact List.mem_append.mpr ((List.mem_append.mp isOther).imp (List.mem_append_left _)
        (List.mem_append_left _))
  atDefine step changed replaces := by
    obtain ⟨sortEq, same⟩ := statements_withoutDefine replaces
    refine ⟨sortEq.symm, by simp [ident], ?_, fun other isOther _ => .inl (same ▸ isOther)⟩
    rintro other ⟨⟩ -
    exact ⟨changed, rfl, .inr ⟨changed, List.mem_cons_self, replaces⟩⟩
  atImport spec name := by
    refine .of_below rfl (by simp [sort]) (by simp) fun other isOther => ?_
    rw [statements_importSpec] at isOther
    cases isOther

end Node

/-- What stems from copies that stem from older statements stems from these. -/
theorem Stmt.StemsFrom.trans {middle olds : List Stmt} {step : Stmt} (stems : step.StemsFrom middle)
    (isCopy : step.isCopy) (copiesStem : ∀ own ∈ middle, own.isCopy → own.StemsFrom olds) :
    step.StemsFrom olds := by
  cases stems with
  | kept isMiddle => exact copiesStem step isMiddle isCopy
  | added name => exact .added name
  | @replaced own _ isMiddle replaces =>
      cases copiesStem own isMiddle (Stmt.isCopy_of_withoutDefine? isCopy replaces) with
      | kept isOld => exact .replaced isOld replaces
      | added name => cases replaces
      | replaced isOld before =>
          rw [Stmt.withoutDefine?_of_withoutDefine? before] at replaces
          cases replaces

/-- The copies of a file after fixes. -/
theorem Mended.copiesStem {file fixed : File} (mended : Mended file fixed)
    (whole : Whole (.file file)) :
    ∀ step ∈ (Node.file fixed).statements, step.isCopy →
      step.StemsFrom (Node.file file).statements := by
  induction mended with
  | nothing => exact fun step isStep _ => .kept isStep
  | mend before isShape outcome ih =>
      have stems := FixCongruence.mend CopiesStem.fixCongruence (before.whole whole) outcome
      exact fun step isStep isCopy => (stems.below step isStep isCopy).trans isCopy ih

/-- The copies of a file become copies of the file after fixes. -/
theorem Mended.copiesStay {file fixed : File} (mended : Mended file fixed)
    (whole : Whole (.file file)) :
    ∀ own ∈ (Node.file file).statements, own.isCopy →
      own.Becomes (Node.file fixed).statements := by
  induction mended with
  | nothing => exact fun own isOwn _ => .inl isOwn
  | mend before isShape outcome ih =>
      have stay := FixCongruence.mend CopiesStay.fixCongruence (before.whole whole) outcome
      intro own isOwn isCopy
      rcases ih own isOwn isCopy with isKept | ⟨step, isStep, replaces⟩
      · exact stay.below own isKept isCopy
      · -- A `:=` is replaced once, so a statement that lost its own is kept from then on.
        refine .inr ⟨step, ?_, replaces⟩
        rcases stay.below step isStep (Stmt.isCopy_withoutDefine? isCopy replaces) with
          isKept | ⟨_, -, again⟩
        · exact isKept
        · rw [Stmt.withoutDefine?_of_withoutDefine? replaces] at again
          cases again

/-! ### Outlines -/

/-- The statement with `=` for `:=` and without the end of its range. -/
def Stmt.outlined (step : Stmt) : Stmt :=
  (step.withoutDefine?.getD step).withStop noPos

namespace Node

/-- The node without what fixes change and what taking them back changes: discard reads and the
lines that these can take or give up, the `:=` of a statement and the name of an import. -/
def outlined : Node → Node
  | .stmt (.block body) => .stmt (.block ⟨{}, withoutDiscards body.stmts⟩)
  | .stmt (.caseClause span exprs body _) =>
      .stmt (.caseClause { span with stop := noPos } exprs (withoutDiscards body) noPos)
  | .stmt (.commClause span comm body _) =>
      .stmt (.commClause { span with stop := noPos } comm (withoutDiscards body) noPos)
  | .stmt step => .stmt step.outlined
  | .spec (.importSpec item) => .spec (.importSpec { item with name := none })
  | other => other

/-- The tree of which all nodes are outlined. -/
def outline (node : Node) : Node :=
  node.changeAll outlined

end Node

/-- The outline of a statement. -/
def Stmt.outline (step : Stmt) : Stmt :=
  Slot.stmt.changeAll Node.outlined step

theorem Stmt.outlined_assign (span : Span) (lhs : List Expr) (tok : Token) (rhs : List Expr)
    (tokPos : Pos) :
    (Stmt.assign span lhs tok rhs tokPos).outlined =
      .assign { span with stop := noPos } lhs (if tok = .define then .assign else tok) rhs tokPos := by
  cases tok <;> rfl

theorem Stmt.outlined_range (span : Span) (key value : Option Expr) (tok : Option Token)
    (operand : Expr) (body : Option Block) (tokPos : Pos) :
    (Stmt.range span key value tok operand body tokPos).outlined =
      .range { span with stop := noPos } key value
        (if tok = some .define then some .assign else tok) operand body tokPos := by
  rcases tok with _ | tok
  · rfl
  · cases tok <;> rfl

theorem Node.sort_outlined (node : Node) : node.outlined.sort = node.sort := by
  cases node with
  | stmt step =>
      cases step with
      | assign span lhs tok rhs tokPos =>
          exact (congrArg (sort ∘ Node.stmt) (Stmt.outlined_assign span lhs tok rhs tokPos)).trans rfl
      | range span key value tok operand body tokPos =>
          exact (congrArg (sort ∘ Node.stmt)
            (Stmt.outlined_range span key value tok operand body tokPos)).trans rfl
      | _ => rfl
  | spec item => cases item <;> rfl
  | _ => rfl

/-- Outlines do not show discard reads, nor the positions that move when these are removed. -/
theorem Node.outlined_erases : Erases outlined where
  sort_eq := sort_outlined
  ident_eq _ := rfl
  isDiscardRead step isRead := by
    obtain ⟨span, left, right, tokPos, rfl, isBlank⟩ := Stmt.exists_of_isDiscardRead isRead
    exact ⟨_, rfl, isBlank⟩
  withStop_eq step stop nodes := by
    cases step with
    | assign span lhs tok rhs tokPos =>
        exact congrArg Node.stmt
          ((Stmt.outlined_assign _ _ _ _ _).trans (Stmt.outlined_assign span _ tok _ tokPos).symm)
    | range span key value tok operand body tokPos =>
        exact congrArg Node.stmt ((Stmt.outlined_range _ _ _ _ _ _ _).trans
          (Stmt.outlined_range span _ _ tok _ _ tokPos).symm)
    | caseClause span exprs body colon => cases exprs <;> rfl
    | _ => rfl
  block_eq _ _ := rfl
  case_eq _ _ _ _ := rfl
  comm_eq _ _ _ _ := rfl

theorem Node.outline_stmt (step : Stmt) : (Node.stmt step).outline = .stmt step.outline :=
  Slot.stmt.wrap_changeAll sort_outlined step

/-- Without its `:=`, a statement has the same outline. -/
theorem Stmt.outline_withoutDefine {step changed : Stmt}
    (replaces : step.withoutDefine? = some changed) : changed.outline = step.outline := by
  refine Node.stmt.inj ?_
  rw [← outline_stmt, ← outline_stmt, Node.outline, Node.outline, changeAll_eq, changeAll_eq]
  obtain ⟨_, _, _, _, rfl, rfl⟩ | ⟨_, _, _, _, _, _, rfl, rfl⟩ := exists_of_withoutDefine? replaces
  · rfl
  · rfl

/-! ### Files -/

section Files

/-- Fixes do not change the outline of a tree. -/
theorem Node.outline_fixCongruence :
    FixCongruence fun new old => new.sort = old.sort ∧ new.outline = old.outline where
  toCongruence := .changeAll sort_outlined
  atOwner name step changed isOwner appends := by
    have keepsRead : (Node.stmt (.discardRead name)).changeAll outlined = .stmt (.discardRead name) :=
      changeAll_discardRead (fun _ => rfl) name
    refine ⟨(children_append isOwner appends).1,
      changeAll_append sort_outlined keepsRead ?_ isOwner appends⟩
    intro step changed isOwner appends
    have absorbs (stmts : List Stmt) :
        withoutDiscards (stmts ++ [Stmt.discardRead name]) = withoutDiscards stmts := by
      simp [withoutDiscards, Stmt.isDiscardRead, Stmt.discardRead, Ident.isBlank]
    cases step with
    | block body =>
        obtain rfl := Option.some.inj appends
        exact congrArg (fun stmts => Node.stmt (.block ⟨{}, stmts⟩)) (absorbs body.stmts)
    | caseClause span exprs body colon =>
        obtain rfl := Option.some.inj appends
        exact congrArg (fun stmts => Node.stmt (.caseClause _ exprs stmts noPos)) (absorbs body)
    | commClause span comm body colon =>
        obtain rfl := Option.some.inj appends
        exact congrArg (fun stmts => Node.stmt (.commClause _ comm stmts noPos)) (absorbs body)
    | _ => cases isOwner
  atDefine step changed replaces := by
    refine ⟨(statements_withoutDefine replaces).1, ?_⟩
    rw [outline_stmt, outline_stmt, Stmt.outline_withoutDefine replaces]
  atImport spec name := by
    refine ⟨rfl, ?_⟩
    unfold outline
    rw [changeAll_importSpec sort_outlined, changeAll_importSpec sort_outlined]
    rfl

theorem Mended.outline_eq {file fixed : File} (mended : Mended file fixed)
    (whole : Whole (.file file)) : (Node.file fixed).outline = (Node.file file).outline := by
  induction mended with
  | nothing => rfl
  | mend before isShape outcome ih =>
      exact (FixCongruence.mend outline_fixCongruence (before.whole whole) outcome).2.trans ih

variable {keep : List String}

namespace File

theorem outline_reverted (file : File) :
    (Node.file (file.reverted keep)).outline = (Node.file file).outline := by
  rw [reverted_eq, outline, outline,
    ← Erases.changeAll_changeAll outlined_erases file.comments (.file file), changeAll_withoutReads]
  exact (Congruence.restored (FixCongruence.toCongruence outline_fixCongruence) fun spec =>
    FixCongruence.atImport outline_fixCongruence spec none).2

/-- The statements that are removed from a file are its discard reads. -/
theorem statements_reverted (file : File) :
    (Node.file (file.reverted keep)).statements.map Stmt.pare =
      (withoutDiscards (Node.file file).statements).map Stmt.pare :=
  map_statements_of_lists (lists_reverted pared_erases.stmt_withStop
    (fun _ => pared_erases.stmt_cleared) file)

end File

end Files

/-! ### Runs -/

/-- What taking fixes back makes of a file that fixes have changed. -/
structure TakenBack (file fixed reverted : File) : Prop where
  /-- What is removed was added without a position, or the file has it with `:=`. -/
  removed : ∀ step ∈ (Node.file fixed).statements, step.isDiscardRead →
    (¬step.span.isPositioned ∧ ∃ name, step = .discardRead name) ∨
      ∃ own ∈ (Node.file file).statements, own.withoutDefine? = some step
  /-- Nothing but discard reads is removed. -/
  remaining : (Node.file reverted).statements.map Stmt.pare =
    (withoutDiscards (Node.file fixed).statements).map Stmt.pare
  /-- A statement `_ := y` of the file stays unless its `:=` was replaced. -/
  stays : ∀ own ∈ (Node.file file).statements, own.isCopy →
    (∃ step ∈ (Node.file fixed).statements, own.withoutDefine? = some step) ∨
      own.pare ∈ (Node.file reverted).statements.map Stmt.pare
  /-- The rest of the file stands where it was. -/
  outline_eq : (Node.file reverted).outline = (Node.file file).outline

/-- A run and then taking fixes back removes no statement of a file without discard reads, except
those of the form `_ := y` whose `:=` was replaced. -/
theorem ReadInto.revertFixes_removes {set : FileSet} {files : List File}
    {importNames : List (String × String)} {tries : Int} {run : Run} {unit : Nat} {file : File}
    (isRead : ReadInto set files)
    (noReads : ∀ file ∈ files, ∀ step ∈ (Node.file file).statements, ¬step.isDiscardRead)
    (outcome : quickFix (.scopeCheck importNames) .standard set tries files = .ok run)
    (keep : List String) (isFile : files[unit]? = some file) :
    ∃ fixed reverted, run.files[unit]? = some fixed ∧
      (revertFixes keep run.files).files[unit]? = some reverted ∧
      TakenBack file fixed reverted := by
  have mended := quickFix_mended outcome
  obtain ⟨inside, rfl⟩ := List.getElem?_eq_some_iff.mp isFile
  have isFixed := mended.length_eq ▸ inside
  have fileMended : Mended files[unit] run.files[unit] := mended.get inside isFixed
  have isFile : files[unit] ∈ files := List.getElem_mem inside
  have whole : Whole (.file files[unit]) := .of_sound (isRead.soundPackage.1.sound _ isFile)
  refine ⟨run.files[unit], run.files[unit].reverted keep, List.getElem?_eq_getElem isFixed, ?_,
    ⟨fun step isStep isDiscard => ?_, File.statements_reverted _, fun own isOwn isCopy => ?_, ?_⟩⟩
  · simp [revertFixes, List.getElem?_eq_getElem isFixed]
  · cases fileMended.copiesStem whole step isStep (Stmt.isCopy_of_isDiscardRead isDiscard) with
    | kept isOld => exact absurd isDiscard (noReads _ isFile step isOld)
    | added name => exact .inl ⟨(by decide : ¬Span.isPositioned {}), name, rfl⟩
    | replaced isOld replaces => exact .inr ⟨_, isOld, replaces⟩
  · refine (fileMended.copiesStay whole own isOwn isCopy).symm.imp_right fun isKept => ?_
    rw [File.statements_reverted]
    exact List.mem_map_of_mem (List.mem_filter.mpr ⟨isKept, by simp [noReads _ isFile own isOwn]⟩)
  · rw [File.outline_reverted, fileMended.outline_eq whole]

/-! ### Written statements that are removed -/

/-- A function that assigns its parameter to the blank name by `:=`. -/
def blankText : String :=
  "package p\nfunc f(x int) \x7b\n\t_ := x\n\x7d\n"

/-- The file of the text, with the given token in the place of `:=`. -/
def blankFile (tok : Token) : File where
  span := ⟨1, 38⟩
  name := "a.go"
  package := ⟨⟨9, 10⟩, "p"⟩
  decls := [.func {
    span := ⟨11, 36⟩
    recv := none
    name := ⟨⟨16, 17⟩, "f"⟩
    type := ⟨⟨11, 24⟩, ⟨⟨17, 24⟩, [⟨⟨18, 23⟩, [⟨⟨18, 19⟩, "x"⟩], .ident ⟨⟨20, 23⟩, "int"⟩, none⟩]⟩,
      none⟩
    body := some ⟨⟨25, 36⟩, [
      .assign ⟨28, 34⟩ [.ident ⟨⟨28, 29⟩, "_"⟩] tok [.ident ⟨⟨33, 34⟩, "x"⟩] 30]⟩ }]
  comments := []

/-- The lexemes of the text. -/
def blankLexemes : List Lexeme := [
  ⟨.kwPackage, "package", 1⟩, ⟨.ident, "p", 9⟩, ⟨.semicolon, "\n", 10⟩, ⟨.kwFunc, "func", 11⟩,
  ⟨.ident, "f", 16⟩, ⟨.leftParen, "(", 17⟩, ⟨.ident, "x", 18⟩, ⟨.ident, "int", 20⟩,
  ⟨.rightParen, ")", 23⟩, ⟨.leftBrace, "\x7b", 25⟩, ⟨.ident, "_", 28⟩, ⟨.define, ":=", 30⟩,
  ⟨.ident, "x", 33⟩, ⟨.semicolon, "\n", 34⟩, ⟨.rightBrace, "\x7d", 35⟩, ⟨.semicolon, "\n", 36⟩,
  ⟨.endOfFile, "", 37⟩]

theorem scan_blankText : Scan.ofTextIn 1 blankText = .ok ⟨blankLexemes, []⟩ := by
  decide +kernel

theorem readInto_blankFile :
    ReadInto (File.parse .empty "a.go" blankText).1 [blankFile .define] :=
  .file .nothing (File.parse_of_scan scan_blankText rfl)

theorem statements_blankFile (tok : Token) :
    (Node.file (blankFile tok)).statements =
      [.assign ⟨28, 34⟩ [.ident ⟨⟨28, 29⟩, "_"⟩] tok [.ident ⟨⟨33, 34⟩, "x"⟩] 30] := by
  cbv

theorem checkPackage_of_findings {packageName : String → String} {files : List File}
    {findings : List (Finding × Pos)} (found : packageFindings packageName files = .ok findings) :
    checkPackage packageName files =
      .ok (Diagnostic.sorted (findings.map fun (finding, pos) => finding.diagnostic pos)) := by
  rw [checkPackage, found]
  rfl

theorem packageFindings_blankFile :
    packageFindings (ImportPath.packageName []) [blankFile .define] = .ok [(.noNewVariables, 30)] ∧
      packageFindings (ImportPath.packageName []) [blankFile .assign] = .ok [] := by
  decide +kernel

theorem check_blankFile_define :
    checkPackage (ImportPath.packageName []) [blankFile .define] =
      .ok [Finding.noNewVariables.diagnostic 30] := by
  rw [checkPackage_of_findings packageFindings_blankFile.1]
  simp [Diagnostic.sorted]

theorem check_blankFile_assign :
    checkPackage (ImportPath.packageName []) [blankFile .assign] = .ok [] := by
  rw [checkPackage_of_findings packageFindings_blankFile.2]
  simp [Diagnostic.sorted]

theorem mendAll_blankFile (set : FileSet) :
    (mendAll .standard set [blankFile .define] [Finding.noNewVariables.diagnostic 30]).files =
      [blankFile .assign] := by
  have isShape : (Finding.noNewVariables.diagnostic 30).shape? = some .noNewVariables := by rfl
  have isChain : ((blankFile .define).enclosing 30).map (·.address) =
      [[1, 2, 0], [1, 2], [1], []] := by
    decide +kernel
  have triaged : Triage.of .standard set [blankFile .define]
      (Finding.noNewVariables.diagnostic 30) =
        .pending ⟨Finding.noNewVariables.diagnostic 30, .noNewVariables, 0,
          [[1, 2, 0], [1, 2], [1], []], .redundantDefine⟩ := by
    unfold Triage.of
    rw [isShape, ← isChain]
    rfl
  unfold mendAll
  simp only [List.map_cons, List.map_nil, triaged]
  rfl

/-- A run replaces the `:=`, and nothing is left to report. -/
theorem quickFix_blankFile (set : FileSet) :
    ∃ run, quickFix (.scopeCheck []) .standard set 2 [blankFile .define] = .ok run ∧
      run.ending = .clean ∧ run.files = [blankFile .assign] := by
  have first : (Checker.scopeCheck []).check 0 [blankFile .define] = _ := check_blankFile_define
  have second : (Checker.scopeCheck []).check 1 [blankFile .assign] = _ := check_blankFile_assign
  refine ⟨_, rfl, ?_⟩
  show (Run.passes _ _ set 2 2 0 _ _).ending = _ ∧ (Run.passes _ _ set 2 2 0 _ _).files = _
  simp only [Run.passes, runPass, first, bind, Except.bind, pure, Except.pure, mendAll_blankFile,
    second]
  exact ⟨rfl, rfl⟩

/-- In a file without discard reads, a statement that was read from the file is removed after a
clean run: its `:=` was replaced. -/
theorem revertFixes_removes_written :
    ReadInto (File.parse .empty "a.go" blankText).1 [blankFile .define] ∧
      (∀ step ∈ (Node.file (blankFile .define)).statements, ¬step.isDiscardRead) ∧
      ∃ run, quickFix (.scopeCheck []) .standard (File.parse .empty "a.go" blankText).1 2
          [blankFile .define] = .ok run ∧ run.ending = .clean ∧ run.files = [blankFile .assign] ∧
        (∃ step ∈ (Node.file (blankFile .assign)).statements,
          step.isDiscardRead ∧ step.span.isPositioned) ∧
        ∃ reverted, (revertFixes ["embed"] run.files).files = [reverted] ∧
          (Node.file (blankFile .define)).statements.length = 1 ∧
          (Node.file reverted).statements = [] := by
  obtain ⟨run, outcome, ending, filesEq⟩ := quickFix_blankFile (File.parse .empty "a.go" blankText).1
  have remaining : (Node.file ((blankFile .assign).reverted ["embed"])).statements = [] := by
    have none : withoutDiscards (Node.file (blankFile .assign)).statements = [] := by
      rw [statements_blankFile]
      rfl
    have same : (Node.file ((blankFile .assign).reverted ["embed"])).statements.map Stmt.pare = _ :=
      File.statements_reverted _
    rw [none] at same
    exact List.map_eq_nil_iff.mp same
  rw [statements_blankFile, statements_blankFile]
  refine ⟨readInto_blankFile, by decide, run, outcome, ending, filesEq, ⟨_, List.mem_cons_self,
    by decide⟩, _, by rw [filesEq]; rfl, rfl, remaining⟩

/-- The run over the file removes no other statement than the one whose `:=` it replaced. -/
theorem ReadInto.revertFixes_removes_blankFile :
    ReadInto (File.parse .empty "a.go" blankText).1 [blankFile .define] ∧
      (∀ file ∈ [blankFile .define], ∀ step ∈ (Node.file file).statements, ¬step.isDiscardRead) ∧
      ∃ run, quickFix (.scopeCheck []) .standard (File.parse .empty "a.go" blankText).1 2
          [blankFile .define] = .ok run ∧
        ∃ fixed reverted, run.files[0]? = some fixed ∧
          (revertFixes ["embed"] run.files).files[0]? = some reverted ∧
          TakenBack (blankFile .define) fixed reverted := by
  have noReads : ∀ file ∈ [blankFile .define], ∀ step ∈ (Node.file file).statements,
      ¬step.isDiscardRead := by
    rintro file isFile
    obtain rfl := List.mem_singleton.mp isFile
    rw [statements_blankFile]
    decide
  obtain ⟨run, outcome, -, -⟩ := quickFix_blankFile (File.parse .empty "a.go" blankText).1
  exact ⟨readInto_blankFile, noReads, run, outcome,
    readInto_blankFile.revertFixes_removes noReads outcome ["embed"] rfl⟩

end GoMend
