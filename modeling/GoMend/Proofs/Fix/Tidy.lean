import GoMend.Proofs.Fix.Relocate
import GoMend.Proofs.Fix.Session
import GoMend.Proofs.Fix.Straight
import GoMend.Proofs.Layout.Words

/-!
# Mended files are printed tidily

Fixes add discard reads of variables and blank names, whose names are lines, and take nothing away.
Taking fixes back only removes statements and names.  So the names and literals of a file stay lines
through a whole session, and its comments stay what they are.
-/

namespace GoMend

open Node

namespace Node

variable {new old : Node}

theorem Resembles.writesLine (resembles : Resembles old new) (writes : old.WritesLine) :
    new.WritesLine := by
  cases resembles with
  | ident | lit => exact writes
  | valueSpec span sameNames =>
      exact fun isEmpty => writes (List.length_eq_zero_iff.mp (sameNames ▸ isEmpty ▸ rfl))
  | _ => trivial

/-- Nodes of one form write lines when what stands in the same places does. -/
theorem Congruence.worded :
    Congruence fun new old => new.sort = old.sort ∧ (Worded old → Worded new) where
  refl _ := ⟨rfl, id⟩
  sort_eq := And.left
  parts {new old} resembles related := by
    refine ⟨resembles.sort_eq, fun worded => .node (resembles.writesLine worded.own) ?_⟩
    intro child isChild
    obtain ⟨index, isNew, rfl⟩ := List.getElem_of_mem isChild
    have isOld : index < old.children.length := related.length_eq ▸ isNew
    exact (related.get isNew isOld).2 (worded.child (List.getElem_mem isOld))

/-! ### What fixes add -/

theorem worded_ident {name : Ident} (isLine : Layout.IsLine name.name.toList) : Worded (ident name) :=
  .node isLine (by rintro _ ⟨⟩)

theorem worded_blank : Worded (ident { name := "_" }) :=
  worded_ident (Layout.isLine_plain "_" rfl rfl)

theorem worded_discardRead {name : String} (isLine : Layout.IsLine name.toList) :
    Worded (stmt (.discardRead name)) :=
  .node trivial (List.forall_mem_cons.mpr
    ⟨worded_blank, List.forall_mem_singleton.mpr (worded_ident isLine)⟩)

theorem worded_missing {name : String} (isLine : Layout.IsLine name.toList) :
    Worded (block (Block.missing.append (.discardRead name))) :=
  .node trivial (List.forall_mem_singleton.mpr (worded_discardRead isLine))

/-- A statement that got one more child. -/
theorem worded_of_append {step changed : Stmt} {added : Node} (addedWorded : Worded added)
    (childrenEq : (stmt changed).children = (stmt step).children ++ [added])
    (worded : Worded (stmt step)) : Worded (stmt changed) := by
  refine .node trivial ?_
  rw [childrenEq]
  exact List.forall_mem_append.mpr
    ⟨fun _ => worded.child, List.forall_mem_singleton.mpr addedWorded⟩

/-- A statement in which a `:=` was replaced. -/
theorem worded_withoutDefine {step changed : Stmt} (replaced : step.withoutDefine? = some changed) :
    (stmt changed).sort = (stmt step).sort ∧ (Worded (stmt step) → Worded (stmt changed)) := by
  unfold Stmt.withoutDefine? at replaced
  split at replaced
  · obtain rfl := Option.some.inj replaced
    exact ⟨rfl, fun worded => .node trivial fun _ => worded.child⟩
  · obtain rfl := Option.some.inj replaced
    exact ⟨rfl, fun worded => .node trivial fun _ => worded.child⟩
  · cases replaced

/-- An import that got another name or lost its name. -/
theorem worded_importSpec (spec : ImportSpec) {name : Option Ident}
    (names : ∀ given ∈ name.toList, Worded (ident given)) :
    (Node.spec (.importSpec { spec with name })).sort = (Node.spec (.importSpec spec)).sort ∧
      (Worded (.spec (.importSpec spec)) → Worded (.spec (.importSpec { spec with name }))) := by
  refine ⟨rfl, fun worded => .node trivial ?_⟩
  exact List.forall_mem_append.mpr ⟨List.forall_mem_map.mpr names,
    List.forall_mem_singleton.mpr (worded.child (List.mem_append_right _ (List.mem_singleton_self _)))⟩

/-! ### Lists without discard reads -/

theorem worded_takeOver (comments : List Comment) (removed : Span) {last : Stmt}
    (worded : Worded (stmt last)) : Worded (stmt (last.takeOver comments removed)) := by
  unfold Stmt.takeOver
  split
  · refine .node trivial ?_
    rw [last.children_withStop]
    exact fun _ => worded.child
  · exact worded

theorem worded_mem_withoutReads (comments : List Comment) (opening : Pos) {kept rest : List Stmt}
    (keptWorded : ∀ step ∈ kept, Worded (stmt step)) (restWorded : ∀ step ∈ rest, Worded (stmt step)) :
    ∀ step ∈ (GoMend.withoutReads comments opening kept rest).2, Worded (stmt step) := by
  induction rest generalizing opening kept with
  | nil => simpa [GoMend.withoutReads] using keptWorded
  | cons step rest ih =>
      obtain ⟨stepWorded, others⟩ := List.forall_mem_cons.mp restWorded
      unfold GoMend.withoutReads
      split
      · exact ih opening (List.forall_mem_cons.mpr ⟨stepWorded, keptWorded⟩) others
      split
      · exact ih opening keptWorded others
      cases kept with
      | nil => exact ih _ keptWorded others
      | cons last earlier =>
          obtain ⟨lastWorded, earlierWorded⟩ := List.forall_mem_cons.mp keptWorded
          exact ih opening (List.forall_mem_cons.mpr
            ⟨worded_takeOver comments step.span lastWorded, earlierWorded⟩) others

/-- A node without the discard reads of its list. -/
theorem worded_withoutReads (comments : List Comment) {node : Node} (worded : Worded node) :
    Worded (node.withoutReads comments) := by
  have stripped {opening : Pos} {heads : List Node} {stmts : List Stmt} {step changed : Stmt}
      (worded : Worded (stmt step)) (oldChildren : (stmt step).children = heads ++ stmts.map stmt)
      (newChildren : (stmt changed).children =
        heads ++ (GoMend.withoutReads comments opening [] stmts).2.map stmt) : Worded (stmt changed) := by
    have olds : ∀ child ∈ heads ++ stmts.map stmt, Worded child := oldChildren ▸ fun _ => worded.child
    obtain ⟨headsWorded, stmtsWorded⟩ := List.forall_mem_append.mp olds
    refine .node trivial ?_
    rw [newChildren]
    exact List.forall_mem_append.mpr ⟨headsWorded, List.forall_mem_map.mpr
      (worded_mem_withoutReads comments opening (by simp) (List.forall_mem_map.mp stmtsWorded))⟩
  unfold withoutReads
  split
  · exact @stripped _ [] _ _ _ worded rfl rfl
  · exact stripped worded rfl rfl
  · exact stripped worded rfl rfl
  · exact worded

/-- A tree without its discard reads. -/
theorem worded_changeAll (comments : List Comment) {node : Node} (worded : Worded node) :
    Worded (node.changeAll (withoutReads comments)) := by
  induction worded with
  | @node node own children ih =>
      have keepsSort := sort_withoutReads comments
      obtain ⟨resembles, childrenEq⟩ :=
        withChildren_resembles (map_sort_changeAll keepsSort node.children)
      rw [changeAll_eq]
      refine worded_withoutReads comments (.node (resembles.writesLine own) ?_)
      rw [childrenEq]
      exact List.forall_mem_map.mpr ih

end Node

/-! ### Files -/

theorem Shape.isGraphic_of_isWordChar {char : Char} (isWord : isWordChar char) : IsGraphic char := by
  simp only [isWordChar, Char.isAlphanum, Bool.or_eq_true, decide_eq_true_eq] at isWord
  obtain (isAlpha | isDigit) | rfl := isWord
  · exact .of_isAlpha isAlpha
  · exact .of_isDigit isDigit
  · exact ⟨by decide, by decide⟩

/-- The name of an unused variable is a line. -/
theorem Diagnostic.isLine_of_shape? {diagnostic : Diagnostic} {name : String}
    (isShape : diagnostic.shape? = some (.unusedVariable name)) : Layout.IsLine name.toList := by
  simp only [shape?, Shape.ofMessage?, Option.orElse_eq_orElse, Option.orElse_eq_or,
    Option.or_eq_some_iff] at isShape
  obtain isShape | ⟨-, isShape | ⟨-, isShape⟩⟩ := isShape
  · simp only [Shape.ofVariableMessage?, Option.bind_eq_bind, Option.bind_eq_some_iff,
      Option.ite_none_right_eq_some, Bool.and_eq_true, Option.some.injEq] at isShape
    obtain ⟨word, -, ⟨notEmpty, isWord⟩, isName⟩ := isShape
    obtain rfl := Shape.unusedVariable.inj isName
    rw [String.toList_ofList]
    have graphic (char : Char) (isChar : char ∈ word) : IsGraphic char :=
      Shape.isGraphic_of_isWordChar (List.all_eq_true.mp isWord char isChar)
    obtain ⟨char, isChar⟩ := List.exists_mem_of_ne_nil word (by simpa using notEmpty)
    exact ⟨fun isBreak => (graphic _ isBreak).ne_lineFeed rfl, char, isChar, (graphic char isChar).notBlank⟩
  · simp only [Shape.ofImportMessage?, Option.bind_eq_bind, Option.bind_eq_some_iff,
      Option.ite_none_right_eq_some] at isShape
    obtain ⟨path, -, -, ⟨⟩⟩ := isShape
  · simp only [Shape.ofDefineMessage?, Option.ite_none_right_eq_some] at isShape
    obtain ⟨-, ⟨⟩⟩ := isShape

namespace File

/-- What stays of the lines of a file through fixes, and when they are taken back. -/
structure KeepsLines (new old : File) : Prop where
  comments_eq : new.comments = old.comments
  worded : (Node.file old).Worded → (Node.file new).Worded

namespace KeepsLines

variable {file edited : File}

theorem refl (file : File) : KeepsLines file file :=
  ⟨rfl, id⟩

theorem trans {new middle old : File} (second : KeepsLines new middle) (first : KeepsLines middle old) :
    KeepsLines new old :=
  ⟨second.comments_eq.trans first.comments_eq, second.worded ∘ first.worded⟩

theorem trans_all {news middles olds : List File}
    (second : List.Forall₂ (fun file now => now.KeepsLines file) middles news)
    (first : List.Forall₂ (fun file now => now.KeepsLines file) olds middles) :
    List.Forall₂ (fun file now => now.KeepsLines file) olds news := by
  induction first generalizing news with
  | nil => exact second
  | cons first _ ih =>
      cases second with
      | cons second others => exact .cons (second.trans first) (ih others)

theorem writesLines {new old : File} (keeps : KeepsLines new old) (writes : old.WritesLines) :
    new.WritesLines :=
  ⟨keeps.worded writes.worded, keeps.comments_eq ▸ writes.comments⟩

/-- A fix for the shape of a diagnostic. -/
theorem of_mend {diagnostic : Diagnostic} {shape : Shape} {chain : List Address} {edit : Edit}
    (isShape : diagnostic.shape? = some shape) (outcome : shape.mend chain file = .ok (edit, edited)) :
    KeepsLines edited file := by
  have congruence := Node.Congruence.worded
  refine ⟨(congrArg File.comments (withTree_of_mend outcome)).symm, ?_⟩
  cases shape with
  | unusedVariable name =>
      have isLine := Diagnostic.isLine_of_shape? isShape
      refine (congruence.toClimbs.addReadAnywhere (fun step changed isOwner appends => ?_)
        (fun step changed noBody appends => ?_) outcome).2
      · obtain ⟨sortEq, -, childrenEq⟩ := children_append isOwner appends
        exact ⟨sortEq, worded_of_append (worded_discardRead isLine) childrenEq⟩
      · cases step with
        | loop span init cond post body | range span key value tok operand body tokPos =>
            obtain rfl : body = none := by simpa [Stmt.hasBody] using noBody
            obtain rfl := Option.some.inj appends
            refine ⟨rfl, worded_of_append (worded_missing isLine) ?_⟩
            simp [children, stmtChildren]
        | _ => cases noBody
  | unusedImport path =>
      refine (congruence.blankImport (fun spec => worded_importSpec spec ?_) outcome).2
      exact List.forall_mem_singleton.mpr worded_blank
  | noNewVariables =>
      exact (congruence.toClimbs.replaceDefine (fun step changed => worded_withoutDefine) outcome).2

/-- Fixes that are taken back. -/
theorem reverted (keep : List String) (file : File) : KeepsLines (file.reverted keep) file := by
  have congruence := Node.Congruence.worded
  refine ⟨by rw [reverted_eq], fun worded => ?_⟩
  have stripped := worded_changeAll file.comments worded
  rw [changeAll_withoutReads] at stripped
  rw [reverted_eq]
  exact (congruence.restored fun spec => worded_importSpec spec (by rintro _ ⟨⟩)).2 stripped

end KeepsLines

end File

theorem Mended.keepsLines {file edited : File} (mended : Mended file edited) :
    edited.KeepsLines file := by
  induction mended with
  | nothing => exact .refl _
  | mend before isShape outcome ih => exact .trans (.of_mend isShape outcome) ih

/-! ### Sessions -/

/-- What quiet files that were read write are lines. -/
theorem ReadInto.writesLines {set : FileSet} {files : List File} (isRead : ReadInto set files) :
    ∀ file ∈ files, file.IsQuiet → file.WritesLines := by
  induction isRead with
  | nothing => simp
  | @file set files name text file before outcome ih =>
      have read := @File.writesLines_of_ofText (.ofText name set.nextBase text) text file
        set.nextBase_pos rfl outcome
      exact List.forall_mem_append.mpr ⟨ih, List.forall_mem_singleton.mpr read⟩
  | other name text before ih => exact ih

namespace SessionStep

variable {set : FileSet} {files : List File}

theorem take_keepsLines {step : SessionStep} {result : SessionResult}
    (taken : step.take set files = .ok result) :
    List.Forall₂ (fun file now => now.KeepsLines file) files result.files := by
  cases step with
  | mend importNames tries =>
      simp only [take, bind, Except.bind] at taken
      split at taken
      · cases taken
      · next run outcome =>
        obtain rfl := Except.ok.inj taken
        exact (quickFix_mended outcome).imp fun _ _ mended => mended.keepsLines
  | revert keep =>
      obtain rfl := Except.ok.inj taken
      exact List.forall₂_map_right_iff.mpr (List.forall₂_same.mpr fun file _ => .reverted keep file)

theorem takeAll_keepsLines {steps : List SessionStep} {results : List SessionResult}
    (taken : takeAll set files steps = .ok results) :
    ∀ result ∈ results, List.Forall₂ (fun file now => now.KeepsLines file) files result.files := by
  induction steps generalizing files results with
  | nil =>
      obtain rfl := Except.ok.inj taken
      simp
  | cons step steps ih =>
      simp only [takeAll, bind, Except.bind] at taken
      split at taken
      · cases taken
      next result firstTaken =>
      split at taken
      · cases taken
      next others othersTaken =>
      obtain rfl := Except.ok.inj taken
      have first := take_keepsLines firstTaken
      exact List.forall_mem_cons.mpr
        ⟨first, fun other isOther => File.KeepsLines.trans_all (ih othersTaken other isOther) first⟩

/-- Every quiet file that was read, and what becomes of it in a session, is printed as a text in which
no line has blanks only, no empty line stands first, last or after another one, and the last line
ends. -/
theorem takeAll_tidy {steps : List SessionStep} (isRead : ReadInto set files)
    (areAllowed : ∀ step ∈ steps, step.isAllowed) :
    ∃ results, takeAll set files steps = .ok results ∧
      ∀ left ∈ files :: results.map (·.files), List.Forall₂ (fun file now =>
        file.IsQuiet → ∀ shown, ∃ text, now.print shown = .ok text ∧ Layout.IsTidy text) files left := by
  obtain ⟨results, taken, -, each⟩ := exists_takeAll (.read isRead) areAllowed
  have printed {left : List File} (reachable : Reachable set left)
      (kept : List.Forall₂ (fun file now => now.KeepsLines file) files left) :
      List.Forall₂ (fun file now => file.IsQuiet →
        ∀ shown, ∃ text, now.print shown = .ok text ∧ Layout.IsTidy text) files left := by
    refine List.forall₂_iff_get.mpr ⟨kept.length_eq, fun index isOld isNew quiet shown => ?_⟩
    obtain ⟨text, printed⟩ :=
      File.print_of_sound (reachable.soundPackage.sound _ (List.getElem_mem isNew)) shown
    have writes := (kept.get isOld isNew).writesLines
      (isRead.writesLines _ (List.getElem_mem isOld) quiet)
    exact ⟨text, printed, writes.print_tidy printed⟩
  refine ⟨results, taken, List.forall_mem_cons.mpr ⟨?_, List.forall_mem_map.mpr fun result isResult => ?_⟩⟩
  · exact printed (.read isRead) (List.forall₂_same.mpr fun file _ => .refl file)
  · obtain ⟨-, reachable, -⟩ := each result isResult
    exact printed reachable (takeAll_keepsLines taken result isResult)

theorem isQuiet_sampleFile : sampleFile.IsQuiet where
  comments := by simp [sampleFile]
  literals := by
    intro literal isLiteral isQuoted
    simp [walk_eq_preorder, preorder_eq, children, declChildren, stmtChildren, exprChildren, block, ident,
      lit, sampleFile] at isLiteral
    obtain rfl | rfl := isLiteral <;> simp at isQuoted

theorem takeAll_tidy_sample :
    let set := (File.parse .empty "a.go" sampleText).1
    ReadInto set [sampleFile] ∧ sampleFile.IsQuiet ∧
      ∃ results, takeAll set [sampleFile] [.mend [] 2, .revert []] = .ok results ∧
        ∀ left ∈ [sampleFile] :: results.map (·.files), ∀ now ∈ left,
          ∃ text, now.print (some set) = .ok text ∧ Layout.IsTidy text := by
  obtain ⟨results, taken, tidy⟩ := @takeAll_tidy _ _ [.mend [] 2, .revert []] readInto_sampleFile (by decide)
  refine ⟨readInto_sampleFile, isQuiet_sampleFile, results, taken, fun left isLeft now isNow => ?_⟩
  cases tidy left isLeft with
  | cons printed others =>
      cases others
      obtain rfl := List.mem_singleton.mp isNow
      exact printed isQuiet_sampleFile _

end SessionStep

end GoMend
