import GoMend.Proofs.Fix.Erasure

/-!
# The normal form

Taking fixes back once is enough: what is left of a file holds no discard reads in its lists and no
blank imports that are not to be kept, and taking fixes back again changes nothing.
-/

namespace GoMend

open Node

/-! ### Imports -/

section Imports

variable {keep : List String} {comments : List Comment}

theorem ImportSpec.isRestored_restored (spec : ImportSpec) :
    (spec.restored keep).isRestored keep = false := by
  unfold restored
  split
  · rfl
  · next kept => exact Bool.eq_false_iff.mpr kept

theorem ImportSpec.restored_restored (spec : ImportSpec) :
    (spec.restored keep).restored keep = spec.restored keep := by
  rw [restored, if_neg (Bool.eq_false_iff.mp spec.isRestored_restored)]

theorem Spec.restored_restored (item : Spec) :
    (item.restored keep).restored keep = item.restored keep := by
  cases item with
  | importSpec spec => exact congrArg Spec.importSpec spec.restored_restored
  | _ => rfl

theorem Decl.restored_restored (item : Decl) :
    (item.restored keep).restored keep = item.restored keep := by
  cases item with
  | func decl => rfl
  | gen decl => simp [restored, Function.comp_def, Spec.restored_restored]

theorem Decl.imports_restored (item : Decl) :
    (item.restored keep).imports = item.imports.map (ImportSpec.restored keep) := by
  cases item with
  | func decl => rfl
  | gen decl =>
      simp only [restored, imports, List.filterMap_map, List.map_filterMap]
      refine List.filterMap_congr fun item _ => ?_
      cases item <;> rfl

/-- Removing discard reads leaves an import alone, and makes none. -/
theorem Spec.import?_changeAll (item : Spec) :
    (Slot.spec.changeAll (Node.withoutReads comments) item).import? = item.import? := by
  have changed := Slot.spec.wrap_changeAll (sort_withoutReads comments) item
  have resembles := (withChildren_resembles
    (map_sort_changeAll (sort_withoutReads comments) (Node.spec item).children)).1
  cases item with
  | importSpec spec =>
      have same : (Node.spec (.importSpec spec)).changeAll (Node.withoutReads comments) =
          .spec (.importSpec spec) := by
        refine changeAll_of_none ?_
        rw [lists_importSpec]
        exact List.forall_mem_nil _
      rw [← Node.spec.inj (same.symm.trans changed)]
  | valueSpec span names type values =>
      rw [changeAll_eq] at changed
      generalize Node.withChildren _ _ = other at changed resembles
      cases resembles
      rw [← Node.spec.inj changed]
      rfl
  | typeSpec span name type isAlias =>
      rw [changeAll_eq] at changed
      generalize Node.withChildren _ _ = other at changed resembles
      cases resembles
      rw [← Node.spec.inj changed]
      rfl

theorem Decl.imports_changeAll (item : Decl) :
    (Slot.decl.changeAll (Node.withoutReads comments) item).imports = item.imports := by
  cases item with
  | gen decl =>
      obtain ⟨span, tok, specs, grouped⟩ := decl
      rw [Slot.decl.changeAll_eq (changeAll_genDecl (sort_withoutReads comments) ..)]
      simp only [imports, List.filterMap_map]
      exact List.filterMap_congr fun item _ => item.import?_changeAll
  | func decl =>
      have changed := Slot.decl.wrap_changeAll (sort_withoutReads comments) (.func decl)
      have sortEq := sort_changeAll (sort_withoutReads comments) (.decl (.func decl))
      rw [changed] at sortEq
      generalize Slot.decl.changeAll (Node.withoutReads comments) (.func decl) = other at sortEq
      cases other with
      | func other => rfl
      | gen other => cases sortEq

theorem File.imports_reverted (file : File) :
    (file.reverted keep).imports = file.imports.map (ImportSpec.restored keep) := by
  rw [reverted_eq, imports, imports, List.map_flatMap, List.map_map, List.flatMap_map]
  refine List.flatMap_congr fun item _ => ?_
  rw [Function.comp_apply, Decl.imports_restored, Decl.imports_changeAll]

end Imports

/-! ### Files -/

namespace File

/-- The number of statements in the lists of a file and of blank imports. -/
def removable (file : File) : Nat :=
  (Node.file file).statements.length + file.imports.countP (·.isBlank)

/-- What taking fixes back makes of a file. -/
structure NormalForm (keep : List String) (file reverted : File) : Prop where
  noReads : ∀ entry ∈ (Node.file reverted).stmtLists, ∀ step ∈ entry.2, step.isDiscardRead = false
  noBlanks : ∀ spec ∈ reverted.imports, spec.isBlank → spec.plainPath ∈ keep
  /-- Every list keeps its other statements in their order. -/
  lists_eq : (Node.file reverted).lists.map (List.map Stmt.pare) =
    (Node.file file).lists.map fun stmts => (withoutDiscards stmts).map Stmt.pare
  imports_eq : reverted.imports = file.imports.map fun spec =>
    if spec.isBlank ∧ spec.plainPath ∉ keep then { spec with name := none } else spec

variable {keep : List String} (file : File)

theorem noReads_reverted : ∀ stmts ∈ (Node.file (file.reverted keep)).lists, ∀ step ∈ stmts,
    step.isDiscardRead = false := by
  have kept : (Node.file (file.reverted keep)).lists.map (List.map Stmt.isDiscardRead) =
      (Node.file file).lists.map fun stmts => (withoutDiscards stmts).map Stmt.isDiscardRead :=
    lists_reverted Stmt.isDiscardRead_withStop (fun _ => Stmt.isDiscardRead_cleared) file
  intro stmts isList step isStep
  have views : stmts.map Stmt.isDiscardRead ∈
      (Node.file (file.reverted keep)).lists.map (List.map Stmt.isDiscardRead) :=
    List.mem_map_of_mem isList
  rw [kept] at views
  obtain ⟨olds, -, viewsEq⟩ := List.mem_map.mp views
  have isView : step.isDiscardRead ∈ stmts.map Stmt.isDiscardRead := List.mem_map_of_mem isStep
  rw [← viewsEq] at isView
  obtain ⟨old, isOld, viewEq⟩ := List.mem_map.mp isView
  rw [← viewEq]
  simpa using (List.mem_filter.mp isOld).2

theorem reverted_normalForm : NormalForm keep file (file.reverted keep) where
  noReads entry isEntry := file.noReads_reverted entry.2 (List.mem_map_of_mem isEntry)
  noBlanks spec isSpec isBlank := by
    rw [imports_reverted] at isSpec
    obtain ⟨old, -, rfl⟩ := List.mem_map.mp isSpec
    have kept : (old.restored keep).isRestored keep = false := old.isRestored_restored
    rw [ImportSpec.isRestored, isBlank] at kept
    simpa using kept
  lists_eq := lists_reverted pared_erases.stmt_withStop (fun _ => pared_erases.stmt_cleared) file
  imports_eq := by
    rw [imports_reverted]
    refine List.map_congr_left fun spec _ => ?_
    simp [ImportSpec.restored, ImportSpec.isRestored]

theorem reverted_reverted : (file.reverted keep).reverted keep = file.reverted keep := by
  have commentsEq : (file.reverted keep).comments = file.comments := by rw [reverted_eq]
  have cleared := @changeAll_of_none file.comments _ (@noReads_reverted keep file)
  rw [changeAll_withoutReads] at cleared
  have declsEq : (file.reverted keep).decls.map
      (Slot.decl.changeAll (Node.withoutReads file.comments)) = (file.reverted keep).decls :=
    congrArg File.decls (Node.file.inj cleared)
  rw [reverted_eq keep (file.reverted keep), commentsEq, declsEq]
  have restoredAgain : (file.reverted keep).decls.map (Decl.restored keep) =
      (file.reverted keep).decls := by
    rw [reverted_eq, List.map_map]
    exact List.map_congr_left fun item _ => item.restored_restored
  rw [restoredAgain, ← commentsEq]

theorem readCount_eq : file.readCount = (Node.file file).statements.countP Stmt.isDiscardRead := by
  rw [readCount, statements]
  induction (Node.file file).stmtLists with
  | nil => rfl
  | cons entry rest ih => rw [List.map_cons, total_cons, ih, List.flatMap_cons, List.countP_append]

theorem readCount_reverted : (file.reverted keep).readCount = 0 := by
  rw [readCount_eq, statements_eq_flatten, List.countP_eq_zero]
  intro step isStep
  obtain ⟨stmts, isList, isStep⟩ := List.mem_flatten.mp isStep
  rw [file.noReads_reverted stmts isList step isStep]
  exact Bool.false_ne_true

theorem restoredCount_reverted : (file.reverted keep).restoredCount keep = 0 := by
  rw [restoredCount, imports_reverted, List.countP_eq_zero]
  intro spec isSpec
  obtain ⟨old, -, rfl⟩ := List.mem_map.mp isSpec
  rw [old.isRestored_restored]
  exact Bool.false_ne_true

/-- The statements that are gone are the discard reads. -/
theorem readCount_add_statements :
    file.readCount + (Node.file (file.reverted keep)).statements.length =
      (Node.file file).statements.length := by
  have kept := map_statements_of_lists (@lists_reverted keep Unit (fun _ => ())
    (fun _ _ => rfl) (fun _ _ => rfl) file)
  have lengthEq := congrArg List.length kept
  rw [List.length_map, List.length_map, withoutDiscards, ← List.countP_eq_length_filter] at lengthEq
  rw [lengthEq, readCount_eq, List.length_eq_countP_add_countP Stmt.isDiscardRead]
  simp

/-- The blank imports that are gone are those that were restored. -/
theorem restoredCount_add_blanks :
    file.restoredCount keep + (file.reverted keep).imports.countP (·.isBlank) =
      file.imports.countP (·.isBlank) := by
  rw [restoredCount, imports_reverted]
  induction file.imports with
  | nil => rfl
  | cons spec rest ih =>
      rw [List.map_cons, List.countP_cons, List.countP_cons, List.countP_cons, ← ih]
      cases isRestored : spec.isRestored keep with
      | true =>
          have isBlank : spec.isBlank = true := (Bool.and_eq_true_iff.mp isRestored).1
          have unnamed : (spec.restored keep).isBlank = false := by
            rw [ImportSpec.restored, if_pos isRestored]
            rfl
          rw [isBlank, unnamed]
          simp only [if_true, Bool.false_eq_true, if_false]
          omega
      | false =>
          rw [ImportSpec.restored, isRestored]
          simp only [Bool.false_eq_true, if_false]
          omega

end File

section Counts

variable (keep : List String) (files : List File)

/-- What is counted is what is gone. -/
theorem count_add_removable :
    (revertFixes keep files).count + total ((files.map (·.reverted keep)).map File.removable) =
      total (files.map File.removable) := by
  unfold revertFixes
  induction files with
  | nil => rfl
  | cons file files ih =>
      have reads := @File.readCount_add_statements keep file
      have blanks := @File.restoredCount_add_blanks keep file
      simp only [List.map_cons, total_cons, File.removable] at ih ⊢
      omega

/-- Nothing is counted when fixes are taken back again. -/
theorem count_reverted : (revertFixes keep (files.map (·.reverted keep))).count = 0 := by
  unfold revertFixes
  induction files with
  | nil => rfl
  | cons file files ih =>
      simp only [List.map_cons, total_cons, File.readCount_reverted, File.restoredCount_reverted,
        Nat.zero_add] at ih ⊢
      exact ih

end Counts

/-- Taking fixes back reaches the normal form of every file, counts the statements and the blank
imports that are gone, and has nothing to do when it is done again. -/
theorem revertFixes_normal (keep : List String) (files : List File) :
    let result := revertFixes keep files
    List.Forall₂ (File.NormalForm keep) files result.files ∧
      result.count + total (result.files.map File.removable) = total (files.map File.removable) ∧
      (revertFixes keep result.files).count = 0 ∧
      (revertFixes keep result.files).files = result.files := by
  refine ⟨?_, count_add_removable keep files, count_reverted keep files, ?_⟩
  · exact List.forall₂_map_right_iff.mpr
      (List.forall₂_same.mpr fun file _ => file.reverted_normalForm)
  · show (files.map (·.reverted keep)).map (·.reverted keep) = files.map (·.reverted keep)
    rw [List.map_map]
    exact List.map_congr_left fun file _ => file.reverted_reverted

end GoMend
