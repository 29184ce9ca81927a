import GoMend.Proofs.Check.Relocate
import GoMend.Proofs.Diagnostic.Order
import GoMend.Proofs.Grammar.Moved

/-!
# What is found in each file of a package

Whatever is found in a file stands in the file.  So the files of a package share out the findings of
the package, and the share of a file depends on the file, on the names that are known in the package,
and on those of them that the files before it declare.
-/

namespace GoMend

/-! ### The positions of findings -/

section

variable (place : Pos → Pos)

@[simp]
theorem relocatedFindings_append (first second : List (Finding × Pos)) :
    relocatedFindings place (first ++ second) =
      relocatedFindings place first ++ relocatedFindings place second :=
  List.map_append

theorem FileFindings.all_relocated (part : FileFindings) :
    (part.relocated place).all = relocatedFindings place part.all := by
  simp [FileFindings.all, FileFindings.relocated]

/-- Names that are declared elsewhere. -/
def relocatedDeclarations (declarations : List (Ident × ObjectKind)) : List (Ident × ObjectKind) :=
  declarations.map fun declaration => (declaration.1.relocated place, declaration.2)

theorem Decl.declarations_relocated (item : Decl) :
    (item.relocated place).declarations = relocatedDeclarations place item.declarations := by
  have ofSpec (tok : Token) (item : Spec) :
      (item.relocated place).declarations tok = relocatedDeclarations place (item.declarations tok) := by
    cases item <;> simp [Spec.declarations, relocatedDeclarations, Function.comp_def]
  cases item with
  | gen item =>
      simp [Decl.declarations, relocatedDeclarations, List.flatMap_map, List.map_flatMap, ofSpec]
  | func item =>
      obtain ⟨span, recv, name, type, body⟩ := item
      cases recv <;> by_cases isInit : name.name = "init" <;>
        simp [Decl.declarations, FuncDecl.relocated, relocatedDeclarations, isInit]

theorem File.declarations_relocated (file : File) :
    (file.relocated place).declarations = relocatedDeclarations place file.declarations := by
  simp [File.declarations, File.relocated, relocatedDeclarations, List.flatMap_map, List.map_flatMap,
    Decl.declarations_relocated]

theorem declaredNames_relocated (declarations : List (Ident × ObjectKind)) :
    declaredNames (relocatedDeclarations place declarations) = declaredNames declarations := by
  simp [declaredNames, relocatedDeclarations, List.filter_map, Function.comp_def]

@[simp]
theorem File.packageNames_relocated (file : File) :
    (file.relocated place).packageNames = file.packageNames := by
  rw [packageNames, packageNames, declarations_relocated, declaredNames_relocated]

theorem redeclared_relocated (taken : List String) (declarations : List (Ident × ObjectKind)) :
    redeclared taken (relocatedDeclarations place declarations) =
      relocatedFindings place (redeclared taken declarations) := by
  induction declarations generalizing taken with
  | nil => rfl
  | cons declaration declarations ih =>
      obtain ⟨ident, kind⟩ := declaration
      simp only [relocatedDeclarations] at ih
      simp only [relocatedDeclarations, List.map_cons, redeclared, Ident.isBlank_relocated,
        Ident.name_relocated, ih, apply_ite (relocatedFindings place)]
      rfl

end

/-! ### The findings of one file -/

/-- Everything that is found in a file of a package, in the order in which a check of the file finds
it, when some names of the package are declared before the file. -/
def File.shareOf (taken : List String) (file : File) (part : FileFindings) : List (Finding × Pos) :=
  redeclared taken file.declarations ++ part.all

/-- The check of a file looks at its declarations alone. -/
theorem Node.events_file_congr {first second : File} (same : first.decls = second.decls) :
    (Node.file first).events .file = (Node.file second).events .file := by
  obtain ⟨span, name, package, decls, comments⟩ := first
  obtain ⟨span', name', package', decls', comments'⟩ := second
  obtain rfl : decls = decls' := same
  have childEq (index : Nat) :
      (Node.file ⟨span, name, package, decls, comments⟩).children[index + 1]? =
        (Node.file ⟨span', name', package', decls, comments'⟩).children[index + 1]? :=
    rfl
  rw [events_eq, events_eq]
  refine List.flatMap_congr fun step isStep => ?_
  cases step with
  | event happens => rfl
  | visit mode index =>
      have positive : 1 ≤ index := by
        simp only [plan, List.cons_append, List.mem_cons, List.mem_append, PlanStep.visit_mem_visits,
          reduceCtorEq, List.not_mem_nil, false_or, or_false] at isStep
        lia
      obtain ⟨index, rfl⟩ := Nat.exists_eq_succ_of_ne_zero (Nat.ne_of_gt positive)
      simp only [PlanStep.events, Nat.succ_eq_add_one, childEq]

namespace File

variable {packageName : String → String} {names taken : List String} {file : File}
  {part : FileFindings} {place : Pos → Pos}

theorem owns_iff {pos : Pos} : file.owns pos ↔ file.span.start ≤ pos ∧ pos < file.span.stop := by
  simp [owns]

theorem owns_noPos (begins : 0 < file.span.start) : file.owns noPos = false := by
  rw [Bool.eq_false_iff, ne_eq, owns_iff, noPos]
  lia

/-- The findings of a file at other positions are its findings at these positions. -/
theorem shareOf_relocated (taken : List String) (file : File) (part : FileFindings) :
    (file.relocated place).shareOf taken (part.relocated place) =
      relocatedFindings place (file.shareOf taken part) := by
  rw [shareOf, shareOf, declarations_relocated, redeclared_relocated, FileFindings.all_relocated,
    relocatedFindings_append]

/-- Everything that is found in a settled file stands in it, or nowhere. -/
theorem IsSettled.owns_of_mem (settled : file.IsSettled)
    (found : file.findings packageName names = .ok part) {finding : Finding} {pos : Pos}
    (isFound : (finding, pos) ∈ file.shareOf taken part) : pos = noPos ∨ file.owns pos := by
  have hasRoom := settled.hasRoom
  -- The positions of the declarations stay what they are when they are kept in the file.
  let keep := clamp (file.span.start + 1) (file.span.stop - 1)
  have declsEq : (file.relocated keep).decls = file.decls := settled.decls
  have partEq : part.relocated keep = part := by
    have moved := @File.findings_relocated keep (clamp_noPos _ _) packageName names file
    rw [findings, Node.events_file_congr declsEq, ← findings, found] at moved
    exact (Except.ok.inj moved).symm
  have shareEq := @shareOf_relocated keep taken file part
  rw [partEq, shareOf, declarations, declsEq, ← declarations, ← shareOf] at shareEq
  have kept : keep pos = pos := by
    have each := List.map_inj_left.mp (shareEq.symm.trans (List.map_id _).symm) _ isFound
    exact congrArg Prod.snd each
  by_cases present : pos = noPos
  · exact .inl present
  · simp only [keep, clamp, if_neg present] at kept
    refine .inr (owns_iff.mpr ?_)
    lia

end File

/-! ### Shares -/

/-- No position belongs to two of the files. -/
def FilesApart (files : List File) : Prop :=
  files.Pairwise fun first second => ∀ pos, first.owns pos → second.owns pos = false

/-- Settled files of one package, in any order. -/
structure SettledFiles (files : List File) : Prop where
  settled : ∀ file ∈ files, file.IsSettled
  apart : FilesApart files

/-- No finding of a file is picked out. -/
def File.IsSilent (keep : Finding × Pos → Bool) (file : File) (part : FileFindings) : Prop :=
  ∀ taken, (file.shareOf taken part).filter keep = []

section

variable {keep : Finding × Pos → Bool} {packageName : String → String} {names : List String}
  {files before after : List File} {parts partsBefore partsAfter : List FileFindings}

theorem filter_redeclared_of_silent
    (silent : List.Forall₂ (File.IsSilent keep) files parts) (taken : List String) :
    (redeclared taken (files.flatMap File.declarations)).filter keep = [] := by
  induction silent generalizing taken with
  | nil => rfl
  | cons first others ih =>
      have nothing := first taken
      rw [File.shareOf, List.filter_append, List.append_eq_nil_iff] at nothing
      rw [List.flatMap_cons, redeclared_append, List.filter_append, nothing.1, ih, List.nil_append]

theorem filter_join_of_silent (silent : List.Forall₂ (File.IsSilent keep) files parts) :
    (FileFindings.join parts).noted.filter keep = [] ∧
      (FileFindings.join parts).locals.filter keep = [] ∧
      (FileFindings.join parts).imports.filter keep = [] := by
  induction silent with
  | nil => exact ⟨rfl, rfl, rfl⟩
  | cons first others ih =>
      have nothing := first []
      simp only [File.shareOf, FileFindings.all, List.filter_append, List.append_eq_nil_iff] at nothing
      simp only [FileFindings.join] at ih
      simp only [FileFindings.join, List.flatMap_cons, List.filter_append, nothing, ih, List.append_nil,
        and_self]

/-- What is picked out of the findings of a package, when it all belongs to one file. -/
theorem filter_joinFindings (file : File) (part : FileFindings)
    (beforeSilent : List.Forall₂ (File.IsSilent keep) before partsBefore)
    (afterSilent : List.Forall₂ (File.IsSilent keep) after partsAfter) :
    (joinFindings (before ++ file :: after) (partsBefore ++ part :: partsAfter)).filter keep =
      (file.shareOf (before.flatMap File.packageNames) part).filter keep := by
  have joinEq : FileFindings.join (partsBefore ++ part :: partsAfter) =
      (FileFindings.join partsBefore).append (part.append (FileFindings.join partsAfter)) := by
    simp [FileFindings.join, FileFindings.append]
  obtain ⟨notedBefore, localsBefore, importsBefore⟩ := filter_join_of_silent beforeSilent
  obtain ⟨notedAfter, localsAfter, importsAfter⟩ := filter_join_of_silent afterSilent
  rw [joinFindings, File.shareOf, joinEq, List.flatMap_append, List.flatMap_cons, redeclared_append,
    redeclared_append, declaredNames_flatMap]
  simp only [FileFindings.append, FileFindings.all, List.filter_append,
    filter_redeclared_of_silent beforeSilent, filter_redeclared_of_silent afterSilent, notedBefore,
    notedAfter, localsBefore, localsAfter, importsBefore, importsAfter, List.append_nil,
    List.nil_append]

end

/-- The diagnostics of a file of a package, when some names of the package are declared before the
file. -/
def File.ownDiagnostics (taken : List String) (file : File) (part : FileFindings) :
    List Diagnostic :=
  Diagnostic.sorted (((file.shareOf taken part).filter fun finding => file.owns finding.2).map
    fun finding => finding.1.diagnostic finding.2)

namespace SettledFiles

variable {packageName : String → String} {names : List String} {files before after : List File}
  {file : File} {parts : List FileFindings}

/-- A settled file finds nothing in another one. -/
theorem silent (package : SettledFiles files) (isFile : file ∈ files)
    (founds : FilesFindings packageName names before parts)
    (areOthers : ∀ other ∈ before, other.IsSettled ∧ ∀ pos, file.owns pos → other.owns pos = false) :
    List.Forall₂ (File.IsSilent fun finding => file.owns finding.2) before parts := by
  have positive := (package.settled file isFile).begins
  induction founds with
  | nil => exact .nil
  | cons found others ih =>
      obtain ⟨⟨settled, apart⟩, rest⟩ := List.forall_mem_cons.mp areOthers
      refine .cons (fun taken => List.filter_eq_nil_iff.mpr fun finding isFound owns => ?_) (ih rest)
      rcases settled.owns_of_mem found isFound with absent | inOther
      · simp [absent, File.owns_noPos positive] at owns
      · rw [apart _ owns] at inOther
        cases inOther

end SettledFiles

/-- The findings of some files, one of which is singled out. -/
theorem FilesFindings.exists_part {packageName : String → String} {names : List String}
    {before after : List File} {file : File} {parts : List FileFindings}
    (founds : FilesFindings packageName names (before ++ file :: after) parts) :
    ∃ partsBefore part partsAfter, parts = partsBefore ++ part :: partsAfter ∧
      FilesFindings packageName names before partsBefore ∧
      file.findings packageName names = .ok part ∧
      FilesFindings packageName names after partsAfter := by
  induction before generalizing parts with
  | nil =>
      obtain ⟨part, partsAfter, found, others, rfl⟩ := List.forall₂_cons_left_iff.mp founds
      exact ⟨[], part, partsAfter, rfl, .nil, found, others⟩
  | cons first before ih =>
      obtain ⟨firstPart, rest, firstFound, others, rfl⟩ := List.forall₂_cons_left_iff.mp founds
      obtain ⟨partsBefore, part, partsAfter, rfl, beforeFounds, found, afterFounds⟩ := ih others
      exact ⟨firstPart :: partsBefore, part, partsAfter, rfl, .cons firstFound beforeFounds, found,
        afterFounds⟩

/-- The diagnostics of a package are its findings in their order. -/
theorem exists_findings_of_checked {packageName : String → String} {files : List File}
    {diagnostics : List Diagnostic} (checked : checkPackage packageName files = .ok diagnostics) :
    ∃ parts, FilesFindings packageName (files.flatMap File.packageNames) files parts ∧
      diagnostics = Diagnostic.sorted
        ((joinFindings files parts).map fun finding => finding.1.diagnostic finding.2) := by
  rw [checkPackage] at checked
  cases outcome : packageFindings packageName files with
  | error error =>
      rw [outcome] at checked
      cases checked
  | ok findings =>
      rw [outcome] at checked
      obtain ⟨parts, founds, rfl⟩ := exists_filesFindings outcome
      exact ⟨parts, founds, (Except.ok.inj checked).symm⟩

/-- The diagnostics of a package that stand in one of its files are those of this file. -/
theorem SettledFiles.filter_diagnostics {packageName : String → String} {before after : List File}
    {file : File} (package : SettledFiles (before ++ file :: after)) {diagnostics : List Diagnostic}
    (checked : checkPackage packageName (before ++ file :: after) = .ok diagnostics) :
    ∃ part, file.findings packageName ((before ++ file :: after).flatMap File.packageNames) = .ok part ∧
      diagnostics.filter (fun diagnostic => file.owns diagnostic.pos) =
        file.ownDiagnostics (before.flatMap File.packageNames) part := by
  obtain ⟨parts, founds, rfl⟩ := exists_findings_of_checked checked
  obtain ⟨partsBefore, part, partsAfter, rfl, beforeFounds, found, afterFounds⟩ := founds.exists_part
  obtain ⟨-, restApart, acrossApart⟩ := List.pairwise_append.mp package.apart
  have isFile : file ∈ before ++ file :: after := by simp
  have beforeSilent := package.silent isFile beforeFounds fun other isOther =>
    ⟨package.settled other (List.mem_append_left _ isOther), fun pos owns => by
      by_contra inOther
      have apart := acrossApart other isOther file List.mem_cons_self pos (by simpa using inOther)
      rw [owns] at apart
      cases apart⟩
  have afterSilent := package.silent isFile afterFounds fun other isOther =>
    ⟨package.settled other (by simp [isOther]), (List.pairwise_cons.mp restApart).1 other isOther⟩
  refine ⟨part, found, ?_⟩
  rw [File.ownDiagnostics, ← filter_joinFindings file part beforeSilent afterSilent,
    Diagnostic.filter_sorted, List.filter_map]
  rfl

end GoMend
