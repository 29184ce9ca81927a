import GoMend.Fix.Pass
import GoMend.Proofs.Check.Runs
import GoMend.Proofs.Check.Visits
import GoMend.Proofs.Diagnostic.Order
import GoMend.Proofs.Diagnostic.Wording
import GoMend.Proofs.Fix.Edit

/-!
# Mending sound packages

What the scope check reports about a sound package and what has a fix stands at a place of one of
its files.  So every such diagnostic is located, and the fixes of a pass leave the package sound:
the nodes around the places stay where they are, whatever the fixes before have added.
-/

namespace GoMend

open Node

/-! ### Where things are found -/

/-- Where a finding stands in a file, as far as there is a fix for it. -/
def Finding.StandsIn (finding : Finding) (pos : Pos) (file : File) : Prop :=
  match finding with
  | .unusedVariable _ | .noNewVariables => ∃ address, Trail pos (.file file) address
  | .unusedImport _ => file.owns pos
  | _ => False

/-- Whether there can be a fix for a finding. -/
def Finding.isMendable : Finding → Bool
  | .unusedVariable _ | .unusedImport _ | .noNewVariables => true
  | _ => false

theorem Finding.isPassing_of_isMendable {finding : Finding} (mendable : finding.isMendable) :
    finding.isPassing = false := by
  cases finding <;> first | rfl | cases mendable

theorem Sound.owns {file : File} {pos : Pos} (sound : Sound .plain (.file file))
    (mem : pos ∈ (Node.file file).places) : file.owns pos := by
  obtain ⟨-, startLe, ltStop⟩ := sound.holds mem
  simpa [File.owns] using ⟨startLe, ltStop⟩

/-- The imports of a sound file begin in its range. -/
theorem Sound.owns_import {file : File} {spec : ImportSpec} (sound : Sound .plain (.file file))
    (isImport : spec ∈ file.imports) : file.owns spec.span.start := by
  obtain ⟨item, isDecl, isImport⟩ := List.mem_flatMap.mp isImport
  have itemSound := sound.decl isDecl
  cases item with
  | func item => cases isImport
  | gen item =>
      obtain ⟨other, isSpec, isImport⟩ := List.mem_filterMap.mp isImport
      cases other with
      | importSpec other =>
          obtain rfl := Option.some.inj isImport
          have specSound := itemSound.spec isSpec
          have filePositioned := sound.isPositioned_of_file
          have itemPositioned := itemSound.isPositioned_of_decl
          have specPositioned : (Node.spec (.importSpec other)).isPositioned := by
            cases specSound with
            | placed stands => exact isPositioned_of_pos stands.positive
          have pathMem : Node.expr (.lit other.path) ∈ (Node.spec (.importSpec other)).children :=
            List.mem_append_right _ List.mem_cons_self
          have pathSound : Sound .plain (.expr (.lit other.path)) :=
            (specSound.of_isPositioned specPositioned).2 (.plain, _) (List.mem_map_of_mem pathMem)
          have pathPositioned : (Node.expr (.lit other.path)).isPositioned := by
            cases pathSound with
            | placed stands => exact isPositioned_of_pos stands.positive
          have specMem : Node.spec (.importSpec other) ∈ (Node.decl (.gen item)).children :=
            List.mem_map_of_mem isSpec
          have itemMem : Node.decl (.gen item) ∈ (Node.file file).children :=
            List.mem_cons_of_mem _ (List.mem_map_of_mem isDecl)
          have pathPlace : other.path.span.start ∈ (Node.expr (.lit other.path)).places := by
            rw [places_eq pathPositioned]
            simp [token?]
          have specPlace := mem_places_of_child specPositioned pathMem pathPlace
          have filePlace := mem_places_of_child filePositioned itemMem
            (mem_places_of_child itemPositioned specMem specPlace)
          have itemInside := (sound.of_isPositioned filePositioned).1.inside _ itemMem
          have specInside := (itemSound.of_isPositioned itemPositioned).1.inside _ specMem
          have startLe := (specSound.holds specPlace).2.1
          have ltStop := (sound.holds filePlace).2.2
          simpa [File.owns] using
            ⟨Int.le_trans itemInside specInside, Int.lt_of_le_of_lt startLe ltStop⟩
      | _ => cases isImport

namespace SoundPackage

variable {files : List File} {packageName : String → String} {after : CheckPoint}

/-- A spot of a check is the place of a token. -/
theorem exists_trail (package : SoundPackage files) {happens : Event} {pos : Pos}
    (isEvent : happens ∈ packageEvents files) (isSpot : happens.spot? = some pos) :
    ∃ file ∈ files, ∃ address, Trail pos (.file file) address := by
  obtain ⟨file, isFile, fits⟩ := package.events_fit happens isEvent
  exact ⟨file, isFile, fits.onTrail pos isSpot⟩

/-- What can be mended stands in one of the files. -/
theorem exists_standsIn (package : SoundPackage files)
    (outcome : Event.run packageName (packageEvents files) {} = .ok after) {finding : Finding}
    {pos : Pos} (isFound : (finding, pos) ∈ after.state.findings) (mendable : finding.isMendable) :
    ∃ file ∈ files, finding.StandsIn pos file := by
  obtain ⟨made, tracks⟩ := Tracks.start.run outcome
  rw [List.nil_append, List.nil_append] at tracks
  simp only [CheckState.findings, List.mem_append, List.mem_reverse] at isFound
  obtain (isFound | isLocal) | isImport := isFound
  · obtain passing | ⟨rfl, isEvent⟩ := FoundBy.of_run outcome _ isFound
    · simp [Finding.isPassing_of_isMendable mendable] at passing
    · exact package.exists_trail isEvent rfl
  · obtain ⟨object, isUnused, same⟩ := List.mem_map.mp isLocal
    obtain ⟨rfl, rfl⟩ := Prod.mk.inj same
    have isLocal := List.mem_reverse.mp (List.mem_of_mem_filter isUnused)
    obtain ⟨isMade, isVar⟩ := tracks.mem_of_local isLocal
    obtain ⟨happens, isEvent, name, declares, -, posEq⟩ := tracks.named object isMade isVar
    rw [posEq]
    exact package.exists_trail isEvent (Event.spot?_of_declared? declares)
  · obtain ⟨entry, isUnused, same⟩ := List.mem_map.mp isImport
    obtain ⟨rfl, rfl⟩ := Prod.mk.inj same
    have isImport := List.mem_reverse.mp (List.mem_of_mem_filter isUnused)
    obtain ⟨file, isFile, isSpec⟩ := exists_file_of_bind (tracks.imports entry isImport).2.2
    refine ⟨file, isFile, ?_⟩
    have owns := (package.sound file isFile).owns_import isSpec
    unfold CheckState.unusedImport at mendable ⊢
    split at mendable
    · exact owns
    · cases mendable

/-- The file that owns a position is found. -/
theorem findUnit?_of_owns (package : SoundPackage files) {file : File} {pos : Pos}
    (isFile : file ∈ files) (owns : file.owns pos) :
    ∃ unit, findUnit? files pos = some unit ∧ files[unit]? = some file := by
  obtain ⟨unit, inside, rfl⟩ := List.getElem_of_mem isFile
  refine ⟨unit, ?_, List.getElem?_eq_getElem inside⟩
  rw [findUnit?, List.findIdx?_eq_some_iff_getElem]
  refine ⟨inside, owns, fun earlier isEarlier => ?_⟩
  have apart := List.pairwise_iff_getElem.mp package.apart earlier unit (by omega) inside isEarlier
  simp only [File.owns, Bool.and_eq_true, decide_eq_true_eq] at owns ⊢
  lia

/-- A diagnostic of a sound package that has a fix is located. -/
theorem exists_unit (package : SoundPackage files) {diagnostics : List Diagnostic}
    (checked : checkPackage packageName files = .ok diagnostics) {diagnostic : Diagnostic}
    (isDiagnostic : diagnostic ∈ diagnostics) {shape : Shape}
    (isShape : diagnostic.shape? = some shape) :
    ∃ finding unit file, shape.IsOf finding ∧ findUnit? files diagnostic.pos = some unit ∧
      files[unit]? = some file ∧ finding.StandsIn diagnostic.pos file := by
  obtain ⟨after, outcome⟩ := package.exists_run packageName {}
  rw [checkPackage, packageFindings_eq, outcome] at checked
  obtain rfl := Except.ok.inj checked
  obtain ⟨⟨finding, pos⟩, isFound, rfl⟩ := List.mem_map.mp (Diagnostic.mem_sorted.mp isDiagnostic)
  have isOf := Shape.isOf_of_shape? isShape
  have mendable : finding.isMendable := by
    cases shape with
    | unusedVariable name => exact isOf.1 ▸ rfl
    | unusedImport path => exact (isOf : finding = _) ▸ rfl
    | noNewVariables => exact (isOf : finding = _) ▸ rfl
  obtain ⟨file, isFile, standsIn⟩ := package.exists_standsIn outcome isFound mendable
  have owns : file.owns pos := by
    cases finding with
    | unusedVariable name =>
        obtain ⟨address, trail⟩ := standsIn
        exact (package.sound file isFile).owns trail.mem_places
    | unusedImport path => exact standsIn
    | noNewVariables =>
        obtain ⟨address, trail⟩ := standsIn
        exact (package.sound file isFile).owns trail.mem_places
    | _ => cases standsIn
  obtain ⟨unit, isUnit, isFile⟩ := package.findUnit?_of_owns isFile owns
  exact ⟨finding, unit, file, isOf, isUnit, isFile, standsIn⟩

end SoundPackage

/-! ### Files that take the places of others -/

/-- A package of sound files that need no more room than those of a sound package. -/
theorem SoundPackage.of_shrinks {files new : List File} (package : SoundPackage files)
    (changed : List.Forall₂ (fun new old => Sound .plain (.file new) ∧
      Shrinks (.file new) (.file old)) new files) : SoundPackage new := by
  obtain ⟨sound, apart⟩ := package
  have bounds {low : Pos} {new files : List File}
      (changed : List.Forall₂ (fun new old => Sound .plain (.file new) ∧
        Shrinks (.file new) (.file old)) new files) (lowLe : ∀ file ∈ files, low ≤ file.span.start) :
      ∀ file ∈ new, low ≤ file.span.start := by
    induction changed with
    | nil => exact lowLe
    | cons first others ih =>
        obtain ⟨firstLe, othersLe⟩ := List.forall_mem_cons.mp lowLe
        exact List.forall_mem_cons.mpr
          ⟨Int.le_trans firstLe first.2.span_within.1, ih othersLe⟩
  induction changed with
  | nil => exact ⟨sound, apart⟩
  | cons first others ih =>
      obtain ⟨firstApart, othersApart⟩ := List.pairwise_cons.mp apart
      have package := ih (List.forall_mem_cons.mp sound).2 othersApart
      refine ⟨List.forall_mem_cons.mpr ⟨first.1, package.sound⟩,
        List.pairwise_cons.mpr ⟨?_, package.apart⟩⟩
      exact fun file isFile => Int.le_trans first.2.span_within.2 (bounds others firstApart file isFile)

/-- Files that take the places of others. -/
def FilesReplaced (new old : List File) : Prop :=
  List.Forall₂ (fun new old => Replaces .plain (.file new) (.file old)) new old

namespace FilesReplaced

variable {files new : List File} {unit : Nat} {file old : File}

theorem refl (package : SoundPackage files) : FilesReplaced files files :=
  List.forall₂_same.mpr fun file isFile => .refl (package.sound file isFile)

theorem soundPackage (replaced : FilesReplaced new files) (package : SoundPackage files) :
    SoundPackage new :=
  package.of_shrinks (replaced.imp fun _ _ replaces => ⟨replaces.sound, replaces.shrinks⟩)

theorem getElem? (replaced : FilesReplaced new files) (isFile : new[unit]? = some file)
    (isOld : files[unit]? = some old) : Replaces .plain (.file file) (.file old) := by
  obtain ⟨newInside, rfl⟩ := List.getElem?_eq_some_iff.mp isFile
  obtain ⟨oldInside, rfl⟩ := List.getElem?_eq_some_iff.mp isOld
  exact List.Forall₂.get replaced newInside oldInside

theorem set (replaced : FilesReplaced new files) (isOld : files[unit]? = some old)
    (replaces : Replaces .plain (.file file) (.file old)) :
    FilesReplaced (new.set unit file) files := by
  unfold FilesReplaced at replaced ⊢
  induction replaced generalizing unit with
  | nil => cases isOld
  | cons first others ih =>
      cases unit with
      | zero =>
          obtain rfl := Option.some.inj isOld
          exact .cons replaces others
      | succ unit => exact .cons first (ih isOld)

end FilesReplaced

/-! ### Fixes -/

/-- A fix that is meant for a shape at a place of the files. -/
structure PendingFix.Fits (files : List File) (fix : PendingFix) : Prop where
  mendEq : fix.fixer.mend = Shape.mend
  standsIn : ∃ finding file, fix.shape.IsOf finding ∧ files[fix.unit]? = some file ∧
    finding.StandsIn fix.diagnostic.pos file ∧
    fix.chain = (file.enclosing fix.diagnostic.pos).map (·.address)

/-- The fix of a shape at its place leaves a file sound, also after other fixes. -/
theorem Shape.mend_replaces {shape : Shape} {finding : Finding} {pos : Pos} {file old edited : File}
    {edit : Edit} (isOf : shape.IsOf finding) (standsIn : finding.StandsIn pos old)
    (oldSound : Sound .plain (.file old)) (replaces : Replaces .plain (.file file) (.file old))
    (outcome : shape.mend ((old.enclosing pos).map (·.address)) file = .ok (edit, edited)) :
    Replaces .plain (.file edited) (.file file) := by
  cases shape with
  | unusedVariable name =>
      obtain ⟨rfl, isWord⟩ := isOf
      obtain ⟨address, trail⟩ := standsIn
      rw [trail.map_enclosing oldSound] at outcome
      have isWord : Ident.isWord { name } :=
        List.all_eq_true.mpr fun char isChar =>
          isInWord_of_isWordChar (List.all_eq_true.mp isWord char isChar)
      exact File.addRead_replaces isWord replaces.sound (replaces.keeps pos address trail) outcome
  | unusedImport path => exact File.blankImport_replaces replaces.sound outcome
  | noNewVariables =>
      obtain rfl : finding = .noNewVariables := isOf
      obtain ⟨address, trail⟩ := standsIn
      rw [trail.map_enclosing oldSound] at outcome
      exact File.replaceDefine_replaces replaces.sound (replaces.keeps pos address trail) outcome

namespace PendingFix

variable {files : List File} {fix : PendingFix} {progress : Progress}

/-- A fix leaves the files sound, and what it cannot mend is a diagnostic. -/
theorem apply_replaces (package : SoundPackage files) (fits : fix.Fits files)
    (replaced : FilesReplaced progress.files files) :
    FilesReplaced (fix.apply progress).files files := by
  obtain ⟨finding, old, isOf, isOld, standsIn, chainEq⟩ := fits.standsIn
  unfold apply
  split
  · exact replaced
  · next file isFile =>
      have replaces := replaced.getElem? isFile isOld
      split
      · next edit edited outcome =>
          rw [fits.mendEq, chainEq] at outcome
          have oldSound := package.sound old (List.mem_of_getElem? isOld)
          have editReplaces := Shape.mend_replaces isOf standsIn oldSound replaces outcome
          exact replaced.set isOld (editReplaces.trans replaces)
      · exact replaced

theorem apply_unhandled (allUnmended : ∀ problem ∈ progress.unhandled, ∃ diagnostic,
    problem = .unmended diagnostic) :
    ∀ problem ∈ (fix.apply progress).unhandled, ∃ diagnostic, problem = .unmended diagnostic := by
  unfold apply
  split
  · exact allUnmended
  · split
    · exact allUnmended
    · refine List.forall_mem_append.mpr ⟨allUnmended, ?_⟩
      simp

/-- Fixes leave the files sound one after the other. -/
theorem foldl_replaces {fixes : List PendingFix} (package : SoundPackage files)
    (fits : ∀ fix ∈ fixes, fix.Fits files) (replaced : FilesReplaced progress.files files) :
    FilesReplaced (fixes.foldl apply progress).files files := by
  induction fixes generalizing progress with
  | nil => exact replaced
  | cons fix fixes ih =>
      obtain ⟨first, others⟩ := List.forall_mem_cons.mp fits
      exact ih others (apply_replaces package first replaced)

theorem foldl_unhandled (fixes : List PendingFix) (allUnmended : ∀ problem ∈ progress.unhandled,
    ∃ diagnostic, problem = .unmended diagnostic) :
    ∀ problem ∈ (fixes.foldl apply progress).unhandled,
      ∃ diagnostic, problem = .unmended diagnostic := by
  induction fixes generalizing progress with
  | nil => exact allUnmended
  | cons fix fixes ih => exact ih (apply_unhandled allUnmended)

end PendingFix

/-! ### Passes -/

theorem FixerRegistry.exists_standard (shape : Shape) :
    ∃ fixer, FixerRegistry.standard.get? shape.fixId = some fixer ∧ fixer.mend = Shape.mend := by
  cases shape with
  | unusedVariable name => exact ⟨.unusedBinding, rfl, rfl⟩
  | unusedImport path => exact ⟨.unusedImport, rfl, rfl⟩
  | noNewVariables => exact ⟨.redundantDefine, rfl, rfl⟩

namespace SoundPackage

variable {files : List File} {packageName : String → String} {diagnostics : List Diagnostic}
  {diagnostic : Diagnostic}

/-- What becomes of a diagnostic of the scope check: it has no fix, or a fix that fits. -/
theorem triage (package : SoundPackage files) (set : FileSet)
    (checked : checkPackage packageName files = .ok diagnostics)
    (isDiagnostic : diagnostic ∈ diagnostics) :
    Triage.of .standard set files diagnostic = .unhandled (.unmended diagnostic) ∨
      ∃ fix, Triage.of .standard set files diagnostic = .pending fix ∧ fix.Fits files := by
  unfold Triage.of
  cases isShape : diagnostic.shape? with
  | none => exact .inl rfl
  | some shape =>
      obtain ⟨finding, unit, file, isOf, isUnit, isFile, standsIn⟩ :=
        package.exists_unit checked isDiagnostic isShape
      obtain ⟨fixer, isFixer, mendEq⟩ := FixerRegistry.exists_standard shape
      simp only [isUnit, isFile, isFixer]
      exact .inr ⟨_, rfl, mendEq, finding, file, isOf, isFile, standsIn, rfl⟩

/-- A pass over a sound package leaves it sound, and leaves only diagnostics. -/
theorem mendAll (package : SoundPackage files) (set : FileSet)
    (checked : checkPackage packageName files = .ok diagnostics) :
    FilesReplaced (mendAll .standard set files diagnostics).files files ∧
      ∀ problem ∈ (GoMend.mendAll .standard set files diagnostics).unhandled,
        ∃ diagnostic, problem = .unmended diagnostic := by
  refine ⟨PendingFix.foldl_replaces package ?_ (.refl package), PendingFix.foldl_unhandled _ ?_⟩
  · intro fix isFix
    obtain ⟨triaged, isTriaged, isPending⟩ := List.mem_filterMap.mp isFix
    obtain ⟨diagnostic, isDiagnostic, rfl⟩ := List.mem_map.mp isTriaged
    obtain unhandled | ⟨other, pending, fits⟩ := package.triage set checked isDiagnostic
    · simp [unhandled, Triage.fix?] at isPending
    · rw [pending] at isPending
      exact Option.some.inj isPending ▸ fits
  · intro problem isProblem
    obtain ⟨triaged, isTriaged, isProblem⟩ := List.mem_filterMap.mp isProblem
    obtain ⟨diagnostic, isDiagnostic, rfl⟩ := List.mem_map.mp isTriaged
    obtain unhandled | ⟨other, pending, fits⟩ := package.triage set checked isDiagnostic
    · rw [unhandled] at isProblem
      exact ⟨diagnostic, (Option.some.inj isProblem).symm⟩
    · simp [pending, Triage.problem?] at isProblem

end SoundPackage

end GoMend
