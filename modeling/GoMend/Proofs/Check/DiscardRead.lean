import GoMend.Proofs.Check.Insertion
import GoMend.Proofs.Check.Runs
import GoMend.Proofs.Diagnostic.Order
import GoMend.Proofs.Diagnostic.Wording

/-!
# What a discard read changes

A discard read notes that its variable is read and does nothing else.  The check of a package in
which one is inserted goes on as before, and finds the same but that the variable is not read.
-/

namespace GoMend

/-! ### The run after a reading -/

namespace Event

theorem isBlank_of_declared? {happens : Event} {name : Ident}
    (declares : happens.declared? = some name) : name.isBlank = false := by
  unfold declared? at declares
  split at declares
  case h_6 => cases declares
  all_goals
    simp only [Option.ite_none_left_eq_some, Bool.not_eq_true, Option.some.injEq] at declares
    obtain ⟨notBlank, rfl⟩ := declares
    exact notBlank

variable {packageName : String → String}

/-- The events after a reading note the same as without it. -/
theorem run_reading {events : List Event} {point after : CheckPoint} (object : Object)
    (outcome : run packageName events point = .ok after) :
    ∃ used, run packageName events { point with state := point.state.reading object } =
        .ok { after with state := { after.state with used } } ∧
      ∀ id, id ∈ used ↔ id = object.id ∨ id ∈ after.state.used := by
  obtain ⟨reads, later, -, usedEq, foundEq, same⟩ := exists_noted outcome
  refine ⟨reads ++ object.id :: point.state.used, ?_, fun id => ?_⟩
  · have readRun := same (object.id :: point.state.used) point.state.found
    rwa [← foundEq] at readRun
  · rw [usedEq]
    simp only [List.mem_append, List.mem_cons]
    exact or_left_comm

/-- The events of a discard read of a variable only read it. -/
theorem run_readEvents {point : CheckPoint} {name : String} {object : Object}
    (found : Scope.lookup? point.state.scopes name = some object) (isVar : object.kind = .var)
    (notBlank : Ident.isBlank { name } = false) :
    run packageName (Node.readEvents name) point =
      .ok { point with state := point.state.reading object } := by
  have reads : Check.usedName point.state { name } = point.state.reading object := by
    simp [Check.usedName, Check.resolved, notBlank, found, isVar]
  have assigns : Check.assigned (point.state.reading object) { name := "_" } =
      point.state.reading object := by
    simp [Check.assigned, Ident.isBlank]
  simp only [Node.readEvents, run_cons, failure?, next, reads, assigns]
  rfl

end Event

/-! ### The findings after a reading -/

/-- Leaving out one item takes away its image, when no other item has the same one. -/
theorem map_filter_ne {α β : Type} [DecidableEq α] [BEq β] [LawfulBEq β] (image : α → β)
    {items : List α} {item : α} (nodup : items.Nodup)
    (unique : ∀ other ∈ items, image other = image item → other = item) :
    (items.filter (· ≠ item)).map image = (items.map image).erase (image item) := by
  induction items with
  | nil => rfl
  | cons first items ih =>
      obtain ⟨notIn, nodup⟩ := List.nodup_cons.mp nodup
      obtain ⟨firstUnique, unique⟩ := List.forall_mem_cons.mp unique
      by_cases same : first = item
      · subst same
        have others : items.filter (· ≠ first) = items := by
          refine List.filter_eq_self.mpr fun other isOther => ?_
          have notSame : other ≠ first := fun same => notIn (same ▸ isOther)
          simpa using notSame
        rw [List.filter_cons_of_neg (by simp), others, List.map_cons, List.erase_cons_head]
      · have notImage : (image first == image item) = false := by
          simpa using fun sameImage => same (firstUnique sameImage)
        simp only [ne_eq, same, not_false_eq_true, decide_true, List.filter_cons_of_pos,
          List.map_cons, List.erase_cons, notImage, Bool.false_eq_true, if_false]
        exact congrArg _ (ih nodup unique)

namespace Tracks

variable {done : List Event} {point : CheckPoint} {made : List Object} {object : Object}
  {used : List Nat}

/-- The name of a variable is a word and not blank, when the events say so. -/
theorem isWord_of_var (tracks : Tracks done point made)
    (words : ∀ happens ∈ done, ∀ name, happens.declared? = some name → name.isWord)
    (isMade : object ∈ made) (isVar : object.kind = .var) :
    object.name.toList.all Finding.isInWord ∧ Ident.isBlank { name := object.name } = false := by
  obtain ⟨happens, isDone, name, declares, nameEq, -⟩ := tracks.named object isMade isVar
  rw [nameEq]
  have notBlank := Event.isBlank_of_declared? declares
  exact ⟨words happens isDone name declares, notBlank⟩

theorem unusedLocals_reading (tracks : Tracks done point made) (nodup : (GoMend.spots done).Nodup)
    (isMade : object ∈ made) (isVar : object.kind = .var)
    (reads : ∀ id, id ∈ used ↔ id = object.id ∨ id ∈ point.state.used) :
    ({ point.state with used } : CheckState).unusedLocals =
      point.state.unusedLocals.erase (.unusedVariable object.name, object.pos) := by
  let isUnused : Object → Bool := fun other => !point.state.used.contains other.id
  have filterEq : point.state.locals.reverse.filter (fun other => !used.contains other.id) =
      (point.state.locals.reverse.filter isUnused).filter (· ≠ object) := by
    rw [List.filter_filter]
    refine List.filter_congr fun other isLocal => ?_
    obtain ⟨otherMade, -⟩ := tracks.mem_of_local (List.mem_reverse.mp isLocal)
    have sameId : other.id = object.id ↔ other = object :=
      ⟨tracks.eq_of_id otherMade isMade, fun same => same ▸ rfl⟩
    rw [Bool.eq_iff_iff]
    simp [isUnused, reads, sameId]
  simp only [CheckState.unusedLocals, filterEq]
  refine map_filter_ne (fun other : Object => (Finding.unusedVariable other.name, other.pos))
    ((List.nodup_reverse.mpr tracks.nodup_locals).filter _) ?_
  intro other isUnused same
  have isLocal := List.mem_reverse.mp (List.mem_of_mem_filter isUnused)
  obtain ⟨otherMade, otherVar⟩ := tracks.mem_of_local isLocal
  exact tracks.eq_of_pos nodup otherMade isMade otherVar isVar (Prod.mk.inj same).2

theorem unusedImports_reading (tracks : Tracks done point made) (isMade : object ∈ made)
    (isVar : object.kind = .var)
    (reads : ∀ id, id ∈ used ↔ id = object.id ∨ id ∈ point.state.used) :
    ({ point.state with used } : CheckState).unusedImports = point.state.unusedImports := by
  simp only [CheckState.unusedImports]
  refine congrArg _ (List.filter_congr fun entry isEntry => ?_)
  obtain ⟨entryMade, isPackage, -⟩ := tracks.imports entry (List.mem_reverse.mp isEntry)
  have notSame : entry.object.id ≠ object.id := by
    intro sameId
    have same := tracks.eq_of_id entryMade isMade sameId
    rw [same, isVar] at isPackage
    cases isPackage
  rw [Bool.eq_iff_iff]
  simp [reads, notSame]

/-- A reading of a variable takes away the finding that the variable is not read. -/
theorem findings_reading (tracks : Tracks done point made) (nodup : (GoMend.spots done).Nodup)
    (found : FoundBy done point.state.found) (isMade : object ∈ made) (isVar : object.kind = .var)
    (reads : ∀ id, id ∈ used ↔ id = object.id ∨ id ∈ point.state.used) :
    ({ point.state with used } : CheckState).findings =
      point.state.findings.erase (.unusedVariable object.name, object.pos) := by
  let entry : Finding × Pos := (.unusedVariable object.name, object.pos)
  have notFound : entry ∉ point.state.found.reverse := by
    intro isFound
    obtain passing | ⟨isDefine, -⟩ := found entry (List.mem_reverse.mp isFound)
    · cases passing
    · cases isDefine
  have notImport : entry ∉ point.state.unusedImports := by
    intro isImport
    obtain ⟨path, same⟩ | ⟨path, name, same⟩ := CheckState.eq_of_mem_unusedImports isImport <;>
      cases same
  simp only [CheckState.findings, tracks.unusedLocals_reading nodup isMade isVar reads,
    tracks.unusedImports_reading isMade isVar reads, List.append_assoc]
  rw [List.erase_append_right _ notFound, List.erase_append]
  split
  · rfl
  · next notLocal => rw [List.erase_of_not_mem notLocal, List.erase_of_not_mem notImport]

end Tracks

/-- The diagnostics without that of one finding, when no other finding has the same wording. -/
theorem sorted_map_erase {findings : List (Finding × Pos)} {finding : Finding} {pos : Pos}
    (unique : ∀ other : Finding, other.message = finding.message → other = finding) :
    Diagnostic.sorted
        ((findings.erase (finding, pos)).map fun (found, at_) => found.diagnostic at_) =
      (Diagnostic.sorted (findings.map fun (found, at_) => found.diagnostic at_)).erase
        (finding.diagnostic pos) := by
  rw [← Diagnostic.sorted_erase]
  congr 1
  induction findings with
  | nil => rfl
  | cons first findings ih =>
      obtain ⟨found, place⟩ := first
      have same : ((found, place) == (finding, pos)) =
          (found.diagnostic place == finding.diagnostic pos) := by
        rw [Bool.eq_iff_iff]
        simp only [beq_iff_eq, Prod.mk.injEq, Finding.diagnostic, Diagnostic.mk.injEq]
        exact and_congr_left fun _ => ⟨fun same => same ▸ rfl, unique found⟩
      simp only [List.erase_cons, List.map_cons, same]
      split
      · rfl
      · rw [List.map_cons, ih]

/-! ### The package with a discard read -/

theorem checkPackage_of_run {files : List File} {packageName : String → String}
    {after : CheckPoint}
    (outcome : Event.run packageName (packageEvents files) {} = .ok after) :
    checkPackage packageName files = .ok (Diagnostic.sorted
      (after.state.findings.map fun (finding, pos) => finding.diagnostic pos)) := by
  rw [checkPackage, packageFindings_eq, outcome]
  rfl

namespace SoundPackage

variable {files : List File} {packageName : String → String}

/-- A discard read in a statement list takes away the diagnostic that its variable is not read. -/
theorem check_insertRead (package : SoundPackage files) {unit index : Nat} {address : Node.Address}
    {before rest : List Event}
    (isCut : packageCut? files unit address index = some (before, rest)) :
    ∃ point, Event.run packageName before {} = .ok point ∧
      ∀ name object, Scope.lookup? point.state.scopes name = some object → object.kind = .var →
        ∃ diagnostics, checkPackage packageName files = .ok diagnostics ∧
          checkPackage packageName (insertRead files unit address index name) =
            .ok (diagnostics.erase ((Finding.unusedVariable name).diagnostic object.pos)) := by
  obtain ⟨after, outcome⟩ := package.exists_run packageName {}
  have eventsEq := (packageEvents_insertRead "" isCut).1
  have cutRun := outcome
  rw [eventsEq] at cutRun
  obtain ⟨point, beforeRun, restRun⟩ := Event.exists_of_run_append cutRun
  refine ⟨point, beforeRun, fun name object found isVar => ?_⟩
  obtain ⟨made, midTracks⟩ := Tracks.start.run beforeRun
  obtain ⟨more, tracks⟩ := midTracks.run restRun
  simp only [List.nil_append] at midTracks tracks
  rw [← eventsEq] at tracks
  obtain ⟨isMade, rfl⟩ := midTracks.mem_of_lookup? found isVar
  have isMade : object ∈ made ++ more := List.mem_append_left _ isMade
  have words : ∀ happens ∈ packageEvents files, ∀ name, happens.declared? = some name →
      name.isWord := by
    intro happens isEvent
    obtain ⟨file, -, fits⟩ := package.events_fit happens isEvent
    exact fits.isWord
  obtain ⟨isWord, notBlank⟩ := tracks.isWord_of_var words isMade isVar
  obtain ⟨used, readRun, reads⟩ := Event.run_reading object restRun
  have insertedRun : Event.run packageName
      (packageEvents (insertRead files unit address index object.name)) {} =
      .ok { after with state := { after.state with used } } := by
    rw [(packageEvents_insertRead object.name isCut).2, Event.run_append, Event.run_append,
      beforeRun]
    show (Event.run packageName (Node.readEvents object.name) point >>= _) = _
    rw [Event.run_readEvents found isVar notBlank]
    exact readRun
  have found : FoundBy (packageEvents files) after.state.found :=
    .of_run outcome
  refine ⟨_, checkPackage_of_run outcome, ?_⟩
  rw [checkPackage_of_run insertedRun,
    tracks.findings_reading package.nodup_spots found isMade isVar reads]
  exact congrArg _ (sorted_map_erase fun other => Shape.eq_unusedVariable_of_message isWord)

end SoundPackage

end GoMend
