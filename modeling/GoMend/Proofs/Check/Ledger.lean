import GoMend.Proofs.Check.Anchors
import GoMend.Proofs.Check.Objects
import GoMend.Proofs.Diagnostic.Wording
import Mathlib.Data.List.Perm.Subperm

/-!
# What a check may come to report

The ledger of a check has an entry for everything that was found and for everything that will be found
unless it is read: variables, imports and labels.  An event enters only what it is about, at its own
anchor, and nothing is entered in another way.  As no two events have the same anchor, no two entries
give the same diagnostic.
-/

namespace GoMend

/-- The text of the token that a finding is about. -/
def Finding.subject? : Finding → Option String
  | .unusedVariable name | .undefined name | .redeclared name | .duplicateArgument name
  | .packageAsValue name | .unusedLabel name | .redefinedLabel name | .undefinedLabel name
  | .unusedNamedImport _ name => some name
  | .unusedImport path => some path
  | .blankValue => some "_"
  | .noNewVariables | .noNewVariable => some ":="
  | .notAName _ => none

namespace Event

/-- The text of the token at the anchor of an event. -/
def subject? : Event → Option String
  | .use name | .select name | .assign name | .declare name _ | .declareLocal name | .param name
  | .defineName name | .label name | .useLabel name => some name.name
  | .endDefine _ | .notASymbol _ => some ":="
  | .symbol name _ => some (if name.isBlank then ":=" else name.name)
  | .bind spec => some ((spec.name.map (·.name)).getD spec.path.value)
  | _ => none

/-- Whether an event may give a finding.  An import without a name may redeclare one that does not
stand there. -/
def Reports (happens : Event) (finding : Finding) : Prop :=
  finding.subject? = none ∨ finding.subject? = happens.subject? ∨
    ∃ name spec, finding = .redeclared name ∧ happens = .bind spec ∧ spec.name = none

end Event

/-! ### Ledgers -/

/-- The diagnostic of a finding with its position. -/
def toDiagnostic (entry : Finding × Pos) : Diagnostic :=
  entry.1.diagnostic entry.2

/-- What is found of labels that are not used. -/
def labelFindings (labels : List Label) : List (Finding × Pos) :=
  labels.map fun label => (.unusedLabel label.name, label.pos)

/-- What a check has found and what it will find unless it is read. -/
def CheckState.ledger (state : CheckState) : List (Finding × Pos) :=
  state.found ++
    (state.locals.map (fun object => (Finding.unusedVariable object.name, object.pos)) ++
      (state.imports.map (fun entry => (unusedImport entry, entry.spec.span.start)) ++
        labelFindings state.labels))

/-- The ledger of a check, with the labels of the functions around the place of the check. -/
def CheckPoint.ledger (point : CheckPoint) : List (Finding × Pos) :=
  point.state.ledger ++ point.outerLabels.flatMap labelFindings

/-- The ledger after an event has at most what it had before, and what the event is about. -/
def Event.Enters (happens : Event) (old new : List (Finding × Pos)) : Prop :=
  ∃ added, List.Subperm new (added ++ old) ∧ (added.map toDiagnostic).Nodup ∧
    ∀ entry ∈ added, happens.anchor? = some entry.2 ∧ happens.Reports entry.1

namespace Event.Enters

variable {happens : Event} {old new : List (Finding × Pos)} {pos : Pos} {finding : Finding}

theorem of_subperm (subperm : List.Subperm new old) : happens.Enters old new :=
  ⟨[], subperm, List.nodup_nil, by simp⟩

theorem of_eq (same : new = old) : happens.Enters old new :=
  .of_subperm (same ▸ .refl old)

theorem of_perm (perm : new.Perm ((finding, pos) :: old)) (isAnchor : happens.anchor? = some pos)
    (reports : happens.Reports finding) : happens.Enters old new :=
  ⟨[(finding, pos)], perm.subperm, List.nodup_singleton _, by simp [isAnchor, reports]⟩

/-- Entries that are the same before and after do not matter. -/
theorem append_right (enters : happens.Enters old new) (rest : List (Finding × Pos)) :
    happens.Enters (old ++ rest) (new ++ rest) := by
  obtain ⟨added, subperm, nodup, areOf⟩ := enters
  refine ⟨added, ?_, nodup, areOf⟩
  rw [← List.append_assoc]
  exact (List.subperm_append_right rest).mpr subperm

end Event.Enters

namespace CheckState

variable (state : CheckState)

theorem ledger_holding (object : Object) : (state.holding object).ledger = state.ledger := by
  unfold holding
  split <;> rfl

theorem ledger_awaiting (object : Object) :
    (state.awaiting object).ledger.Perm ((.unusedVariable object.name, object.pos) :: state.ledger) :=
  List.perm_middle

end CheckState

/-! ### What the parts of a check enter -/

namespace Check

section

variable {happens : Event} {ident : Ident} (state : CheckState)
  (isAnchor : happens.anchor? = some ident.span.start)
  (isSubject : happens.subject? = some ident.name)

include isAnchor isSubject

/-- Something that is found of the name of an event. -/
theorem enters_reporting {finding : Finding} (subjectEq : finding.subject? = some ident.name) :
    happens.Enters state.ledger (state.reporting ident.span.start finding).ledger :=
  .of_perm (.refl _) isAnchor (.inr (.inl (subjectEq.trans isSubject.symm)))

theorem enters_declared (kind : ObjectKind) :
    happens.Enters state.ledger (declared state ident kind).2.ledger := by
  unfold declared
  split
  · exact .of_eq rfl
  · split
    · exact enters_reporting state.made isAnchor isSubject rfl
    · exact .of_eq (CheckState.ledger_holding _ _)

theorem enters_declaredLocal : happens.Enters state.ledger (declaredLocal state ident).ledger := by
  have entersDeclared := enters_declared state isAnchor isSubject .var
  have isOf (object : Object) (after : CheckState)
      (isDeclared : declared state ident .var = (some object, after)) :
      object.name = ident.name ∧ object.pos = ident.span.start ∧ after.ledger = state.ledger := by
    unfold declared at isDeclared
    split at isDeclared
    · cases isDeclared
    · split at isDeclared
      · cases isDeclared
      · cases isDeclared
        exact ⟨rfl, rfl, CheckState.ledger_holding _ _⟩
  unfold declaredLocal
  generalize declared state ident .var = outcome at entersDeclared isOf ⊢
  obtain ⟨_ | object, after⟩ := outcome
  · exact entersDeclared
  · obtain ⟨nameEq, posEq, same⟩ := isOf object after rfl
    have perm := after.ledger_awaiting object
    rw [nameEq, posEq, same] at perm
    exact .of_perm perm isAnchor (.inr (.inl isSubject.symm))

theorem enters_declaredParam : happens.Enters state.ledger (declaredParam state ident).ledger := by
  unfold declaredParam
  split
  · exact .of_eq rfl
  · split
    · exact enters_reporting state.made isAnchor isSubject rfl
    · exact .of_eq (CheckState.ledger_holding _ _)

theorem enters_resolved : happens.Enters state.ledger (resolved state ident).2.ledger := by
  unfold resolved
  split
  · exact .of_eq rfl
  · dsimp only
    split
    · exact .of_eq rfl
    · exact enters_reporting state isAnchor isSubject rfl

theorem enters_usedName : happens.Enters state.ledger (usedName state ident).ledger := by
  unfold usedName
  split
  · next isBlank =>
    have nameEq : ident.name = "_" := by simpa [Ident.isBlank] using isBlank
    exact enters_reporting state isAnchor isSubject (nameEq ▸ rfl)
  · -- Only an object that was found can be a package, so nothing else is found with it.
    have entersResolved := enters_resolved state isAnchor isSubject
    have ledgerEq (object : Object) (after : CheckState)
        (isResolved : resolved state ident = (some object, after)) : after.ledger = state.ledger := by
      unfold resolved at isResolved
      split at isResolved
      · cases isResolved
        rfl
      · cases isResolved
    generalize resolved state ident = outcome at entersResolved ledgerEq ⊢
    obtain ⟨_ | object, after⟩ := outcome
    · exact entersResolved
    · rw [← ledgerEq object after rfl]
      dsimp only
      split
      · exact enters_reporting after isAnchor isSubject rfl
      · exact .of_eq rfl

theorem enters_assigned : happens.Enters state.ledger (assigned state ident).ledger := by
  unfold assigned
  split
  · exact enters_reporting state isAnchor isSubject rfl
  · exact .of_eq rfl

theorem enters_usedLabel : happens.Enters state.ledger (usedLabel state ident).ledger := by
  unfold usedLabel
  split
  · refine .of_eq ?_
    have same : labelFindings (state.labels.map fun label =>
        if label.name = ident.name then { label with used := true } else label) =
        labelFindings state.labels := by
      unfold labelFindings
      rw [List.map_map]
      refine List.map_congr_left fun label _ => ?_
      dsimp only [Function.comp]
      split <;> rfl
    unfold CheckState.ledger
    rw [same]
  · exact enters_reporting state isAnchor isSubject rfl

theorem enters_declaredLabel : happens.Enters state.ledger (declaredLabel state ident).ledger := by
  unfold declaredLabel
  split
  · exact enters_reporting state isAnchor isSubject rfl
  · have perm : ({ state with
        labels := state.labels ++ [{ name := ident.name, pos := ident.span.start }] } : CheckState).ledger.Perm
        ((.unusedLabel ident.name, ident.span.start) :: state.ledger) := by
      simp only [CheckState.ledger, labelFindings, List.map_append, List.map_singleton, ← List.append_assoc]
      exact List.perm_append_singleton _ _
    exact .of_perm perm isAnchor (.inr (.inl isSubject.symm))

end

theorem ledger_usedKey (state : CheckState) (ident : Ident) :
    (usedKey state ident).ledger = state.ledger := by
  unfold usedKey
  split <;> rfl

/-- What may be found of an import that binds a name. -/
theorem reports_of_boundName? {packageName : String → String} {spec : ImportSpec} {name : String}
    (binds : boundName? packageName spec = some name) (object : Object) (nameEq : object.name = name) :
    (Event.bind spec).Reports (CheckState.unusedImport ⟨object, spec⟩) ∧
      (Event.bind spec).Reports (.redeclared name) := by
  unfold boundName? at binds
  cases isNamed : spec.name with
  | none =>
      refine ⟨.inr (.inl ?_), .inr (.inr ⟨name, spec, rfl, rfl, isNamed⟩)⟩
      simp [CheckState.unusedImport, Event.subject?, isNamed, Finding.subject?]
  | some ident =>
      obtain rfl : ident.name = name := by
        simp only [isNamed] at binds
        split at binds
        · cases binds
        · exact Option.some.inj binds
      have isSubject : (Event.bind spec).subject? = some ident.name := by
        simp [Event.subject?, isNamed]
      refine ⟨.inr (.inl ?_), .inr (.inl isSubject.symm)⟩
      simp [CheckState.unusedImport, isSubject, isNamed, Finding.subject?, nameEq]

/-- That a name is redeclared is said in other words than that an import is not used. -/
theorem message_redeclared_ne (name : String) (entry : ImportedName) :
    (Finding.redeclared name).message ≠ (CheckState.unusedImport entry).message := by
  intro same
  have unusedSuffix := (CheckState.unusedImport entry).ending_suffix
  rw [← same] at unusedSuffix
  have comparable := List.suffix_or_suffix_of_suffix (Finding.ending_suffix (.redeclared name)) unusedSuffix
  unfold CheckState.unusedImport at comparable
  split at comparable <;> revert comparable <;> simp only [Finding.ending] <;> decide

theorem enters_bound (state : CheckState) (packageName : String → String) (spec : ImportSpec) :
    (Event.bind spec).Enters state.ledger (bound state packageName spec).ledger := by
  have bind (state : CheckState) (name : String) (binds : boundName? packageName spec = some name) :
      let object := state.fresh name .package spec.span.start
      let after :=
        if state.declares name then
          state.made.reporting spec.span.start (.redeclared name)
        else
          state.made.holding object
      (Event.bind spec).Enters state.ledger
        ({ after with imports := ⟨object, spec⟩ :: after.imports } : CheckState).ledger := by
    intro object after
    obtain ⟨unused, redeclares⟩ := reports_of_boundName? binds object rfl
    have perm : ({ after with imports := ⟨object, spec⟩ :: after.imports } : CheckState).ledger.Perm
        ((CheckState.unusedImport ⟨object, spec⟩, spec.span.start) :: after.ledger) := by
      simp only [CheckState.ledger, List.map_cons, ← List.append_assoc]
      exact List.perm_middle.append_right _
    by_cases taken : state.declares name
    · have afterEq : after = state.made.reporting spec.span.start (.redeclared name) := if_pos taken
      rw [afterEq] at perm ⊢
      refine ⟨[(CheckState.unusedImport ⟨object, spec⟩, spec.span.start),
        (.redeclared name, spec.span.start)], perm.subperm, ?_, ?_⟩
      · rw [List.map_cons, List.map_singleton, List.nodup_cons, List.mem_singleton]
        refine ⟨fun same => ?_, List.nodup_singleton _⟩
        exact message_redeclared_ne name _ (congrArg Diagnostic.message same).symm
      · rw [List.forall_mem_cons, List.forall_mem_singleton]
        exact ⟨⟨rfl, unused⟩, rfl, redeclares⟩
    · have afterEq : after = state.made.holding object := if_neg taken
      rw [afterEq] at perm ⊢
      rw [CheckState.ledger_holding] at perm
      exact .of_perm perm rfl unused
  unfold bound
  cases binds : boundName? packageName spec with
  | none =>
      refine .of_eq ?_
      split <;> rfl
  | some name =>
      cases dotted : spec.name.any (·.name = ".") with
      | false => exact bind state name binds
      | true => exact bind { state with lenient := true } name binds

/-- What is found of the labels of a function was in the ledger already. -/
theorem subperm_closeLabels (point : CheckPoint) :
    List.Subperm (Event.next id point .closeLabels).ledger point.ledger := by
  have outerEq : labelFindings (point.outerLabels.headD []) ++ point.outerLabels.tail.flatMap labelFindings =
      point.outerLabels.flatMap labelFindings := by
    cases point.outerLabels <;> rfl
  have unused : List.Subperm (unusedLabels point.state.labels).reverse (labelFindings point.state.labels) :=
    (List.reverse_perm _).subperm.trans (List.Sublist.map _ List.filter_sublist).subperm
  simp only [Event.next, CheckPoint.ledger, CheckState.ledger, List.append_assoc]
  rw [outerEq]
  refine ((List.subperm_append_right _).mpr unused).trans (List.Perm.subperm ?_)
  refine (List.perm_append_comm_assoc ..).trans (.append_left _ ?_)
  refine (List.perm_append_comm_assoc ..).trans (.append_left _ ?_)
  exact List.perm_append_comm_assoc ..

end Check

/-! ### Events -/

namespace Event

/-- An event enters only what it is about, at its own anchor. -/
theorem enters_next (packageName : String → String) (point : CheckPoint) (happens : Event) :
    happens.Enters point.ledger (happens.next packageName point).ledger := by
  cases happens with
  | use name => exact .append_right (Check.enters_usedName _ rfl rfl) _
  | select name =>
      refine .append_right ?_ _
      simp only [next]
      split
      · exact Check.enters_usedName _ rfl rfl
      · exact Check.enters_resolved _ rfl rfl
  | assign name => exact .append_right (Check.enters_assigned _ rfl rfl) _
  | key name => exact .append_right (.of_eq (Check.ledger_usedKey _ name)) _
  | declare name kind => exact .append_right (Check.enters_declared _ rfl rfl kind) _
  | declareLocal name => exact .append_right (Check.enters_declaredLocal _ rfl rfl) _
  | param name => exact .append_right (Check.enters_declaredParam _ rfl rfl) _
  | defineName name =>
      simp only [next]
      split
      · exact .of_eq rfl
      · exact .append_right (Check.enters_declaredLocal _ rfl rfl) _
  | notAName target =>
      simp only [next]
      split
      · exact .of_eq rfl
      · exact .of_perm (.refl _) rfl (.inl rfl)
  | endDefine tokPos =>
      simp only [next]
      split
      · exact .of_eq rfl
      · exact .of_perm (.refl _) rfl (.inr (.inl rfl))
  | label name => exact .append_right (Check.enters_declaredLabel _ rfl rfl) _
  | useLabel name => exact .append_right (Check.enters_usedLabel _ rfl rfl) _
  | symbol name tokPos =>
      simp only [next]
      split
      · next isBlank =>
        refine .of_perm (.refl _) ?_ (.inr (.inl ?_))
        · simp [anchor?, isBlank]
        · simp [subject?, Finding.subject?, isBlank]
      · next notBlank =>
        refine .append_right (.of_perm (CheckState.ledger_awaiting _ _) ?_ (.inr (.inl ?_))) _
        · simp [anchor?, notBlank, CheckState.fresh]
        · simp [subject?, Finding.subject?, notBlank, CheckState.fresh]
  | notASymbol tokPos => exact .of_perm (.refl _) rfl (.inr (.inl rfl))
  | clause =>
      simp only [next]
      split
      · exact .of_eq rfl
      · split
        · exact .of_eq rfl
        · exact .append_right (.of_eq (CheckState.ledger_holding _ _)) _
  | bind spec => exact .append_right (Check.enters_bound _ packageName spec) _
  | openLabels =>
      refine .of_eq ?_
      simp [next, CheckPoint.ledger, CheckState.ledger, labelFindings]
  | closeLabels => exact .of_subperm (Check.subperm_closeLabels point)
  | _ => exact .of_eq rfl

end Event

/-! ### Runs -/

/-- A ledger holds what some events may give, and gives no diagnostic twice. -/
structure Accounts (done : List Event) (ledger : List (Finding × Pos)) : Prop where
  nodup : (ledger.map toDiagnostic).Nodup
  isOf : ∀ entry ∈ ledger, ∃ happens ∈ done, happens.anchor? = some entry.2 ∧ happens.Reports entry.1

namespace Accounts

variable {done : List Event} {happens : Event} {old new : List (Finding × Pos)}

theorem of_subperm (accounts : Accounts done old) (subperm : List.Subperm new old) : Accounts done new where
  nodup := by
    obtain ⟨kept, perm, sublist⟩ := subperm
    exact (perm.map toDiagnostic).nodup_iff.mp (accounts.nodup.sublist (sublist.map _))
  isOf entry isEntry := accounts.isOf entry (subperm.subset isEntry)

/-- An event at an anchor of its own adds nothing that was there. -/
theorem next (accounts : Accounts done old) (fresh : ∀ pos, happens.anchor? = some pos → pos ∉ anchors done)
    (enters : happens.Enters old new) : Accounts (done ++ [happens]) new := by
  obtain ⟨added, subperm, nodup, areOf⟩ := enters
  refine of_subperm ⟨?_, fun entry isEntry => ?_⟩ subperm
  · rw [List.map_append, List.nodup_append]
    refine ⟨nodup, accounts.nodup, ?_⟩
    rintro _ inAdded _ inOld rfl
    obtain ⟨entry, isAdded, rfl⟩ := List.mem_map.mp inAdded
    obtain ⟨earlier, isOld, same⟩ := List.mem_map.mp inOld
    obtain ⟨before, isDone, isAnchor, -⟩ := accounts.isOf earlier isOld
    have posEq : earlier.2 = entry.2 := congrArg Diagnostic.pos same
    exact fresh entry.2 (areOf entry isAdded).1
      (List.mem_filterMap.mpr ⟨before, isDone, isAnchor.trans (congrArg some posEq)⟩)
  · obtain isAdded | isOld := List.mem_append.mp isEntry
    · exact ⟨happens, by simp, areOf entry isAdded⟩
    · obtain ⟨before, isDone, isOf⟩ := accounts.isOf entry isOld
      exact ⟨before, List.mem_append_left _ isDone, isOf⟩

/-- Events at anchors of their own lead to a ledger that gives no diagnostic twice. -/
theorem of_run {packageName : String → String} {events : List Event} {after : CheckPoint}
    (nodup : (anchors events).Nodup) (outcome : Event.run packageName events {} = .ok after) :
    Accounts events after.ledger := by
  have start : Accounts [] ({} : CheckPoint).ledger := by
    have empty : ({} : CheckPoint).ledger = [] := rfl
    rw [empty]
    exact ⟨List.nodup_nil, by simp⟩
  refine Event.run_keeps (fun done point => (anchors done).Nodup → Accounts done point.ledger)
    (fun done happens point accounts distinct => ?_) (fun _ => start) outcome nodup
  · rw [anchors_append, List.nodup_append] at distinct
    obtain ⟨distinct, -, apart⟩ := distinct
    refine (accounts distinct).next (fun pos isAnchor isOld => ?_) (happens.enters_next packageName point)
    exact apart pos isOld pos (by simp [anchors, isAnchor]) rfl

end Accounts

/-- What is found in the end is in the ledger. -/
theorem CheckPoint.subperm_findings (point : CheckPoint) :
    List.Subperm point.state.findings point.ledger := by
  have locals : List.Subperm point.state.unusedLocals
      (point.state.locals.map fun object => (.unusedVariable object.name, object.pos)) :=
    (List.Sublist.map _ List.filter_sublist).subperm.trans
      ((List.reverse_perm _).map _).subperm
  have imports : List.Subperm point.state.unusedImports
      (point.state.imports.map fun entry => (CheckState.unusedImport entry, entry.spec.span.start)) :=
    (List.Sublist.map _ List.filter_sublist).subperm.trans
      ((List.reverse_perm _).map _).subperm
  have both := ((List.reverse_perm point.state.found).subperm.append locals).append imports
  refine both.trans (List.Sublist.subperm ?_)
  simp only [ledger, CheckState.ledger, List.append_assoc]
  exact ((List.sublist_append_left ..).append_left _).append_left _

end GoMend
