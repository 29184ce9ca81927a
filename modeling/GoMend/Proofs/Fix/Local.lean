import GoMend.Fix.Revert
import GoMend.Fix.Run
import GoMend.Proofs.Fix.Edit
import GoMend.Proofs.Fix.Mending
import GoMend.Proofs.Tree.Congruence

/-!
# Fixes are local

A fix changes a list of statements, a `:=` or the name of an import, and leaves everything else as
it is.  So a relation that climbs from a node to the file around it holds of every file and the
file after a fix, as soon as it holds at these three places.  A run applies one fix after the other.
-/

namespace GoMend

open Node

/-! ### The places of fixes -/

namespace Node

/-- A relation that climbs, and that holds at the places that fixes change. -/
structure FixCongruence (related : Node → Node → Prop) : Prop extends Congruence related where
  atOwner : ∀ name step changed, (Node.stmt step).ownStmts?.isSome →
    step.append? (.discardRead name) = some changed → related (.stmt changed) (.stmt step)
  atDefine : ∀ step changed, step.withoutDefine? = some changed →
    related (.stmt changed) (.stmt step)
  atImport : ∀ (spec : ImportSpec) (name : Option Ident),
    related (.spec (.importSpec { spec with name })) (.spec (.importSpec spec))

namespace Climbs

variable {related : Node → Node → Prop} (climbs : Climbs related) {file edited : File}
  {edit : Edit} {chain : List Address}

include climbs

/-- A file that got a read of a variable. -/
theorem addReadAnywhere {name : String}
    (atOwner : ∀ step changed, (Node.stmt step).ownStmts?.isSome →
      step.append? (.discardRead name) = some changed → related (.stmt changed) (.stmt step))
    (atMissing : ∀ step changed, step.hasBody = false →
      step.append? (.discardRead name) = some changed → related (.stmt changed) (.stmt step))
    (outcome : file.addRead name chain = .ok (edit, edited)) :
    related (.file edited) (.file file) := by
  obtain ⟨-, place, -, inner, changed, -, -, found, reads, rfl⟩ := File.exists_of_addRead outcome
  exact climbs.modifyFile found (climbs.withRead atOwner atMissing reads)

/-- A file in which a `:=` was replaced. -/
theorem replaceDefine
    (atDefine : ∀ step changed, step.withoutDefine? = some changed →
      related (.stmt changed) (.stmt step))
    (outcome : file.replaceDefine chain = .ok (edit, edited)) :
    related (.file edited) (.file file) := by
  obtain ⟨place, -, inner, changed, found, replaced, rfl⟩ := File.exists_of_replaceDefine outcome
  refine climbs.modifyFile found ?_
  cases inner with
  | stmt step =>
      obtain ⟨new, isNew, rfl⟩ := Option.map_eq_some_iff.mp replaced
      exact atDefine step new isNew
  | _ => cases replaced

end Climbs

namespace Congruence

variable {related : Node → Node → Prop} (congruence : Congruence related) {file edited : File}
  {edit : Edit} {chain : List Address}

include congruence

/-- A file with bodies of all loops that got a read of a variable. -/
theorem addRead {name : String}
    (atOwner : ∀ step changed, (Node.stmt step).ownStmts?.isSome →
      step.append? (.discardRead name) = some changed → related (.stmt changed) (.stmt step))
    (whole : Whole (.file file)) (outcome : file.addRead name chain = .ok (edit, edited)) :
    related (.file edited) (.file file) := by
  refine (congruence.ofWhole.addReadAnywhere (fun step changed isOwner appends => ?_)
    (fun step changed noBody appends => ?_) outcome).2 whole
  · have isRelated := atOwner step changed isOwner appends
    exact ⟨congruence.sort_eq isRelated, fun _ => isRelated⟩
  · refine ⟨?_, fun whole => absurd whole.hasBody (by simp [noBody])⟩
    cases step <;> first | cases noBody | (obtain rfl := Option.some.inj appends; rfl)

/-- A declaration of related items. -/
theorem genDecl {span : Span} {tok : Token} {grouped : Bool} {specs old : List Spec}
    (specsRelated : List.Forall₂ (fun new old => related (.spec new) (.spec old)) specs old) :
    related (.decl (.gen ⟨span, tok, specs, grouped⟩)) (.decl (.gen ⟨span, tok, old, grouped⟩)) :=
  congruence.parts (.genDecl span tok grouped specsRelated.length_eq)
    (List.forall₂_map_right_iff.mpr (List.forall₂_map_left_iff.mpr specsRelated))

/-- A file of related declarations. -/
theorem withDecls {decls : List Decl}
    (declsRelated : List.Forall₂ (fun new old => related (.decl new) (.decl old)) decls
      file.decls) :
    related (.file { file with decls }) (.file file) := by
  refine congruence.parts (.file file.span file.name file.package file.package file.comments
    declsRelated.length_eq) (.cons (congruence.refl _) ?_)
  exact List.forall₂_map_right_iff.mpr (List.forall₂_map_left_iff.mpr declsRelated)

/-- A file in which imports were restored. -/
theorem restored {keep : List String} {decls : List Decl} (atImport : ∀ spec : ImportSpec,
    related (.spec (.importSpec { spec with name := none })) (.spec (.importSpec spec))) :
    related (.file { file with decls := decls.map (Decl.restored keep) })
      (.file { file with decls }) := by
  have atSpec (item : Spec) : related (.spec (item.restored keep)) (.spec item) := by
    cases item with
    | importSpec spec =>
        simp only [Spec.restored, ImportSpec.restored]
        split
        · exact atImport spec
        · exact congruence.refl _
    | _ => exact congruence.refl _
  refine @withDecls _ congruence { file with decls } _ (List.forall₂_map_left_iff.mpr
    (List.forall₂_same.mpr fun item _ => ?_))
  cases item with
  | func decl => exact congruence.refl _
  | gen decl =>
      obtain ⟨span, tok, specs, grouped⟩ := decl
      exact congruence.genDecl (List.forall₂_map_left_iff.mpr
        (List.forall₂_same.mpr fun item _ => atSpec item))

variable (atImport : ∀ spec : ImportSpec,
  related (.spec (.importSpec { spec with name := some { name := "_" } })) (.spec (.importSpec spec)))

include atImport

/-- A file in which an import was blanked. -/
theorem blankImport {path : String} (outcome : file.blankImport path chain = .ok (edit, edited)) :
    related (.file edited) (.file file) := by
  have atSpec (item new : Spec) (blanked : item.blanked? path = some new) :
      related (.spec new) (.spec item) := by
    cases item with
    | importSpec spec =>
        obtain ⟨changed, isChanged, rfl⟩ := Option.map_eq_some_iff.mp blanked
        simp only [ImportSpec.blanked?, Option.ite_none_right_eq_some, Option.some.injEq]
          at isChanged
        obtain ⟨-, rfl⟩ := isChanged
        exact atImport spec
    | _ => cases blanked
  have atDecl (item new : Decl) (blanked : item.blanked? path = some new) :
      related (.decl new) (.decl item) := by
    cases item with
    | func decl => cases blanked
    | gen decl =>
        obtain ⟨span, tok, items, grouped⟩ := decl
        obtain ⟨specs, changes, rfl⟩ := Option.map_eq_some_iff.mp blanked
        exact congruence.genDecl (changeFirst?_relates (fun item _ => congruence.refl (.spec item))
          (fun item _ => atSpec item) changes)
  unfold File.blankImport at outcome
  split at outcome
  · split at outcome
    · cases outcome
    · next decls changes =>
        obtain ⟨-, rfl⟩ := Prod.mk.inj (Except.ok.inj outcome)
        exact congruence.withDecls (changeFirst?_relates
          (fun item _ => congruence.refl (.decl item)) (fun item _ => atDecl item) changes)
  · cases outcome

end Congruence

/-- A file and the file after a fix. -/
theorem FixCongruence.mend {related : Node → Node → Prop} (fixes : FixCongruence related)
    {shape : Shape} {chain : List Address} {file edited : File} {edit : Edit}
    (whole : Whole (.file file)) (outcome : shape.mend chain file = .ok (edit, edited)) :
    related (.file edited) (.file file) := by
  cases shape with
  | unusedVariable name => exact fixes.addRead (fixes.atOwner name) whole outcome
  | unusedImport path => exact fixes.blankImport (fun spec => fixes.atImport spec _) outcome
  | noNewVariables => exact fixes.replaceDefine fixes.atDefine outcome

/-- Fixes leave a body to every loop. -/
theorem FixCongruence.whole :
    FixCongruence fun new old => new.sort = old.sort ∧ (Whole old → Whole new) where
  toCongruence := Congruence.whole
  atOwner name step changed isOwner appends := by
    obtain ⟨sortEq, hasBody, childrenEq⟩ := children_append isOwner appends
    refine ⟨sortEq, fun whole => .node (by rintro step ⟨⟩; exact hasBody) ?_⟩
    rw [childrenEq]
    exact List.forall_mem_append.mpr
      ⟨fun child mem => whole.child mem, List.forall_mem_singleton.mpr (.discardRead name)⟩
  atDefine step changed replaced := by
    obtain ⟨_, _, _, _, rfl, rfl⟩ | ⟨_, _, _, _, _, _, rfl, rfl⟩ :=
      Stmt.exists_of_withoutDefine? replaced
    · refine ⟨rfl, fun whole => .node (by rintro step ⟨⟩; rfl) fun child mem => whole.child mem⟩
    · refine ⟨rfl, fun whole => .node ?_ fun child mem => whole.child mem⟩
      rintro step ⟨⟩
      exact whole.hasBody
  atImport spec name := ⟨rfl, fun _ => .importSpec _⟩

end Node

/-! ### Runs -/

/-- Files that come from one by fixes for shapes of diagnostics. -/
inductive Mended (file : File) : File → Prop
  | nothing : Mended file file
  | mend {diagnostic : Diagnostic} {shape : Shape} {chain : List Address} {middle edited : File}
      {edit : Edit} (before : Mended file middle) (isShape : diagnostic.shape? = some shape)
      (outcome : shape.mend chain middle = .ok (edit, edited)) : Mended file edited

theorem Mended.whole {file edited : File} (mended : Mended file edited)
    (whole : Whole (.file file)) : Whole (.file edited) := by
  induction mended with
  | nothing => exact whole
  | mend before isShape outcome ih => exact (FixCongruence.whole.mend ih outcome).2 ih

/-- A file of a list that is related to another one is changed. -/
theorem forall₂_set {related : File → File → Prop} {files new : List File} {unit : Nat}
    {file edited : File} (allRelated : List.Forall₂ related files new)
    (isFile : new[unit]? = some file) (changed : ∀ old, related old file → related old edited) :
    List.Forall₂ related files (new.set unit edited) := by
  induction allRelated generalizing unit with
  | nil => cases isFile
  | cons first others ih =>
      cases unit with
      | zero =>
          obtain rfl := Option.some.inj isFile
          exact .cons (changed _ first) others
      | succ unit => exact .cons first (ih isFile)

/-- The fixers that there are mend shapes in the ways that there are. -/
theorem Fixer.mend_of_builtin {fixer : Fixer} (isBuiltin : fixer ∈ Fixer.builtin) :
    fixer.mend = Shape.mend := by
  simp only [Fixer.builtin, List.mem_cons, List.not_mem_nil, or_false] at isBuiltin
  rcases isBuiltin with rfl | rfl | rfl <;> rfl

section Runs

variable {files : List File}

/-- A fix that mends the shape of its diagnostic in the way that there is. -/
structure PendingFix.Mends (fix : PendingFix) : Prop where
  isShape : fix.diagnostic.shape? = some fix.shape
  mend_eq : fix.fixer.mend = Shape.mend

theorem PendingFix.apply_mended {fix : PendingFix} {progress : Progress} (mends : fix.Mends)
    (mended : List.Forall₂ Mended files progress.files) :
    List.Forall₂ Mended files (fix.apply progress).files := by
  unfold apply
  split
  · exact mended
  · next file isFile =>
      split
      · next edit edited outcome =>
          rw [mends.mend_eq] at outcome
          exact forall₂_set mended isFile fun old before => .mend before mends.isShape outcome
      · exact mended

theorem PendingFix.foldl_mended {fixes : List PendingFix} {progress : Progress}
    (mends : ∀ fix ∈ fixes, fix.Mends) (mended : List.Forall₂ Mended files progress.files) :
    List.Forall₂ Mended files (fixes.foldl apply progress).files := by
  induction fixes generalizing progress with
  | nil => exact mended
  | cons fix fixes ih =>
      obtain ⟨first, others⟩ := List.forall_mem_cons.mp mends
      exact ih others (apply_mended first mended)

/-- The fixes that wait are those of the shapes. -/
theorem Triage.mends_of_pending {set : FileSet} {current : List File} {diagnostic : Diagnostic}
    {fix : PendingFix} (pending : Triage.of .standard set current diagnostic = .pending fix) :
    fix.Mends := by
  unfold Triage.of at pending
  split at pending
  · cases pending
  · next shape isShape =>
      obtain ⟨standard, isStandard, mendEq⟩ := FixerRegistry.exists_standard shape
      split at pending
      · cases pending
      · split at pending
        · next file fixer isFile isFixer =>
            obtain rfl := Triage.pending.inj pending
            obtain rfl := Option.some.inj (isStandard.symm.trans isFixer)
            exact ⟨isShape, mendEq⟩
        · cases pending

theorem mendAll_mended (set : FileSet) {current : List File} (diagnostics : List Diagnostic)
    (mended : List.Forall₂ Mended files current) :
    List.Forall₂ Mended files (mendAll .standard set current diagnostics).files := by
  refine PendingFix.foldl_mended (fun fix isFix => ?_) mended
  obtain ⟨triaged, isTriaged, isPending⟩ := List.mem_filterMap.mp isFix
  obtain ⟨diagnostic, -, rfl⟩ := List.mem_map.mp isTriaged
  cases outcome : Triage.of .standard set current diagnostic with
  | unhandled problem => simp [outcome, Triage.fix?] at isPending
  | pending other =>
      rw [outcome] at isPending
      exact Option.some.inj isPending ▸ Triage.mends_of_pending outcome

/-- Whatever the checker says, the passes of a run apply fixes. -/
theorem Run.passes_mended (checker : Checker) (set : FileSet) (tries remaining made : Nat)
    {current : List File} (unhandled : List Problem) (mended : List.Forall₂ Mended files current) :
    List.Forall₂ Mended files
      (Run.passes checker .standard set tries remaining made current unhandled).files := by
  induction remaining generalizing made current unhandled with
  | zero =>
      unfold passes outOfTries
      split <;> exact mended
  | succ remaining ih =>
      unfold passes
      cases answered : checker.check made current with
      | error error =>
          simp only [runPass, answered]
          exact mended
      | ok diagnostics =>
          have after := mendAll_mended set diagnostics mended
          simp only [runPass, answered]
          show List.Forall₂ Mended files (Run.after _ _).files
          dsimp only [Run.after]
          split
          · exact ih (made + 1) _ after
          · exact after

theorem quickFix_mended {checker : Checker} {set : FileSet} {tries : Int} {run : Run}
    (outcome : quickFix checker .standard set tries files = .ok run) :
    List.Forall₂ Mended files run.files := by
  unfold quickFix at outcome
  split at outcome
  · cases outcome
  · obtain rfl := Except.ok.inj outcome
    exact Run.passes_mended checker set _ _ _ _ (List.forall₂_same.mpr fun _ _ => .nothing)

end Runs

end GoMend
