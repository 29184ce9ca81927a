import GoMend.Check.Package
import GoMend.Check.ImportName
import GoMend.Fix.Fixer
import GoMend.Fix.Problem
import GoMend.Log

/-!
# Passes

A pass checks the files of a package once and mends what it can.  All diagnostics are located
before the first edit, since edits may add nodes.  Every diagnostic is either mended or left as a
problem: first those that cannot be tried, then those whose fix failed.
-/

namespace GoMend

/-- A source of diagnostics.  It is told how often it was asked before, and may answer differently
from time to time. -/
structure Checker where
  /-- The name under which its answers are logged, if they are. -/
  name : Option String := none
  check : Nat → List File → Except CheckError (List Diagnostic)

namespace Checker

/-- The name of the check of scopes. -/
def scopeCheckName : String :=
  "scope-checker"

/-- The check of scopes, given the package names of import paths. -/
def scopeCheck (importNames : List (String × String)) : Checker where
  name := some scopeCheckName
  check _ files := checkPackage (ImportPath.packageName importNames) files

/-- The checker that gives answers from a list one after the other and then finds nothing. -/
def scripted (answers : List (List Diagnostic)) : Checker where
  check call _ := .ok (Diagnostic.sorted (answers[call]?.getD []))

/-- What is logged about an answer. -/
def logAnswer (checker : Checker) (files : List File) (diagnostics : List Diagnostic) : Log :=
  checker.name.toList.map fun name =>
    .debug s!"{name}: {diagnostics.length} diagnostic(s) in {files.length} file(s)"

end Checker

/-- A fix that waits until every diagnostic of the pass is located. -/
structure PendingFix where
  diagnostic : Diagnostic
  shape : Shape
  /-- The index of the file that owns the position. -/
  unit : Nat
  /-- The nodes around the position, the innermost one first. -/
  chain : List Node.Address
  fixer : Fixer

/-- What becomes of a diagnostic before the first edit. -/
inductive Triage where
  | unhandled (problem : Problem)
  | pending (fix : PendingFix)

namespace Triage

/-- Find out whether there is a fix for a diagnostic, and where.  The set of files shows places. -/
def of (registry : FixerRegistry) (set : FileSet) (files : List File)
    (diagnostic : Diagnostic) : Triage :=
  match diagnostic.shape? with
  | none => .unhandled (.unmended diagnostic)
  | some shape =>
      match findUnit? files diagnostic.pos with
      | none => .unhandled (.unlocated diagnostic (set.position diagnostic.pos).render)
      | some unit =>
          match files[unit]?, registry.get? shape.fixId with
          | some file, some fixer =>
              let chain := (file.enclosing diagnostic.pos).map (·.address)
              .pending { diagnostic, shape, unit, chain, fixer }
          | _, _ => .unhandled (.unmended diagnostic)

/-- The problem that a diagnostic is without any edit. -/
def problem? : Triage → Option Problem
  | .unhandled problem => some problem
  | .pending _ => none

/-- The fix that waits. -/
def fix? : Triage → Option PendingFix
  | .unhandled _ => none
  | .pending fix => some fix

end Triage

/-- The files during a pass, with what was said and what was left. -/
structure Progress where
  files : List File
  unhandled : List Problem := []
  log : Log := []

/-- Apply a fix to its file as it is now. -/
def PendingFix.apply (progress : Progress) (fix : PendingFix) : Progress :=
  match progress.files[fix.unit]? with
  | none => progress
  | some file =>
      match fix.fixer.mend fix.shape fix.chain file with
      | .ok (edit, edited) =>
          { progress with
            files := progress.files.set fix.unit edited
            log := progress.log ++ [.debug s!"{file.name}: {edit.message}"] }
      | .error failure =>
          let title := Text.quoted fix.diagnostic.message
          { progress with
            unhandled := progress.unhandled ++ [.unmended fix.diagnostic]
            log := progress.log ++ [.debug s!"cannot fix {title}: {failure.message}"] }

/-- What a pass did. -/
structure PassResult where
  files : List File
  /-- Whether the checker reported anything, so that another pass is needed. -/
  foundError : Bool
  unhandled : List Problem
  log : Log

/-- Mend the diagnostics of a pass. -/
def mendAll (registry : FixerRegistry) (set : FileSet) (files : List File)
    (diagnostics : List Diagnostic) : Progress :=
  let triaged := diagnostics.map (Triage.of registry set files)
  (triaged.filterMap Triage.fix?).foldl PendingFix.apply
    { files, unhandled := triaged.filterMap Triage.problem? }

/-- One pass over the files of a package. -/
def runPass (checker : Checker) (registry : FixerRegistry) (set : FileSet) (call : Nat)
    (files : List File) : Except CheckError PassResult := do
  let diagnostics ← checker.check call files
  let progress := mendAll registry set files diagnostics
  return {
    files := progress.files
    foundError := !diagnostics.isEmpty
    unhandled := progress.unhandled
    log := checker.logAnswer files diagnostics ++ progress.log }

end GoMend
