import GoMend.Fix.DiscardRead
import GoMend.Log
import GoMend.Tree.Walk

/-!
# Taking fixes back

Fixes leave no record, so they are known by their form alone: every discard read is removed, and
every blank import is bound to its own name again unless its path is to be kept.

Where a removed statement was read from a file, the line above takes its lines over, so that no
gap is printed.  The line above is the last statement that stays, or else what opens the list of
statements.  Nothing is taken over across a comment.
-/

namespace GoMend

/-- Whether a comment begins between two positions. -/
def commentBetween (comments : List Comment) (start stop : Pos) : Bool :=
  comments.any fun comment => start ≤ comment.span.start && comment.span.start < stop

/-- The statement with the lines of a removed one after it. -/
def Stmt.takeOver (comments : List Comment) (removed : Span) (stmt : Stmt) : Stmt :=
  if stmt.span.isPositioned && !commentBetween comments stmt.span.stop removed.stop then
    stmt.withStop (max stmt.span.stop removed.stop)
  else
    stmt

/-- The position that opens a list, moved to a removed statement at the head of the list. -/
def moveOpening (comments : List Comment) (opening : Pos) (removed : Span) : Pos :=
  if opening ≠ noPos && !commentBetween comments opening removed.stop then
    removed.start
  else
    opening

/-- Remove the discard reads from a list of statements that is opened at a position.  The
statements that stay are collected, the last one first. -/
def withoutReads (comments : List Comment) : Pos → List Stmt → List Stmt → Pos × List Stmt
  | opening, kept, [] => (opening, kept.reverse)
  | opening, kept, stmt :: rest =>
      if !stmt.isDiscardRead then
        withoutReads comments opening (stmt :: kept) rest
      else if !stmt.span.isPositioned then
        withoutReads comments opening kept rest
      else
        match kept with
        | [] => withoutReads comments (moveOpening comments opening stmt.span) [] rest
        | last :: earlier =>
            withoutReads comments opening (last.takeOver comments stmt.span :: earlier) rest

/-- The node without discard reads in its own list of statements. -/
def Node.withoutReads (comments : List Comment) : Node → Node
  | .stmt (.block body) =>
      let (start, stmts) := GoMend.withoutReads comments body.span.start [] body.stmts
      .stmt (.block ⟨{ body.span with start }, stmts⟩)
  | .stmt (.caseClause span exprs body colon) =>
      let (colon, body) := GoMend.withoutReads comments colon [] body
      .stmt (.caseClause span exprs body colon)
  | .stmt (.commClause span comm body colon) =>
      let (colon, body) := GoMend.withoutReads comments colon [] body
      .stmt (.commClause span comm body colon)
  | other => other

namespace ImportSpec

/-- Whether an import is bound to the blank name. -/
def isBlank (spec : ImportSpec) : Bool :=
  spec.name.any (·.isBlank)

/-- Whether an import is to be bound to its own name again. -/
def isRestored (keep : List String) (spec : ImportSpec) : Bool :=
  spec.isBlank && !keep.contains spec.plainPath

/-- The import without a blank name, unless it is to be kept. -/
def restored (keep : List String) (spec : ImportSpec) : ImportSpec :=
  if spec.isRestored keep then { spec with name := none } else spec

end ImportSpec

/-- The item of a declaration with its import restored. -/
def Spec.restored (keep : List String) : Spec → Spec
  | .importSpec spec => .importSpec (spec.restored keep)
  | other => other

/-- The declaration with its imports restored. -/
def Decl.restored (keep : List String) : Decl → Decl
  | .gen decl => .gen { decl with specs := decl.specs.map (Spec.restored keep) }
  | other => other

namespace File

/-- The number of discard reads in the statements of a file. -/
def readCount (file : File) : Nat :=
  total ((Node.file file).stmtLists.map fun (_, stmts) => stmts.countP Stmt.isDiscardRead)

/-- The number of imports of a file that are to be restored. -/
def restoredCount (keep : List String) (file : File) : Nat :=
  file.imports.countP (·.isRestored keep)

/-- The file with all fixes taken back. -/
def reverted (keep : List String) (file : File) : File :=
  let stripped := file.changeAll (Node.withoutReads file.comments)
  { stripped with decls := stripped.decls.map (Decl.restored keep) }

/-- What is logged about the imports of a file that are kept. -/
def logKept (keep : List String) (file : File) : Log :=
  (file.imports.filter fun spec => spec.isBlank && !spec.isRestored keep).map fun spec =>
    .debug s!"{file.name}: keeping side-effect import {spec.path.value}"

end File

/-- What taking back fixes has done. -/
structure Reverted where
  files : List File
  /-- The number of statements removed and imports restored. -/
  count : Nat
  log : Log

/-- Take back the fixes in files. -/
def revertFixes (keep : List String) (files : List File) : Reverted :=
  let count := total (files.map fun file => file.readCount + file.restoredCount keep)
  { files := files.map (·.reverted keep)
    count
    log := files.flatMap (·.logKept keep) ++
      [.info s!"reverted {count} quick fix(es) in {files.length} file(s)"] }

end GoMend
