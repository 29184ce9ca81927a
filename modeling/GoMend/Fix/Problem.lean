import GoMend.Diagnostic
import GoMend.Text.Quoted

/-!
# Problems that remain

What a pass could not mend: a diagnostic, or a diagnostic whose position is in none of the files.
-/

namespace GoMend

/-- Something that a pass leaves unmended. -/
inductive Problem where
  | unmended (diagnostic : Diagnostic)
  /-- No file owns the position of the diagnostic; the text shows its place. -/
  | unlocated (diagnostic : Diagnostic) (place : String)
  deriving DecidableEq, Repr

/-- A numbered list of messages, one on a line. -/
def messageList (messages : List String) : String :=
  "\n".intercalate (s!"{messages.length} error(s):" :: messages.map ("- " ++ ·))

namespace Problem

/-- The wording of a problem. -/
def message : Problem → String
  | .unmended diagnostic => diagnostic.message
  | .unlocated diagnostic place =>
      s!"cannot find file for error {Text.quoted diagnostic.message}: {place} ({diagnostic.pos})"

/-- The position of a problem. -/
def pos : Problem → Pos
  | .unmended diagnostic | .unlocated diagnostic _ => diagnostic.pos

/-- The wording of a problem after its place, if it has one. -/
def render (set : FileSet) : Problem → String
  | .unmended diagnostic => s!"{(set.position diagnostic.pos).render}: {diagnostic.message}"
  | .unlocated diagnostic place => (Problem.unlocated diagnostic place).message

/-- The list of problems. -/
def listMessage (problems : List Problem) : String :=
  messageList (problems.map message)

/-- The list of problems with their places. -/
def listReport (set : FileSet) (problems : List Problem) : String :=
  messageList (problems.map (render set))

end Problem

end GoMend
