import GoMend.Layout.Columns
import GoMend.Lexeme

/-!
# The page

A page collects lines of output.  It also holds the comments that are still to be printed and the
source line that was printed last, from which follows where a blank line is due and which comment
stays on the line of what precedes it.
-/

namespace GoMend

/-- Why a tree cannot be printed. -/
inductive PrintError where
  /-- A clause that stands neither in a `switch` nor in a `select`. -/
  | strayClause (kind : String)
  /-- A statement where a simple one belongs. -/
  | notSimple (kind : String)
  /-- An `else` that is followed by neither an `if` nor a block. -/
  | badElse (kind : String)
  /-- Something else than a clause in a `switch` or a `select`. -/
  | notAClause (kind : String)
  /-- A node that is not printed on its own. -/
  | notPrintable (kind : String)
  /-- A declaration without parentheses and without an item. -/
  | missingItem
  deriving DecidableEq, Repr

/-- The wording of a printing error, if it has one. -/
def PrintError.message? : PrintError → Option String
  | .strayClause kind => some s!"{kind} outside of switch or select"
  | .notSimple kind => some s!"unexpected statement {kind}"
  | .badElse kind => some s!"unexpected else branch {kind}"
  | .notAClause kind => some s!"unexpected clause {kind}"
  | .notPrintable kind => some s!"cannot print {kind}"
  | .missingItem => none

/-- The state of a page. -/
structure Page where
  /-- The lines so far, the last one first. -/
  lines : List String := []
  indent : Nat := 0
  /-- The comments that are still to be printed, by position. -/
  comments : List Comment := []
  /-- The source line on which the last printed part ended, or zero if it is unknown. -/
  lastLine : Nat := 0

/-- Printing reads the set of files for the lines of positions, writes a page, and may fail. -/
abbrev Print := ReaderT (Option FileSet) (StateT Page (Except PrintError))

namespace Layout

/-- Tabs for a depth of indentation. -/
def tabs (indent : Nat) : String :=
  String.ofList (List.replicate indent '\t')

/-- The source line of a position, or zero if it is unknown. -/
def lineIn (set : Option FileSet) (pos : Pos) : Nat :=
  match set with
  | none => 0
  | some set => if pos = noPos then 0 else (set.position pos).line

/-- The source line of a position, or zero if it is unknown. -/
def lineOf (pos : Pos) : Print Nat :=
  return lineIn (← read) pos

/-- A line with its indentation; an empty line has none. -/
def indented (indent : Nat) (text : String) : String :=
  if text.isEmpty then "" else tabs indent ++ text

/-- Write a line. -/
def emit (text : String) : Print Unit :=
  modify fun page => { page with lines := indented page.indent text :: page.lines }

/-- Write a line one step further to the left. -/
def emitOutdented (text : String) : Print Unit :=
  modify fun page => { page with lines := indented (page.indent - 1) text :: page.lines }

/-- Write an empty line, except at the top and after another one. -/
def blankLine : Print Unit :=
  modify fun page =>
    match page.lines with
    | [] => page
    | last :: _ => if last.isEmpty then page else { page with lines := "" :: page.lines }

/-- Write an empty line if the given source line is not the next one after the last. -/
def blankLineBefore (line : Nat) : Print Unit := do
  let lastLine := (← get).lastLine
  if lastLine ≠ 0 && lastLine + 1 < line then
    blankLine

/-- Take the comments before a position from those that are still to be printed. -/
def takeComments (pos : Pos) : Print (List Comment) := do
  let comments := (← get).comments
  modify fun page => { page with comments := comments.dropWhile (·.span.start < pos) }
  return comments.takeWhile (·.span.start < pos)

/-- Set the last source line, if it is known. -/
def finish (pos : Pos) : Print Unit := do
  let line ← lineOf pos
  if line ≠ 0 then
    modify fun page => { page with lastLine := line }

/-- Put a text at the end of the last line. -/
def appendToLine (text : String) : Print Unit :=
  modify fun page =>
    match page.lines with
    | [] => page
    | last :: lines => { page with lines := (last ++ " " ++ text) :: lines }

/-- Whether the last line is there and is not empty. -/
def hasOpenLine : Print Bool :=
  return (← get).lines.head?.any (!·.isEmpty)

/-- Write a comment that precedes a node: on the last line if it stands there in the source, and
otherwise on its own line. -/
def leadingComment (comment : Comment) : Print Unit := do
  let line ← lineOf comment.span.start
  let lastLine := (← get).lastLine
  if (← hasOpenLine) && lastLine ≠ 0 && line = lastLine then
    appendToLine comment.text
  else
    blankLineBefore line
    emit comment.text
  finish comment.span.stop

/-- Write what precedes a node: an empty line if the source has one or if it is asked for, and the
comments before the node. -/
def advance (pos : Pos) (separate : Bool) : Print Unit := do
  if pos = noPos then
    return
  let pending ← takeComments pos
  if separate then
    blankLine
  else
    blankLineBefore (← lineOf ((pending.head?.map (·.span.start)).getD pos))
  pending.forM leadingComment
  if !pending.isEmpty then
    blankLineBefore (← lineOf pos)

/-- Write a comment after the last declaration. -/
def trailingComment (comment : Comment) : Print Unit := do
  let line ← lineOf comment.span.start
  let lastLine := (← get).lastLine
  if (← hasOpenLine) && line ≠ 0 && line = lastLine then
    appendToLine comment.text
  else
    if lastLine = 0 || lastLine + 1 < line then
      blankLine
    emit comment.text
  let stopLine ← lineOf comment.span.stop
  modify fun page => { page with lastLine := stopLine }

/-- Print one step further to the right. -/
def nested {α : Type} (inner : Print α) : Print α := do
  modify fun page => { page with indent := page.indent + 1 }
  let result ← inner
  modify fun page => { page with indent := page.indent - 1 }
  return result

/-- The lines that a computation writes, apart from the page. -/
def capture (inner : Print Unit) : Print (List String) := do
  let saved := (← get).lines
  modify fun page => { page with lines := [] }
  inner
  let captured := (← get).lines
  modify fun page => { page with lines := saved }
  return captured.reverse

/-! ### Items on lines of their own -/

/-- A line of a layout. -/
structure Row where
  /-- Whether the row is an item, which is set in columns, or a comment or an empty line. -/
  isItem : Bool
  cells : List String

namespace Row

/-- An empty line. -/
def blank : Row := ⟨false, [""]⟩

/-- A comment on its own line. -/
def ofComment (comment : Comment) : Row := ⟨false, [comment.text]⟩

/-- Whether the last cell of a row is not empty. -/
def isOpen (row : Row) : Bool :=
  row.cells.getLast?.any (!·.isEmpty)

/-- The cells with a text at the end of the last one. -/
def appendToLast (text : String) : List String → List String
  | [] => []
  | [cell] => [cell ++ " " ++ text]
  | cell :: second :: cells => cell :: appendToLast text (second :: cells)

/-- The row with a text at the end of its last cell. -/
def append (row : Row) (text : String) : Row :=
  { row with cells := appendToLast text row.cells }

/-- Whether a row can be set in columns: an item without a line break. -/
def isAligned (row : Row) : Bool :=
  row.isItem && !row.cells.any (·.toList.contains '\n')

/-- The text of a row that is not set in columns. -/
def text (row : Row) : String :=
  if row.isItem then
    joined (row.cells.filter (!·.isEmpty))
  else
    row.cells.head?.getD ""

end Row

/-- Rows under construction. -/
structure Rows where
  /-- The rows so far, the last one first. -/
  rows : List Row := []
  /-- The source line on which the last row ended. -/
  prevLine : Nat

namespace Rows

/-- Add an empty line if the given source line is not the next one after the last row. -/
def gapBefore (rows : Rows) (line : Nat) : Rows :=
  if !rows.rows.isEmpty && rows.prevLine ≠ 0 && rows.prevLine + 1 < line then
    { rows with rows := .blank :: rows.rows }
  else
    rows

/-- Note the source line on which the last row ends, if it is known. -/
def endAt (rows : Rows) (line : Nat) : Rows :=
  if line = 0 then rows else { rows with prevLine := line }

/-- Add a comment: to the last row if it stands there in the source, and otherwise as a row. -/
def addComment (rows : Rows) (comment : Comment) : Print Rows := do
  let line ← lineOf comment.span.start
  let stopLine ← lineOf comment.span.stop
  match rows.rows with
  | last :: others =>
      if line ≠ 0 && line = rows.prevLine && last.isOpen then
        return endAt { rows with rows := last.append comment.text :: others } stopLine
      else
        let spaced := rows.gapBefore line
        return endAt { spaced with rows := .ofComment comment :: spaced.rows } stopLine
  | [] => return endAt { rows with rows := [.ofComment comment] } stopLine

/-- Add the comments before a position. -/
def addComments (rows : Rows) (pos : Pos) : Print Rows := do
  if pos ≤ noPos then
    return rows
  else
    (← takeComments pos).foldlM addComment rows

/-- Add what precedes an item that begins at a position. -/
def beforeItem (rows : Rows) (pos : Pos) : Print Rows := do
  let rows ← rows.addComments pos
  return rows.gapBefore (← lineOf pos)

/-- Add an item that ends at a position. -/
def addItem (rows : Rows) (cells : List String) (stop : Pos) : Print Rows := do
  return endAt { rows with rows := ⟨true, cells⟩ :: rows.rows } (← lineOf stop)

/-- The lines of rows, given the run of rows before them that are to be set in columns. -/
def linesFrom (run : List (List String)) : List Row → List String
  | [] => align run
  | row :: rest =>
      if row.isAligned then
        linesFrom (run ++ [row.cells]) rest
      else
        align run ++ row.text :: linesFrom [] rest

/-- The lines of the rows, with the remaining comments before the closing bracket.  Items that
follow each other directly on single lines are set in columns together. -/
def close (rows : Rows) (stop : Pos) : Print (List String) := do
  let rows ← rows.addComments stop
  return linesFrom [] rows.rows.reverse

end Rows

end Layout

end GoMend
