import GoMend.Text.Blank

/-!
# Columns

Rows of cells are set in columns.  A cell widens its column only if another cell follows it in
its row, so that the last cell of a row never pushes anything aside.
-/

namespace GoMend

namespace Layout

/-- The text of cells one after the other with a blank between them. -/
def joined (cells : List String) : String :=
  " ".intercalate cells

/-- The text filled up with blanks to a width. -/
def padded (width : Nat) (text : String) : String :=
  text ++ String.ofList (List.replicate (width - text.length) ' ')

/-- The larger of the widths of each column; a missing column has no width. -/
def maxWidths : List Nat → List Nat → List Nat
  | [], widths => widths
  | widths, [] => widths
  | first :: firsts, second :: seconds => max first second :: maxWidths firsts seconds

/-- The widths that the cells of a row ask for. -/
def rowWidths (row : List String) : List Nat :=
  row.dropLast.map String.length

/-- The widths of the columns of rows. -/
def columnWidths (rows : List (List String)) : List Nat :=
  rows.foldl (fun widths row => maxWidths widths (rowWidths row)) []

/-- A row with all of its cells but the last one filled up. -/
def padRow : List Nat → List String → List String
  | width :: widths, cell :: second :: cells =>
      padded width cell :: padRow widths (second :: cells)
  | _, cells => cells

/-- The rows set in columns, one line for each, without blanks at their ends. -/
def align (rows : List (List String)) : List String :=
  let widths := columnWidths rows
  rows.map fun row => Text.trimEnd (joined (padRow widths row))

end Layout

end GoMend
