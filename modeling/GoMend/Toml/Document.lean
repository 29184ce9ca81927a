import GoMend.Toml.Reader

/-!
# TOML documents

A document is a sequence of lines: definitions, headers of tables and of arrays of tables, comments
and blank lines.  Nothing can be defined twice: a table has one header at most, a table that was
made by a definition has none, and nothing is added to what was written as one value.
-/

namespace GoMend

namespace Toml

/-- What was read of a document. -/
structure Document where
  entries : Value.Entries := []
  /-- The table whose header was read last. -/
  header : Key := []
  /-- The tables that can have no other header. -/
  opened : List Key := []
  /-- The tables that were made by definitions since the last header. -/
  implied : List Key := []
  /-- The values to which nothing can be added. -/
  closed : List Key := []

namespace Document

/-- The document at the end of the definitions below a header. -/
def endSection (document : Document) : Document :=
  { document with opened := document.opened ++ document.implied, implied := [] }

/-- The tables on the way from the last header to a value, without both ends. -/
def tablesOnWay (document : Document) (way : Key) : List Key :=
  (List.range (way.length - 1)).map fun index => document.header ++ way.take (index + 1)

/-- Define a value below the last header. -/
def define? (document : Document) (way : Key) (value : Value) : Option Document := do
  let tables := document.tablesOnWay way
  let place := document.header ++ way
  if tables.any document.opened.contains || isBelow document.closed place.dropLast then
    none
  else
    let entries ← defineAt? true place value document.entries
    return { document with
      entries
      implied := document.implied ++ tables
      closed := if value.isNested then place :: document.closed else document.closed }

/-- Begin a table. -/
def openTable? (document : Document) (way : Key) : Option Document := do
  if document.opened.contains way || isBelow document.closed way then
    none
  else
    let entries ← changeAt? true some way document.entries
    return { document with entries, header := way, opened := document.opened ++ [way] }

/-- Add an empty table to an array of tables. -/
def addTable? (name : String) (entries : Value.Entries) : Option Value.Entries :=
  match entries.lookup name with
  | none => some (entries ++ [(name, .list [.table []])])
  | some (.list items) => some (entries.replace name (.list (items ++ [.table []])))
  | some _ => none

/-- Begin another table of an array of tables.  What was said about the table before it is no
longer of importance. -/
def openNext? (document : Document) (way : Key) : Option Document := do
  if isBelow document.closed way then
    none
  else
    let name ← way.getLast?
    let entries ← changeAt? true (addTable? name) way.dropLast document.entries
    return { document with
      entries
      header := way
      opened := document.opened.filter (!way.isPrefixOf ·) ++ [way]
      closed := document.closed.filter (!way.isPrefixOf ·) }

/-- Read a header between brackets. -/
def headerKey (opening closing : List Char) : Reader Key := do
  expect opening
  skipGaps
  let way ← key
  expect closing
  return way

/-- Read a definition or a header. -/
def statement (document : Document) : Reader Document := do
  match ← get with
  | '[' :: '[' :: _ =>
      let way ← headerKey ['[', '['] [']', ']']
      (document.endSection.openNext? way : Option Document)
  | '[' :: _ =>
      let way ← headerKey ['['] [']']
      (document.endSection.openTable? way : Option Document)
  | _ =>
      let way ← key
      expect ['=']
      skipGaps
      let item ← anyValue
      (document.define? way item : Option Document)

/-- Read a line with its end.  Nothing but a comment may follow a statement. -/
def line (document : Document) : Reader Document := do
  skipGaps
  let document ←
    match ← get with
    | [] | '\n' :: _ | '#' :: _ => pure document
    | _ => document.statement
  skipGaps
  skipComment
  if !(← get).isEmpty then
    expect ['\n']
  return document

/-- Read so many lines at most. -/
def lines : Nat → Document → Reader Document
  | 0, document => return document
  | limit + 1, document => do
      if (← get).isEmpty then
        return document
      else
        lines limit (← document.line)

end Document

/-- The text with line feeds only where a carriage return stands before them. -/
def withoutReturns : List Char → List Char
  | [] => []
  | '\r' :: '\n' :: rest => '\n' :: withoutReturns rest
  | char :: rest => char :: withoutReturns rest

/-- The values that a text defines, if it is a document. -/
def parse? (text : String) : Option Value.Entries := do
  let chars := withoutReturns text.toList
  let (document, _) ← (Document.lines chars.length {}).run chars
  return document.entries

end Toml

end GoMend
