/-!
# Positions in a set of source files

A position is an integer.  Every file of a set owns a range of its own, so that positions of
different files can be compared directly, and zero belongs to no file.  All offsets and columns
count code points, and only the line feed begins a line.
-/

namespace GoMend

/-- A place in a set of files; zero is no place at all. -/
abbrev Pos := Int

/-- The position of what stands in no file. -/
def noPos : Pos := 0

/-- A half-open range of positions. -/
structure Span where
  start : Pos := noPos
  stop : Pos := noPos
  deriving DecidableEq, Repr, Inhabited

namespace Span

/-- The range of a node that was not read from a file. -/
def absent : Span := {}

/-- Whether a range was read from a file. -/
def isPositioned (span : Span) : Bool :=
  span.start != noPos

/-- Whether a position lies in the range. -/
def contains (span : Span) (pos : Pos) : Bool :=
  span.isPositioned && (span.start ≤ pos && pos < span.stop)

end Span

/-- A place as a reader sees it.  Line and column count from one, and the line zero says that the
place is unknown. -/
structure Position where
  file : String := ""
  line : Nat := 0
  column : Nat := 0
  deriving DecidableEq, Repr, Inhabited

namespace Position

/-- Whether the place is known. -/
def isValid (position : Position) : Bool :=
  0 < position.line

/-- The text of a place: file, line and column, as far as they are known. -/
def render (position : Position) : String :=
  if !position.isValid then
    if position.file.isEmpty then "-" else position.file
  else if position.file.isEmpty then
    s!"{position.line}:{position.column}"
  else
    s!"{position.file}:{position.line}:{position.column}"

end Position

/-- The offsets at which lines begin, given that a line begins at the offset before these
characters when `offset` is the offset of the first of them. -/
def lineStartsFrom (offset : Nat) : List Char → List Nat
  | [] => []
  | char :: rest =>
      if char = '\n' then
        (offset + 1) :: lineStartsFrom (offset + 1) rest
      else
        lineStartsFrom (offset + 1) rest

/-- One file of a set. -/
structure SourceFile where
  name : String
  /-- The position of the first character. -/
  base : Nat
  /-- The number of characters. -/
  size : Nat
  /-- The offsets at which lines begin, in increasing order. -/
  lineStarts : List Nat
  deriving DecidableEq, Repr

namespace SourceFile

/-- The file of a text whose first character has the position `base`. -/
def ofText (name : String) (base : Nat) (text : String) : SourceFile where
  name
  base
  size := text.length
  lineStarts := 0 :: lineStartsFrom 0 text.toList

/-- The position just after the last character. -/
def stop (file : SourceFile) : Nat :=
  file.base + file.size

/-- Whether a position is one of the file's.  The end of the file is. -/
def contains (file : SourceFile) (pos : Pos) : Bool :=
  (file.base : Int) ≤ pos && pos ≤ (file.stop : Int)

/-- The starts of the lines that begin at or before an offset. -/
def startsUpTo (file : SourceFile) (offset : Int) : List Nat :=
  file.lineStarts.takeWhile fun start => (start : Int) ≤ offset

/-- The line and column of a position.  Past the end of the file the last line goes on, and before
its beginning the place is unknown. -/
def position (file : SourceFile) (pos : Pos) : Position :=
  let offset := pos - file.base
  let starts := file.startsUpTo offset
  match starts.getLast? with
  | none => { file := file.name }
  | some start =>
      { file := file.name
        line := starts.length
        column := (offset - start).toNat + 1 }

end SourceFile

/-- A set of files in the order in which they were added. -/
structure FileSet where
  files : List SourceFile := []
  deriving DecidableEq, Repr, Inhabited

namespace FileSet

/-- The set without files. -/
def empty : FileSet := {}

/-- The first position that no file owns yet. -/
def nextBase (set : FileSet) : Nat :=
  match set.files.getLast? with
  | none => 1
  | some last => last.stop + 1

/-- Add a file after the others.  One position more than it has characters is given to it, so that
its end is not the beginning of the next file. -/
def add (set : FileSet) (name text : String) : FileSet × SourceFile :=
  let file := SourceFile.ofText name set.nextBase text
  ({ files := set.files ++ [file] }, file)

/-- The file that owns a position. -/
def file? (set : FileSet) (pos : Pos) : Option SourceFile :=
  if pos = noPos then none else set.files.find? (·.contains pos)

/-- The place of a position, unknown when no file owns it. -/
def position (set : FileSet) (pos : Pos) : Position :=
  match set.file? pos with
  | none => {}
  | some file => file.position pos

end FileSet

end GoMend
