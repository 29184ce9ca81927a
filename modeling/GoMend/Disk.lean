import GoMend.Text.Split

/-!
# Files and directories

The state of a disk as far as a run can see it.  A place is the list of names from the root down to
a file or a directory; a path is what a user writes, and leads to a place from the working
directory.
-/

namespace GoMend

/-- The names from the root of the disk down to a file or a directory. -/
abbrev Place := List String

/-- A written path without its empty parts and single points.  Double points stay, since what they
mean depends on the disk. -/
structure Path where
  /-- The slashes at the beginning of an absolute path. -/
  root : String := ""
  parts : List String := []
  deriving DecidableEq, Repr, Inhabited

namespace Path

/-- The slashes with which a written path begins: none, one, or two if it begins with exactly
two. -/
def rootOf (text : String) : String :=
  match (text.toList.takeWhile (· = '/')).length with
  | 0 => ""
  | 2 => "//"
  | _ => "/"

/-- The path that a text writes. -/
def ofText (text : String) : Path where
  root := rootOf text
  parts := (Text.split '/' text).filter fun part => part ≠ "" && part ≠ "."

/-- Whether a path begins at the root of the disk. -/
def isAbsolute (path : Path) : Bool :=
  path.root ≠ ""

/-- The text of a path. -/
def render (path : Path) : String :=
  if path.parts.isEmpty && !path.isAbsolute then
    "."
  else
    path.root ++ "/".intercalate path.parts

/-- The path of the directory that holds what a path leads to. -/
def parent (path : Path) : Path :=
  { path with parts := path.parts.dropLast }

/-- The path of something in the directory that a path leads to. -/
def child (path : Path) (name : String) : Path :=
  { path with parts := path.parts ++ [name] }

end Path

/-- The files and directories of a disk. -/
structure Disk where
  files : List (Place × List UInt8) := []
  /-- Directories.  Those that hold a file or a directory need not be named. -/
  directories : List Place := []
  workingDirectory : Place := []
  deriving Repr

namespace Disk

/-- The content of the file at a place. -/
def file? (disk : Disk) (place : Place) : Option (List UInt8) :=
  disk.files.lookup place

/-- Whether there is a directory at a place. -/
def isDirectory (disk : Disk) (place : Place) : Bool :=
  (disk.file? place).isNone &&
    (place.isPrefixOf disk.workingDirectory || disk.directories.any (place.isPrefixOf ·) ||
      disk.files.any fun (file, _) => place.isPrefixOf file)

/-- Whether there is anything at a place. -/
def holds (disk : Disk) (place : Place) : Bool :=
  (disk.file? place).isSome || disk.isDirectory place

/-- The place that is reached by a list of names from another place.  Every step has to begin in a
directory. -/
def walkFrom? (disk : Disk) : Place → List String → Option Place
  | here, [] => some here
  | here, name :: rest =>
      if disk.isDirectory here then
        disk.walkFrom? (if name = ".." then here.dropLast else here ++ [name]) rest
      else
        none

/-- Where a path begins. -/
def origin (disk : Disk) (path : Path) : Place :=
  if path.isAbsolute then [] else disk.workingDirectory

/-- The place of the file or directory that a path leads to. -/
def find? (disk : Disk) (path : Path) : Option Place :=
  (disk.walkFrom? (disk.origin path) path.parts).filter disk.holds

/-- The place that a path means when double points are followed by name alone, whether there is
anything on the way or not. -/
def resolve (disk : Disk) (path : Path) : Place :=
  path.parts.foldl (fun here name => if name = ".." then here.dropLast else here ++ [name])
    (disk.origin path)

/-- The names of the files in a directory. -/
def fileNames (disk : Disk) (directory : Place) : List String :=
  disk.files.filterMap fun (file, _) =>
    if file.dropLast = directory then file.getLast? else none

/-- The disk with another content of a file. -/
def write (disk : Disk) (place : Place) (content : List UInt8) : Disk :=
  if (disk.file? place).isSome then
    { disk with
      files := disk.files.map fun entry => if entry.1 = place then (place, content) else entry }
  else
    { disk with files := disk.files ++ [(place, content)] }

/-- The nearest file of a name, from a directory upwards for so many steps. -/
def findUpwardWithin (disk : Disk) (path : Path) : Nat → Place → Option Place
  | steps, directory =>
      let found := (disk.walkFrom? directory path.parts).filter fun place =>
        (disk.file? place).isSome
      match found, steps with
      | some place, _ => some place
      | none, 0 => none
      | none, steps + 1 => disk.findUpwardWithin path steps directory.dropLast

/-- The nearest file of a name, from a directory upwards to the root. -/
def findUpward? (disk : Disk) (name : String) (directory : Place) : Option Place :=
  disk.findUpwardWithin (Path.ofText name) directory.length directory

end Disk

end GoMend
