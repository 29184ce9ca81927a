import GoMend.Unicode.Numeral

/-!
# Package names of imports

The name that an import binds is taken from a table, or else guessed from the path: its last
element without a version, a leading `go-` and everything from the first character on that cannot
stand in a name.
-/

namespace GoMend

namespace ImportPath

/-- The part of a path after its last slash. -/
def lastElement (path : List Char) : List Char :=
  (path.reverse.takeWhile (· ≠ '/')).reverse

/-- The part of a path before its last element, without the slashes at its end unless it consists
of slashes only. -/
def parent (path : List Char) : List Char :=
  let head := (path.reverse.dropWhile (· ≠ '/')).reverse
  if head.all (· = '/') then head else (head.reverse.dropWhile (· = '/')).reverse

/-- Whether an element is a version: a `v` and digits. -/
def isVersion : List Char → Bool
  | 'v' :: digits => !digits.isEmpty && digits.all Text.isDigit
  | _ => false

/-- Whether a character can stand in a package name. -/
def isNameChar (char : Char) : Bool :=
  char = '_' || Text.isLetter char || Text.isDigit char

/-- The element without a leading `go-`. -/
def withoutGoMark : List Char → List Char
  | 'g' :: 'o' :: '-' :: rest => rest
  | element => element

/-- The element of a path that names its package. -/
def namingElement (path : List Char) : List Char :=
  let element := lastElement path
  let outer := parent path
  if isVersion element && !outer.isEmpty then lastElement outer else element

/-- The package name guessed from a path without its quotes; odd paths may give an empty one. -/
def assumedName (path : String) : String :=
  String.ofList ((withoutGoMark (namingElement path.toList)).takeWhile isNameChar)

/-- The package name of a path: the one in the table, or else the guessed one. -/
def packageName (table : List (String × String)) (path : String) : String :=
  (table.lookup path).getD (assumedName path)

end ImportPath

end GoMend
