/-!
# Styles of a terminal

A terminal changes the style of what follows when it meets an escape, an opening bracket, parameters
and a letter.  Text that goes elsewhere is written without such sequences.
-/

namespace GoMend

namespace Text

/-- Whether a character can be a parameter of a style. -/
def isStyleParameter (char : Char) : Bool :=
  char.isDigit || char = ';' || char = '?'

/-- The number of characters of the style at the head of a text, or zero if there is none. -/
def styleLength : List Char → Nat
  | '\x1b' :: '[' :: rest =>
      match rest.dropWhile isStyleParameter with
      | [] => 0
      | letter :: _ =>
          if letter.isAlpha then (rest.takeWhile isStyleParameter).length + 3 else 0
  | _ => 0

/-- The text without styles, after some more characters that belong to one. -/
def dropStyles : (pending : Nat) → List Char → List Char
  | _, [] => []
  | pending + 1, _ :: rest => dropStyles pending rest
  | 0, char :: rest =>
      match styleLength (char :: rest) with
      | 0 => char :: dropStyles 0 rest
      | pending + 1 => dropStyles pending rest

/-- The text without styles. -/
def plain (text : String) : String :=
  String.ofList (dropStyles 0 text.toList)

end Text

end GoMend
