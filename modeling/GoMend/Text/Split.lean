/-!
# Splitting text

The parts of a text between the occurrences of a character.  There is always one part more than
there are occurrences.
-/

namespace GoMend

namespace Text

/-- The parts of a text between separators. -/
def splitAt (separator : Char) : List Char → List (List Char)
  | [] => [[]]
  | char :: rest =>
      if char = separator then
        [] :: splitAt separator rest
      else
        match splitAt separator rest with
        | [] => [[char]]
        | first :: parts => (char :: first) :: parts

/-- The parts of a text between separators, as texts. -/
def split (separator : Char) (text : String) : List String :=
  (splitAt separator text.toList).map String.ofList

end Text

end GoMend
