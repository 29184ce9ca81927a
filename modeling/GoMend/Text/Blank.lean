import GoMend.Text.CodeSet

/-!
# Blank characters

White space in the sense of the bidirectional classes `WS`, `B` and `S` together with the
category `Zs`, and the trimming of text at its ends.
-/

namespace GoMend

namespace Text

/-- The blank characters; the carriage return and the line separators are among them. -/
def blankSet : CodeSet :=
  ⟨[
    9, 14, 28, 33, 133, 134, 160, 161, 5760, 5761, 8192, 8203, 8232, 8234, 8239, 8240, 8287,
    8288, 12288, 12289]⟩

/-- Whether a character is white space. -/
def isBlank (char : Char) : Bool :=
  blankSet.contains char.toNat

/-- The text without the blanks at its end. -/
def trimEnd (text : String) : String :=
  String.ofList (text.toList.reverse.dropWhile isBlank).reverse

/-- The text without the blanks at both of its ends. -/
def trim (text : String) : String :=
  trimEnd (String.ofList (text.toList.dropWhile isBlank))

end Text

end GoMend
