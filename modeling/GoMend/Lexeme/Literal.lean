import GoMend.Unicode.Numeral
import GoMend.Token

/-!
# Literals

Each reader takes the characters from the beginning of a literal on and gives the characters that
belong to it, which are a beginning of the given ones.
-/

namespace GoMend

namespace Literal

/-- Whether a character may stand in a decimal literal after its first digit. -/
def isDecimalPart (char : Char) : Bool :=
  char.isDigit || char = '_'

/-- Whether a character may stand in a hexadecimal literal after its marker. -/
def isHexPart (char : Char) : Bool :=
  char.isDigit || char = '_' || ('a' ≤ char && char ≤ 'f') || ('A' ≤ char && char ≤ 'F')

/-- Whether a character may stand in a binary literal after its marker. -/
def isBinaryPart (char : Char) : Bool :=
  char = '0' || char = '1' || char = '_'

/-- Whether a character may stand in an octal literal after its marker. -/
def isOctalPart (char : Char) : Bool :=
  ('0' ≤ char && char ≤ '7') || char = '_'

/-- The point and the digits after it, if a point stands here. -/
def fraction (isPart : Char → Bool) : List Char → List Char
  | '.' :: rest => '.' :: rest.takeWhile isPart
  | _ => []

/-- The sign of an exponent, if one stands here. -/
def sign : List Char → List Char
  | '+' :: _ => ['+']
  | '-' :: _ => ['-']
  | _ => []

/-- An exponent: one of two marks, an optional sign and at least one digit. -/
def exponent (lower upper : Char) : List Char → List Char
  | [] => []
  | mark :: rest =>
      let signed := sign rest
      let digits := (rest.drop signed.length).takeWhile isDecimalPart
      if (mark = lower || mark = upper) && !digits.isEmpty then
        mark :: (signed ++ digits)
      else
        []

/-- The parts of a literal one after the other, each read where the one before it ends. -/
def readParts (readers : List (List Char → List Char)) (chars : List Char) : List Char :=
  match readers with
  | [] => []
  | reader :: others =>
      let part := reader chars
      part ++ readParts others (chars.drop part.length)

/-- The digits after the marker of a hexadecimal literal, its fraction and its exponent. -/
def hexadecimalTail : List Char → List Char :=
  readParts [List.takeWhile isHexPart, fraction isHexPart, exponent 'p' 'P']

/-- The digits of a decimal literal, its fraction and its exponent. -/
def decimalText : List Char → List Char
  | [] => []
  | first :: rest =>
      if first.isDigit then
        first :: readParts
          [List.takeWhile isDecimalPart, fraction isDecimalPart, exponent 'e' 'E'] rest
      else
        match first, rest with
        | '.', digit :: _ =>
            if digit.isDigit then
              first :: readParts [List.takeWhile isDecimalPart, exponent 'e' 'E'] rest
            else
              []
        | _, _ => []

/-- A literal whose marker says that at least one digit of the class follows. -/
def markedText (isPart : Char → Bool) (mark : Char) (rest : List Char) : Option (List Char) :=
  let digits := rest.takeWhile isPart
  if digits.isEmpty then none else some ('0' :: mark :: digits)

/-- A number without the mark of an imaginary one.  A binary or octal marker without a digit after
it does not belong to the number. -/
def realText (chars : List Char) : List Char :=
  match chars with
  | '0' :: mark :: rest =>
      if mark = 'x' || mark = 'X' then
        '0' :: mark :: hexadecimalTail rest
      else if mark = 'b' || mark = 'B' then
        (markedText isBinaryPart mark rest).getD (decimalText chars)
      else if mark = 'o' || mark = 'O' then
        (markedText isOctalPart mark rest).getD (decimalText chars)
      else
        decimalText chars
  | _ => decimalText chars

/-- The mark of an imaginary number, if it stands here. -/
def imaginaryMark : List Char → List Char
  | 'i' :: _ => ['i']
  | _ => []

/-- A number, empty when the characters do not begin with one. -/
def number (chars : List Char) : List Char :=
  match realText chars with
  | [] => []
  | real => real ++ imaginaryMark (chars.drop real.length)

/-- The class of a number. -/
def numberToken (text : List Char) : Token :=
  if text.getLast? = some 'i' then
    .imag
  else
    match text with
    | '0' :: mark :: rest =>
        if mark = 'x' || mark = 'X' then
          if rest.any (fun char => char = '.' || char = 'p' || char = 'P') then .float else .int
        else if mark = 'b' || mark = 'B' || mark = 'o' || mark = 'O' then
          .int
        else if text.any (fun char => char = '.' || char = 'e' || char = 'E') then
          .float
        else
          .int
    | _ => if text.any (fun char => char = '.' || char = 'e' || char = 'E') then .float else .int

/-- What follows the opening quote of a literal, up to its closing quote.  A backslash takes the
next character with it, whichever that is, and otherwise a line end is not allowed. -/
def afterQuote (quote : Char) : List Char → Option (List Char)
  | [] => none
  | ['\\'] => none
  | '\\' :: escaped :: rest => (afterQuote quote rest).map ('\\' :: escaped :: ·)
  | char :: rest =>
      if char = '\n' then
        none
      else if char = quote then
        some [char]
      else
        (afterQuote quote rest).map (char :: ·)

/-- What follows the opening quote of a raw literal, up to its closing quote. -/
def afterRawQuote : List Char → Option (List Char)
  | [] => none
  | char :: rest =>
      if char = '\x60' then some [char] else (afterRawQuote rest).map (char :: ·)

/-- What follows the opening marker of a general comment, up to its closing marker. -/
def afterCommentMark : List Char → Option (List Char)
  | [] => none
  | '*' :: '/' :: _ => some ['*', '/']
  | char :: rest => (afterCommentMark rest).map (char :: ·)

end Literal

end GoMend
