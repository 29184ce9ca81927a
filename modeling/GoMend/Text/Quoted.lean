import GoMend.Unicode.Printable

/-!
# Quoted text

Messages show a piece of text between quotes.  Single quotes are used unless the text holds a
single quote and no double quote.  A backslash and the quote in use are escaped, and so is every
character that is not printable.
-/

namespace GoMend

namespace Text

/-- The lower-case hexadecimal digits of a number, padded with zeros to a width. -/
def hexadecimal (width number : Nat) : String :=
  let digits := Nat.toDigits 16 number
  String.ofList (List.replicate (width - digits.length) '0' ++ digits)

/-- The quote that encloses a text. -/
def quoteFor (text : String) : Char :=
  if text.toList.contains '\'' && !text.toList.contains '"' then '"' else '\''

/-- One character of a quoted text. -/
def quotedChar (quote char : Char) : String :=
  if char = '\\' || char = quote then
    String.ofList ['\\', char]
  else if char = '\n' then
    "\\n"
  else if char = '\r' then
    "\\r"
  else if char = '\t' then
    "\\t"
  else if isPrintable char then
    char.toString
  else if char.toNat < 0x100 then
    "\\x" ++ hexadecimal 2 char.toNat
  else if char.toNat < 0x10000 then
    "\\u" ++ hexadecimal 4 char.toNat
  else
    "\\U" ++ hexadecimal 8 char.toNat

/-- The text between quotes, with escapes for what cannot be shown. -/
def quoted (text : String) : String :=
  let quote := quoteFor text
  quote.toString ++ String.join (text.toList.map (quotedChar quote)) ++ quote.toString

end Text

end GoMend
