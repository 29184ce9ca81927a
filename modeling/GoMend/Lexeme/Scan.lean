import GoMend.Lexeme
import GoMend.Lexeme.Literal

/-!
# From text to lexemes

The text is first cut into pieces that together make up all of it: blanks, line ends, comments
and lexemes.  Then blanks go, comments are set apart, and a line end after a lexeme that can end
a statement becomes a semicolon.  A general comment that spans lines counts as a line end at its
beginning, and the end of the text counts as one too.
-/

namespace GoMend

/-- A piece of a source text. -/
inductive Piece where
  | blank (char : Char)
  | lineEnd
  | comment (chars : List Char)
  | lexeme (token : Token) (chars : List Char)
  deriving DecidableEq, Repr

namespace Piece

/-- The characters of a piece. -/
def chars : Piece → List Char
  | .blank char => [char]
  | .lineEnd => ['\n']
  | .comment chars => chars
  | .lexeme _ chars => chars

/-- Whether a character separates lexemes without ending a line. -/
def isSeparator (char : Char) : Bool :=
  char = ' ' || char = '\t' || char = '\r'

/-- Whether a word can begin with the character. -/
def startsWord (char : Char) : Bool :=
  Text.isLetter char || char = '_'

/-- Whether a word can go on with the character. -/
def continuesWord (char : Char) : Bool :=
  Text.isLetterOrNumeral char || char = '_'

/-- Whether a number begins here: with a digit, or with a point before a digit. -/
def startsNumber (first : Char) (rest : List Char) : Bool :=
  Text.isDigit first || (first = '.' && rest.head?.any Text.isDigit)

/-- The piece of a word: a keyword or a name. -/
def word (chars : List Char) : Piece :=
  .lexeme ((Token.keyword? (String.ofList chars)).getD .ident) chars

/-- A literal in the given quotes. -/
def quotedLiteral (quote : Char) (token : Token) (kind : String) (rest : List Char) :
    Except FaultCause Piece :=
  match Literal.afterQuote quote rest with
  | none => .error (.literalNotTerminated kind)
  | some chars => .ok (.lexeme token (quote :: chars))

/-- The first piece of a text that begins with `first`. -/
def read (first : Char) (rest : List Char) : Except FaultCause Piece :=
  if first = '\n' then
    .ok .lineEnd
  else if isSeparator first then
    .ok (.blank first)
  else if first = '/' && rest.head? = some '/' then
    .ok (.comment ((first :: rest).takeWhile (· ≠ '\n')))
  else if first = '/' && rest.head? = some '*' then
    match Literal.afterCommentMark (rest.drop 1) with
    | none => .error .commentNotTerminated
    | some chars => .ok (.comment ('/' :: '*' :: chars))
  else if startsWord first then
    .ok (word (first :: rest.takeWhile continuesWord))
  else if startsNumber first rest then
    match Literal.number (first :: rest) with
    | [] => .error .invalidNumber
    | chars => .ok (.lexeme (Literal.numberToken chars) chars)
  else if first = '"' then
    quotedLiteral '"' .string "string" rest
  else if first = '\x60' then
    match Literal.afterRawQuote rest with
    | none => .error (.literalNotTerminated "raw string")
    | some chars => .ok (.lexeme .string (first :: chars))
  else if first = '\'' then
    quotedLiteral '\'' .char "rune" rest
  else
    match Token.leadingOperator? (first :: rest) with
    | none => .error (.invalidCharacter first)
    | some (chars, token) => .ok (.lexeme token chars)

/-- The pieces of a text whose first character has the position `pos`, each with its position.
A piece is never empty, so that every step comes nearer to the end of the text. -/
def ofChars (pos : Pos) : List Char → Except Fault (List (Pos × Piece))
  | [] => .ok []
  | first :: rest =>
      match read first rest with
      | .error cause => .error ⟨cause, pos⟩
      | .ok piece =>
          let length := piece.chars.length
          match ofChars (pos + (length - 1 : Nat) + 1) (rest.drop (length - 1)) with
          | .error fault => .error fault
          | .ok pieces => .ok ((pos, piece) :: pieces)
termination_by chars => chars.length
decreasing_by simp only [List.length_cons, List.length_drop]; omega

end Piece

/-- The lexemes and comments of a text. -/
structure Scan where
  lexemes : List Lexeme
  comments : List Comment
  deriving DecidableEq, Repr

namespace Scan

/-- The semicolon that a line end at the given position stands for, if the last lexeme can end a
statement. -/
def semicolonAfter (last : Option Token) (pos : Pos) : List Lexeme :=
  if last.any Token.endsStatement then [⟨.semicolon, "\n", pos⟩] else []

/-- The token that was read last, after a line end. -/
def lastAfterLine (last : Option Token) : Option Token :=
  if last.any Token.endsStatement then some .semicolon else last

/-- Turn pieces into lexemes and comments, given the last token before them and the position of
the end of the text. -/
def ofPieces (stop : Pos) (last : Option Token) : List (Pos × Piece) → Scan
  | [] => ⟨semicolonAfter last stop ++ [⟨.endOfFile, "", stop⟩], []⟩
  | (_, .blank _) :: rest => ofPieces stop last rest
  | (pos, .lineEnd) :: rest =>
      let later := ofPieces stop (lastAfterLine last) rest
      { later with lexemes := semicolonAfter last pos ++ later.lexemes }
  | (pos, .comment chars) :: rest =>
      let comment : Comment := ⟨String.ofList chars, ⟨pos, pos + chars.length⟩⟩
      if chars.contains '\n' then
        let later := ofPieces stop (lastAfterLine last) rest
        ⟨semicolonAfter last pos ++ later.lexemes, comment :: later.comments⟩
      else
        let later := ofPieces stop last rest
        { later with comments := comment :: later.comments }
  | (pos, .lexeme token chars) :: rest =>
      let later := ofPieces stop (some token) rest
      { later with lexemes := ⟨token, String.ofList chars, pos⟩ :: later.lexemes }

/-- The lexemes and comments of a text whose first character has the position `base`. -/
def ofText (base : Nat) (text : String) : Except Fault Scan :=
  match Piece.ofChars base text.toList with
  | .error fault => .error fault
  | .ok pieces => .ok (ofPieces (base + text.length : Nat) none pieces)

end Scan

end GoMend
