import GoMend.Grammar.SourceFile
import Mathlib

/-!
# Reading texts that are given

A text that is written out is read by evaluation.  For this the operators are found in a list that is
not sorted first, and every piece takes one of a given number of steps.
-/

namespace GoMend

namespace Token

/-- The operators and delimiters of three characters, of two and of one. -/
def operatorsByLength : List (List Char × Token) :=
  let texts := (all.filter isOperator).map fun token => (token.text.toList, token)
  [3, 2, 1].flatMap fun length => texts.filter fun entry => entry.1.length = length

theorem operators_eq_byLength : operators = operatorsByLength := by
  cbv

end Token

namespace Piece

/-- The first piece of a text, given how operators are found. -/
def readBy (leading : List Char → Option (List Char × Token)) (first : Char) (rest : List Char) :
    Except FaultCause Piece :=
  if first = '\n' then
    .ok .lineEnd
  else if isSeparator first then
    .ok (.blank first)
  else if first = '/' && rest.head? = some '/' then
    .ok (.comment ((first :: rest).takeWhile (· ≠ '\n')))
  else if first = '/' && rest.head? = some '*' then
    match Literal.afterCommentMark (rest.drop 1) with
    | none => .error .commentNotTerminated
    | some chars => .ok (.comment ('/' :: '*' :: chars))
  else if startsWord first then
    .ok (word (first :: rest.takeWhile continuesWord))
  else if startsNumber first rest then
    match Literal.number (first :: rest) with
    | [] => .error .invalidNumber
    | chars => .ok (.lexeme (Literal.numberToken chars) chars)
  else if first = '"' then
    quotedLiteral '"' .string "string" rest
  else if first = '\x60' then
    match Literal.afterRawQuote rest with
    | none => .error (.literalNotTerminated "raw string")
    | some chars => .ok (.lexeme .string (first :: chars))
  else if first = '\'' then
    quotedLiteral '\'' .char "rune" rest
  else
    match leading (first :: rest) with
    | none => .error (.invalidCharacter first)
    | some (chars, token) => .ok (.lexeme token chars)

/-- How operators are found without sorting them. -/
def leadingByLength (chars : List Char) : Option (List Char × Token) :=
  Token.operatorsByLength.find? fun entry => entry.1.isPrefixOf chars

theorem leadingByLength_eq : leadingByLength = Token.leadingOperator? := by
  funext chars
  rw [leadingByLength, Token.leadingOperator?, Token.operators_eq_byLength]

theorem readBy_leadingByLength (first : Char) (rest : List Char) :
    readBy leadingByLength first rest = read first rest := by
  rw [leadingByLength_eq]
  rfl

/-- The pieces of a text, one in each of the given number of steps. -/
def ofCharsIn : Nat → Pos → List Char → Except Fault (List (Pos × Piece))
  | steps + 1, pos, first :: rest =>
      match readBy leadingByLength first rest with
      | .error cause => .error ⟨cause, pos⟩
      | .ok piece =>
          let length := piece.chars.length
          match ofCharsIn steps (pos + (length - 1 : Nat) + 1) (rest.drop (length - 1)) with
          | .error fault => .error fault
          | .ok pieces => .ok ((pos, piece) :: pieces)
  | _, _, _ => .ok []

/-- There is a step for every piece if there is one for every character. -/
theorem ofCharsIn_eq {steps : Nat} {pos : Pos} {chars : List Char} (enough : chars.length ≤ steps) :
    ofCharsIn steps pos chars = ofChars pos chars := by
  induction steps generalizing pos chars with
  | zero =>
      obtain rfl := List.length_eq_zero_iff.mp (Nat.le_zero.mp enough)
      rw [ofChars, ofCharsIn]
      simp
  | succ steps ih =>
      cases chars with
      | nil =>
          rw [ofChars, ofCharsIn]
          simp
      | cons first rest =>
          have later (length : Nat) : (rest.drop length).length ≤ steps := by
            rw [List.length_drop]
            exact Nat.le_trans (Nat.sub_le ..) (Nat.le_of_succ_le_succ enough)
          rw [ofChars, ofCharsIn, readBy_leadingByLength]
          cases read first rest with
          | error cause => rfl
          | ok piece =>
              have same (next : Pos) := @ih next _ (later (piece.chars.length - 1))
              cases outcome : ofChars (pos + (piece.chars.length - 1 : Nat) + 1)
                (rest.drop (piece.chars.length - 1)) <;>
              simp only [same, outcome]

end Piece

/-- The lexemes and comments of a text, with a step for every character. -/
def Scan.ofTextIn (base : Nat) (text : String) : Except Fault Scan :=
  match Piece.ofCharsIn text.length base text.toList with
  | .error fault => .error fault
  | .ok pieces => .ok (ofPieces (base + text.length : Nat) none pieces)

theorem Scan.ofTextIn_eq (base : Nat) (text : String) : ofTextIn base text = ofText base text := by
  have same := @Piece.ofCharsIn_eq text.length base text.toList (Nat.le_of_eq String.length_toList)
  cases outcome : Piece.ofChars base text.toList <;> simp only [ofTextIn, ofText, same, outcome]

/-- A text is read by way of its lexemes. -/
theorem File.parse_of_scan {set : FileSet} {name text : String} {scan : Scan} {file : File}
    (scanned : Scan.ofTextIn set.nextBase text = .ok scan)
    (parsed : ofScan (SourceFile.ofText name set.nextBase text) scan = .ok file) :
    (parse set name text).2 = .ok file := by
  rw [Scan.ofTextIn_eq] at scanned
  change ofText (SourceFile.ofText name set.nextBase text) text = .ok file
  rw [ofText, SourceFile.ofText, scanned]
  exact congrArg (Except.mapError _) parsed

end GoMend
