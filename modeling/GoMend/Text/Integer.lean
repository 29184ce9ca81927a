import GoMend.Text.Blank
import GoMend.Unicode.Numeral

/-!
# Integers written as text

An integer is an optional sign and decimals of any script, with single underscores between
decimals and blanks around the whole.  Leading zeros have no meaning.
-/

namespace GoMend

namespace Text

/-- The most decimals that a written integer may have. -/
def mostDecimals : Nat := 4300

/-- Whether a character may pad a written integer: a blank that is not an information separator. -/
def isIntegerPadding (char : Char) : Bool :=
  isBlank char && !(0x1c ≤ char.toNat && char.toNat ≤ 0x1f)

/-- The values of the decimals of an unsigned integer; underscores stand singly between decimals. -/
def decimals? : List Char → Option (List Nat)
  | [] => none
  | [char] => (decimalValue? char).map ([·])
  | first :: second :: rest => do
      let value ← decimalValue? first
      if second = '_' then
        return value :: (← decimals? rest)
      else
        return value :: (← decimals? (second :: rest))

/-- The number that decimals denote, the most significant one first. -/
def ofDecimals (values : List Nat) : Nat :=
  values.foldl (fun number value => number * 10 + value) 0

/-- The unsigned integer that a text writes, if it has no more decimals than are allowed. -/
def natural? (chars : List Char) : Option Nat := do
  let values ← decimals? chars
  if values.length ≤ mostDecimals then some (ofDecimals values) else none

/-- The integer that a text writes, if it writes one. -/
def integer? (text : String) : Option Int :=
  let chars := ((text.toList.dropWhile isIntegerPadding).reverse.dropWhile isIntegerPadding).reverse
  match chars with
  | '-' :: rest => (natural? rest).map fun number => -(number : Int)
  | '+' :: rest => (natural? rest).map Int.ofNat
  | rest => (natural? rest).map Int.ofNat

end Text

end GoMend
