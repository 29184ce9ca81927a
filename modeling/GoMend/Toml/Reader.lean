import GoMend.Settings.Value
import GoMend.Text.Integer

/-!
# Reading TOML values

The values of TOML: strings on one or several lines, dates and times, numbers, booleans, arrays and
inline tables.  A reader takes characters from the front of a text, and fails without a reason, since
a text that is not TOML is never used.
-/

namespace GoMend

namespace Toml

/-- A step of reading that takes characters from the front of a text. -/
abbrev Reader := StateT (List Char) Option

/-- The names on the way to a value, the outermost one first. -/
abbrev Key := List String

/-! ### Characters -/

/-- Whether a character is a blank within a line. -/
def isGap (char : Char) : Bool :=
  char = ' ' || char = '\t'

/-- Whether a character must not stand in a string or a comment. -/
def isControl (char : Char) : Bool :=
  (char.toNat < 0x20 && char ≠ '\t') || char.toNat = 0x7f

/-- Whether a character can stand in a key without quotes. -/
def isBareKeyChar (char : Char) : Bool :=
  char.isAlphanum || char = '-' || char = '_'

/-- Skip blanks within a line. -/
def skipGaps : Reader Unit :=
  modify (·.dropWhile isGap)

/-- Take a text if it stands here. -/
def accept (expected : List Char) : Reader Bool := do
  let text ← get
  if expected.isPrefixOf text then
    set (text.drop expected.length)
    return true
  else
    return false

/-- Take a text that has to stand here. -/
def expect (expected : List Char) : Reader Unit := do
  if !(← accept expected) then
    failure

/-- Take one of some characters if it stands here. -/
def acceptAny (expected : List Char) : Reader Bool := do
  match ← get with
  | [] => return false
  | char :: rest =>
      if expected.contains char then
        set rest
        return true
      else
        return false

/-- The text after a comment, up to the end of its line. -/
def afterComment (text : List Char) : Option (List Char) :=
  if (text.takeWhile (· ≠ '\n')).any isControl then none else some (text.dropWhile (· ≠ '\n'))

/-- Skip a comment if one stands here. -/
def skipComment : Reader Unit := do
  if ← accept ['#'] then
    set (← (afterComment (← get) : Option (List Char)))

/-- The text after blanks, line ends and comments. -/
def afterLines (inComment : Bool) : List Char → Option (List Char)
  | [] => some []
  | char :: rest =>
      if char = '\n' then
        afterLines false rest
      else if inComment then
        if isControl char then none else afterLines true rest
      else if isGap char then
        afterLines false rest
      else if char = '#' then
        afterLines true rest
      else
        some (char :: rest)

/-- Skip blanks, line ends and comments. -/
def skipLines : Reader Unit := do
  set (← (afterLines false (← get) : Option (List Char)))

/-! ### Strings -/

/-- The value of a hexadecimal digit. -/
def hexValue? (char : Char) : Option Nat :=
  if char.isDigit then
    some (char.toNat - '0'.toNat)
  else if 'a' ≤ char ∧ char ≤ 'f' then
    some (char.toNat - 'a'.toNat + 10)
  else if 'A' ≤ char ∧ char ≤ 'F' then
    some (char.toNat - 'A'.toNat + 10)
  else
    none

/-- The character of a code point in hexadecimal digits. -/
def hexChar? (digits : List Char) : Option Char := do
  let values ← digits.mapM hexValue?
  let code := values.foldl (fun code value => code * 16 + value) 0
  if code.isValidChar then some (Char.ofNat code) else none

/-- The character that stands for itself or for another one after a backslash. -/
def escaped? : Char → Option Char
  | 'b' => some '\x08'
  | 't' => some '\t'
  | 'n' => some '\n'
  | 'f' => some '\x0c'
  | 'r' => some '\r'
  | '"' => some '"'
  | '\\' => some '\\'
  | _ => none

/-- A character before the characters that were read after it. -/
def before (char : Option Char) (read : Option (List Char × List Char)) :
    Option (List Char × List Char) := do
  let first ← char
  let (chars, rest) ← read
  return (first :: chars, rest)

/-- The quotes around a string, three on either side if it may have several lines. -/
def quotes (quote : Char) (multiline : Bool) : List Char :=
  List.replicate (if multiline then 3 else 1) quote

/-- The text after quotes that stand at its beginning. -/
def afterQuotes? (quote : Char) (multiline : Bool) (text : List Char) : Option (List Char) :=
  let closing := quotes quote multiline
  if closing.isPrefixOf text then some (text.drop closing.length) else none

/-- Whether a character can stand in a string as it is. -/
def isStringChar (multiline : Bool) (char : Char) : Bool :=
  !isControl char || (multiline && char = '\n')

/-- Whether a backslash before a character stands at the end of a line. -/
def endsLine (char : Char) (rest : List Char) : Bool :=
  char = '\n' || (isGap char && (rest.dropWhile isGap).head? = some '\n')

/-- The characters up to the closing double quotes, and the text after those.  After a backslash at
the end of a line, blanks and line ends are left out up to the next character of another kind. -/
def basicChars (multiline : Bool) :
    (leavesOut : Bool) → List Char → Option (List Char × List Char)
  | _, [] => none
  | leavesOut, char :: rest =>
      if leavesOut && (isGap char || char = '\n') then
        basicChars multiline true rest
      else
        match afterQuotes? '"' multiline (char :: rest) with
        | some after => some ([], after)
        | none =>
            match char, rest with
            | '\\', 'u' :: a :: b :: c :: d :: rest =>
                before (hexChar? [a, b, c, d]) (basicChars multiline false rest)
            | '\\', 'U' :: a :: b :: c :: d :: e :: f :: g :: h :: rest =>
                before (hexChar? [a, b, c, d, e, f, g, h]) (basicChars multiline false rest)
            | '\\', char :: rest =>
                if multiline && endsLine char rest then
                  basicChars multiline true rest
                else
                  before (escaped? char) (basicChars multiline false rest)
            | char, rest =>
                if char ≠ '\\' && isStringChar multiline char then
                  before (some char) (basicChars multiline false rest)
                else
                  none

/-- The characters up to the closing single quotes, and the text after those. -/
def literalChars (multiline : Bool) : List Char → Option (List Char × List Char)
  | [] => none
  | char :: rest =>
      match afterQuotes? '\'' multiline (char :: rest) with
      | some after => some ([], after)
      | none =>
          if isStringChar multiline char then
            before (some char) (literalChars multiline rest)
          else
            none

/-- The characters of a string in such quotes whose opening quotes were taken. -/
def stringChars (quote : Char) (multiline : Bool) : Reader (List Char) := do
  let text ← get
  let (chars, rest) ←
    (if quote = '"' then basicChars multiline false text else literalChars multiline text :
      Option (List Char × List Char))
  set rest
  return chars

/-- A string on one line whose opening quote was taken. -/
def lineString (quote : Char) : Reader String :=
  String.ofList <$> stringChars quote false

/-- A string over several lines whose opening quotes were taken.  A line end right after them does
not belong to it, and up to two quotes before the closing ones do. -/
def linesString (quote : Char) : Reader String := do
  let _ ← accept ['\n']
  let chars ← stringChars quote true
  let rest ← get
  let more := (rest.take 2).takeWhile (· = quote)
  set (rest.drop more.length)
  return String.ofList (chars ++ more)

/-! ### Keys -/

/-- One name of a key. -/
def keyPart : Reader String := do
  if ← accept ['"'] then
    lineString '"'
  else if ← accept ['\''] then
    lineString '\''
  else
    let text ← get
    match text.takeWhile isBareKeyChar with
    | [] => failure
    | name =>
        set (text.dropWhile isBareKeyChar)
        return String.ofList name

/-- The names of a key after its first one, at most so many of them. -/
def keyRest : Nat → Reader Key
  | 0 => failure
  | limit + 1 => do
      skipGaps
      if ← accept ['.'] then
        skipGaps
        let name ← keyPart
        return name :: (← keyRest limit)
      else
        return []

/-- A key: names with points between them. -/
def key : Reader Key := do
  let name ← keyPart
  return name :: (← keyRest ((← get).length + 1))

/-! ### Numbers -/

/-- More digits, each of which may have an underscore before it, and the text after them. -/
def moreDigits (isDigit : Char → Bool) : List Char → List Char × List Char
  | [] => ([], [])
  | '_' :: char :: rest =>
      if isDigit char then
        let (digits, rest) := moreDigits isDigit rest
        (char :: digits, rest)
      else
        ([], '_' :: char :: rest)
  | char :: rest =>
      if isDigit char then
        let (digits, rest) := moreDigits isDigit rest
        (char :: digits, rest)
      else
        ([], char :: rest)

/-- Digits with single underscores between them. -/
def digits (isDigit : Char → Bool) : Reader (List Char) := do
  match ← get with
  | [] => failure
  | char :: rest =>
      if isDigit char then
        let (more, rest) := moreDigits isDigit rest
        set rest
        return char :: more
      else
        failure

/-- The number of digits in a base. -/
def ofDigits (base : Nat) (chars : List Char) : Nat :=
  (chars.filterMap hexValue?).foldl (fun number value => number * base + value) 0

/-- A number in another base than ten, whose mark was taken. -/
def basedNumber (base : Nat) : Reader Value := do
  let isDigit (char : Char) : Bool := (hexValue? char).any (· < base)
  return .int (ofDigits base (← digits isDigit))

/-- The digits before the point of a decimal number; a zero stands alone. -/
def wholeDigits : Reader (List Char) := do
  if ← accept ['0'] then return ['0'] else digits Char.isDigit

/-- Whether digits stand after a mark, which are then taken together with it. -/
def acceptDigitsAfter (isMark : Char → Bool) (signed : Bool) : Reader Bool := do
  match ← get with
  | [] => return false
  | mark :: rest =>
      let unsigned :=
        match rest with
        | '+' :: after | '-' :: after => if signed then after else rest
        | _ => rest
      match (digits Char.isDigit).run unsigned with
      | some (_, after) =>
          if isMark mark then
            set after
            return true
          else
            return false
      | none => return false

/-- A decimal number: an integer, or a float when it has a fraction or an exponent. -/
def decimal : Reader Value := do
  let negative ← accept ['-']
  if !negative then
    let _ ← accept ['+']
  let whole := (ofDigits 10 (← wholeDigits) : Int)
  let fraction ← acceptDigitsAfter (· = '.') false
  let exponent ← acceptDigitsAfter (fun mark => mark = 'e' || mark = 'E') true
  if fraction || exponent then
    return .float
  else
    return .int (if negative then -whole else whole)

/-- The words for floats that are no numbers or not finite. -/
def specialFloats : List (List Char) :=
  ["inf", "nan", "-inf", "+inf", "-nan", "+nan"].map (·.toList)

/-- A number. -/
def number : Reader Value := do
  let text ← get
  match specialFloats.find? (·.isPrefixOf text) with
  | some word =>
      set (text.drop word.length)
      return .float
  | none =>
      if ← accept ['0', 'x'] then basedNumber 16
      else if ← accept ['0', 'b'] then basedNumber 2
      else if ← accept ['0', 'o'] then basedNumber 8
      else decimal

/-! ### Dates and times -/

/-- A number of so many digits that lies between two others. -/
def numberBetween (count least most : Nat) : Reader Nat := do
  let text ← get
  let chars := text.take count
  let number := ofDigits 10 chars
  if chars.length = count && chars.all Char.isDigit && least ≤ number && number ≤ most then
    set (text.drop count)
    return number
  else
    failure

/-- A time of the day.  The seconds may have a fraction. -/
def time : Reader Unit := do
  let _ ← numberBetween 2 0 23
  expect [':']
  let _ ← numberBetween 2 0 59
  expect [':']
  let _ ← numberBetween 2 0 59
  match ← get with
  | '.' :: digit :: rest => if digit.isDigit then set (rest.dropWhile Char.isDigit)
  | _ => return

/-- The distance of a time from universal time. -/
def offset : Reader Unit := do
  if !(← acceptAny ['Z', 'z']) then
    if !(← acceptAny ['+', '-']) then
      failure
    let _ ← numberBetween 2 0 23
    expect [':']
    let _ ← numberBetween 2 0 59

/-- The number of days of a month. -/
def daysOf (year month : Nat) : Nat :=
  if month = 2 then
    if year % 4 = 0 && (year % 100 ≠ 0 || year % 400 = 0) then 29 else 28
  else if [4, 6, 9, 11].contains month then
    30
  else
    31

/-- A date, with a time of that day if there is one, and whether there is such a day. -/
def date : Reader Bool := do
  let year ← numberBetween 4 0 9999
  expect ['-']
  let month ← numberBetween 2 1 12
  expect ['-']
  let day ← numberBetween 2 1 31
  timeOfDay <|> pure ()
  return 1 ≤ year && day ≤ daysOf year month
where
  /-- A time after a date. -/
  timeOfDay : Reader Unit := do
    if !(← acceptAny ['T', 't', ' ']) then
      failure
    time
    offset <|> pure ()

/-- A date, a time or a number.  A day that there is not has no value. -/
def plainValue : Reader Value := do
  match date.run (← get) with
  | some (isDay, rest) =>
      set rest
      if isDay then return .moment else failure
  | none => (do time; return .moment) <|> number

/-! ### Tables -/

/-- Change the table at the end of a way, and make the tables on the way that there are not.  The
way leads through the last table of an array only if arrays may be entered. -/
def changeAt? (throughArrays : Bool) (change : Value.Entries → Option Value.Entries) :
    Key → Value.Entries → Option Value.Entries
  | [], entries => change entries
  | name :: way, entries =>
      match entries.lookup name with
      | none => do
          let inner ← changeAt? throughArrays change way []
          return entries ++ [(name, .table inner)]
      | some (.table inner) => do
          let inner ← changeAt? throughArrays change way inner
          return entries.replace name (.table inner)
      | some (.list items) =>
          match throughArrays, items.getLast? with
          | true, some (.table inner) => do
              let inner ← changeAt? throughArrays change way inner
              return entries.replace name (.list (items.dropLast ++ [.table inner]))
          | _, _ => none
      | some _ => none

/-- Define a name in a table, which must not define it yet. -/
def define? (name : String) (value : Value) (entries : Value.Entries) : Option Value.Entries :=
  match entries.lookup name with
  | none => some (entries ++ [(name, value)])
  | some _ => none

/-- Define the value at the end of a way. -/
def defineAt? (throughArrays : Bool) (way : Key) (value : Value) (entries : Value.Entries) :
    Option Value.Entries := do
  let name ← way.getLast?
  changeAt? throughArrays (define? name value) way.dropLast entries

/-- Whether a key lies at or below one of the keys. -/
def isBelow (keys : List Key) (way : Key) : Bool :=
  keys.any (·.isPrefixOf way)

/-! ### Values -/

mutual

/-- A value, in so many steps at most. -/
def value : Nat → Reader Value
  | 0 => failure
  | limit + 1 => do
      if ← accept (quotes '"' true) then return .text (← linesString '"')
      else if ← accept (quotes '"' false) then return .text (← lineString '"')
      else if ← accept (quotes '\'' true) then return .text (← linesString '\'')
      else if ← accept (quotes '\'' false) then return .text (← lineString '\'')
      else if ← accept "true".toList then return .bool true
      else if ← accept "false".toList then return .bool false
      else if ← accept ['['] then return .list (← arrayRest limit)
      else if ← accept ['\x7b'] then
        skipGaps
        if ← accept ['\x7d'] then return .table [] else return .table (← inlineRest limit [] [])
      else plainValue

/-- The items of an array whose opening bracket or last comma was taken. -/
def arrayRest : Nat → Reader (List Value)
  | 0 => failure
  | limit + 1 => do
      skipLines
      if ← accept [']'] then
        return []
      else
        let item ← value limit
        skipLines
        if ← accept [','] then
          return item :: (← arrayRest limit)
        else
          expect [']']
          return [item]

/-- The entries of an inline table after those that were read.  Nothing may be added to the values
at the given keys. -/
def inlineRest : Nat → List Key → Value.Entries → Reader Value.Entries
  | 0, _, _ => failure
  | limit + 1, closed, entries => do
      let way ← key
      expect ['=']
      skipGaps
      let item ← value limit
      if isBelow closed way then
        failure
      else
        let entries ← (defineAt? false way item entries : Option Value.Entries)
        skipGaps
        if ← accept ['\x7d'] then
          return entries
        else
          expect [',']
          skipGaps
          inlineRest limit (if item.isNested then way :: closed else closed) entries

end

/-- A value.  Every second step takes a character, which bounds the number of steps. -/
def anyValue : Reader Value := do
  value (2 * (← get).length + 2)

end Toml

end GoMend
