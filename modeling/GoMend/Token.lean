/-!
# Tokens

The lexical vocabulary of the language: classes of words and literals, operators and delimiters,
and keywords.  Operators, delimiters and keywords are written as their own text.
-/

namespace GoMend

/-- A lexical class, an operator, a delimiter or a keyword. -/
inductive Token where
  | illegal | endOfFile | comment
  | ident | int | float | imag | char | string
  | add | sub | mul | quo | rem | bitAnd | bitOr | bitXor | shiftLeft | shiftRight | bitClear
  | addAssign | subAssign | mulAssign | quoAssign | remAssign | bitAndAssign | bitOrAssign
  | bitXorAssign | shiftLeftAssign | shiftRightAssign | bitClearAssign
  | logicalAnd | logicalOr | arrow | increment | decrement
  | equal | less | greater | assign | logicalNot | notEqual | lessEqual | greaterEqual | define
  | ellipsis
  | leftParen | leftBracket | leftBrace | comma | period | rightParen | rightBracket
  | rightBrace | semicolon | colon
  | kwBreak | kwCase | kwChan | kwConst | kwContinue | kwDefault | kwDefer | kwElse
  | kwFallthrough | kwFor | kwFunc | kwGo | kwGoto | kwIf | kwImport | kwInterface | kwMap
  | kwPackage | kwRange | kwReturn | kwSelect | kwStruct | kwSwitch | kwType | kwVar
  deriving DecidableEq, Repr

namespace Token

/-- Every token, the keywords last. -/
def all : List Token :=
  [.illegal, .endOfFile, .comment, .ident, .int, .float, .imag, .char, .string, .add, .sub,
    .mul, .quo, .rem, .bitAnd, .bitOr, .bitXor, .shiftLeft, .shiftRight, .bitClear, .addAssign,
    .subAssign, .mulAssign, .quoAssign, .remAssign, .bitAndAssign, .bitOrAssign, .bitXorAssign,
    .shiftLeftAssign, .shiftRightAssign, .bitClearAssign, .logicalAnd, .logicalOr, .arrow,
    .increment, .decrement, .equal, .less, .greater, .assign, .logicalNot, .notEqual,
    .lessEqual, .greaterEqual, .define, .ellipsis, .leftParen, .leftBracket, .leftBrace, .comma,
    .period, .rightParen, .rightBracket, .rightBrace, .semicolon, .colon, .kwBreak, .kwCase,
    .kwChan, .kwConst, .kwContinue, .kwDefault, .kwDefer, .kwElse, .kwFallthrough, .kwFor,
    .kwFunc, .kwGo, .kwGoto, .kwIf, .kwImport, .kwInterface, .kwMap, .kwPackage, .kwRange,
    .kwReturn, .kwSelect, .kwStruct, .kwSwitch, .kwType, .kwVar]

/-- The text of a token; the classes of words and literals have a name in capitals. -/
def text : Token → String
  | .illegal => "ILLEGAL"
  | .endOfFile => "EOF"
  | .comment => "COMMENT"
  | .ident => "IDENT"
  | .int => "INT"
  | .float => "FLOAT"
  | .imag => "IMAG"
  | .char => "CHAR"
  | .string => "STRING"
  | .add => "+"
  | .sub => "-"
  | .mul => "*"
  | .quo => "/"
  | .rem => "%"
  | .bitAnd => "&"
  | .bitOr => "|"
  | .bitXor => "^"
  | .shiftLeft => "<<"
  | .shiftRight => ">>"
  | .bitClear => "&^"
  | .addAssign => "+="
  | .subAssign => "-="
  | .mulAssign => "*="
  | .quoAssign => "/="
  | .remAssign => "%="
  | .bitAndAssign => "&="
  | .bitOrAssign => "|="
  | .bitXorAssign => "^="
  | .shiftLeftAssign => "<<="
  | .shiftRightAssign => ">>="
  | .bitClearAssign => "&^="
  | .logicalAnd => "&&"
  | .logicalOr => "||"
  | .arrow => "<-"
  | .increment => "++"
  | .decrement => "--"
  | .equal => "=="
  | .less => "<"
  | .greater => ">"
  | .assign => "="
  | .logicalNot => "!"
  | .notEqual => "!="
  | .lessEqual => "<="
  | .greaterEqual => ">="
  | .define => ":="
  | .ellipsis => "..."
  | .leftParen => "("
  | .leftBracket => "["
  | .leftBrace => "\x7b"
  | .comma => ","
  | .period => "."
  | .rightParen => ")"
  | .rightBracket => "]"
  | .rightBrace => "\x7d"
  | .semicolon => ";"
  | .colon => ":"
  | .kwBreak => "break"
  | .kwCase => "case"
  | .kwChan => "chan"
  | .kwConst => "const"
  | .kwContinue => "continue"
  | .kwDefault => "default"
  | .kwDefer => "defer"
  | .kwElse => "else"
  | .kwFallthrough => "fallthrough"
  | .kwFor => "for"
  | .kwFunc => "func"
  | .kwGo => "go"
  | .kwGoto => "goto"
  | .kwIf => "if"
  | .kwImport => "import"
  | .kwInterface => "interface"
  | .kwMap => "map"
  | .kwPackage => "package"
  | .kwRange => "range"
  | .kwReturn => "return"
  | .kwSelect => "select"
  | .kwStruct => "struct"
  | .kwSwitch => "switch"
  | .kwType => "type"
  | .kwVar => "var"

/-- The symbolic name of a token. -/
def symbol : Token → String
  | .illegal => "ILLEGAL"
  | .endOfFile => "EOF"
  | .comment => "COMMENT"
  | .ident => "IDENT"
  | .int => "INT"
  | .float => "FLOAT"
  | .imag => "IMAG"
  | .char => "CHAR"
  | .string => "STRING"
  | .add => "ADD"
  | .sub => "SUB"
  | .mul => "MUL"
  | .quo => "QUO"
  | .rem => "REM"
  | .bitAnd => "AND"
  | .bitOr => "OR"
  | .bitXor => "XOR"
  | .shiftLeft => "SHL"
  | .shiftRight => "SHR"
  | .bitClear => "AND_NOT"
  | .addAssign => "ADD_ASSIGN"
  | .subAssign => "SUB_ASSIGN"
  | .mulAssign => "MUL_ASSIGN"
  | .quoAssign => "QUO_ASSIGN"
  | .remAssign => "REM_ASSIGN"
  | .bitAndAssign => "AND_ASSIGN"
  | .bitOrAssign => "OR_ASSIGN"
  | .bitXorAssign => "XOR_ASSIGN"
  | .shiftLeftAssign => "SHL_ASSIGN"
  | .shiftRightAssign => "SHR_ASSIGN"
  | .bitClearAssign => "AND_NOT_ASSIGN"
  | .logicalAnd => "LAND"
  | .logicalOr => "LOR"
  | .arrow => "ARROW"
  | .increment => "INC"
  | .decrement => "DEC"
  | .equal => "EQL"
  | .less => "LSS"
  | .greater => "GTR"
  | .assign => "ASSIGN"
  | .logicalNot => "NOT"
  | .notEqual => "NEQ"
  | .lessEqual => "LEQ"
  | .greaterEqual => "GEQ"
  | .define => "DEFINE"
  | .ellipsis => "ELLIPSIS"
  | .leftParen => "LPAREN"
  | .leftBracket => "LBRACK"
  | .leftBrace => "LBRACE"
  | .comma => "COMMA"
  | .period => "PERIOD"
  | .rightParen => "RPAREN"
  | .rightBracket => "RBRACK"
  | .rightBrace => "RBRACE"
  | .semicolon => "SEMICOLON"
  | .colon => "COLON"
  | .kwBreak => "BREAK"
  | .kwCase => "CASE"
  | .kwChan => "CHAN"
  | .kwConst => "CONST"
  | .kwContinue => "CONTINUE"
  | .kwDefault => "DEFAULT"
  | .kwDefer => "DEFER"
  | .kwElse => "ELSE"
  | .kwFallthrough => "FALLTHROUGH"
  | .kwFor => "FOR"
  | .kwFunc => "FUNC"
  | .kwGo => "GO"
  | .kwGoto => "GOTO"
  | .kwIf => "IF"
  | .kwImport => "IMPORT"
  | .kwInterface => "INTERFACE"
  | .kwMap => "MAP"
  | .kwPackage => "PACKAGE"
  | .kwRange => "RANGE"
  | .kwReturn => "RETURN"
  | .kwSelect => "SELECT"
  | .kwStruct => "STRUCT"
  | .kwSwitch => "SWITCH"
  | .kwType => "TYPE"
  | .kwVar => "VAR"

/-- The precedence of a binary operator, from one to five; zero for every other token. -/
def precedence : Token → Nat
  | .logicalOr => 1
  | .logicalAnd => 2
  | .equal | .notEqual | .less | .lessEqual | .greater | .greaterEqual => 3
  | .add | .sub | .bitOr | .bitXor => 4
  | .mul | .quo | .rem | .shiftLeft | .shiftRight | .bitAnd | .bitClear => 5
  | _ => 0

/-- Whether a token is a keyword. -/
def isKeyword : Token → Bool
  | .kwBreak | .kwCase | .kwChan | .kwConst | .kwContinue | .kwDefault | .kwDefer | .kwElse
  | .kwFallthrough | .kwFor | .kwFunc | .kwGo | .kwGoto | .kwIf | .kwImport | .kwInterface
  | .kwMap | .kwPackage | .kwRange | .kwReturn | .kwSelect | .kwStruct | .kwSwitch | .kwType
  | .kwVar => true
  | _ => false

/-- Whether a token is a class of words or literals. -/
def isLiteral : Token → Bool
  | .ident | .int | .float | .imag | .char | .string => true
  | _ => false

/-- The operator that an assignment such as `+=` applies. -/
def assignOperator? : Token → Option Token
  | .addAssign => some .add
  | .subAssign => some .sub
  | .mulAssign => some .mul
  | .quoAssign => some .quo
  | .remAssign => some .rem
  | .bitAndAssign => some .bitAnd
  | .bitOrAssign => some .bitOr
  | .bitXorAssign => some .bitXor
  | .shiftLeftAssign => some .shiftLeft
  | .shiftRightAssign => some .shiftRight
  | .bitClearAssign => some .bitClear
  | _ => none

/-- Whether a token assigns the result of an operator, as `+=` does. -/
def isAssignOperator (token : Token) : Bool :=
  token.assignOperator?.isSome

/-- The token that a text writes. -/
def ofText? (text : String) : Option Token :=
  all.find? (·.text = text)

/-- The keyword that a word is. -/
def keyword? (word : String) : Option Token :=
  all.find? fun token => token.isKeyword && token.text = word

/-- Whether a token is an operator or a delimiter: neither a class nor a keyword. -/
def isOperator : Token → Bool
  | .illegal | .endOfFile | .comment => false
  | token => !token.isLiteral && !token.isKeyword

/-- The operators and delimiters with their texts, the longest texts first. -/
def operators : List (List Char × Token) :=
  ((all.filter isOperator).map fun token => (token.text.toList, token)).mergeSort
    fun left right => right.1.length ≤ left.1.length

/-- The longest operator that begins the given characters. -/
def leadingOperator? (chars : List Char) : Option (List Char × Token) :=
  operators.find? fun entry => entry.1.isPrefixOf chars

/-- Whether a line end after this token ends a statement. -/
def endsStatement : Token → Bool
  | .ident | .int | .float | .imag | .char | .string => true
  | .kwBreak | .kwContinue | .kwFallthrough | .kwReturn => true
  | .increment | .decrement | .rightParen | .rightBracket | .rightBrace => true
  | _ => false

end Token

end GoMend
