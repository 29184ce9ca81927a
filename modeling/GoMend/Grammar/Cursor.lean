import GoMend.Lexeme

/-!
# Reading lexemes

A cursor stands on a lexeme and knows those ahead of it.  Productions are computations over a
cursor that may end in a fault.  The last lexeme is the end of the file, and the cursor never
leaves it.
-/

namespace GoMend

/-- A place in a list of lexemes. -/
structure Cursor where
  /-- The lexeme at which the cursor stands. -/
  current : Lexeme
  /-- The lexemes after it. -/
  ahead : List Lexeme
  /-- The end of the lexeme before it. -/
  prevStop : Pos
  /-- The nesting of brackets.  It is negative in the header of a statement, where a brace after a
  name opens a block and not a literal. -/
  level : Int := 0
  deriving Repr

namespace Cursor

/-- The cursor on the next lexeme. -/
def next (cursor : Cursor) : Cursor :=
  if cursor.current.token = .endOfFile then
    cursor
  else
    match cursor.ahead with
    | [] => cursor
    | lexeme :: rest =>
        { cursor with current := lexeme, ahead := rest, prevStop := cursor.current.stop }

/-- The token a number of lexemes ahead, or the last one if there are fewer. -/
def peek (cursor : Cursor) (distance : Nat) : Token :=
  match cursor.ahead.drop (distance - 1) with
  | lexeme :: _ => lexeme.token
  | [] => (cursor.ahead.getLast?.getD cursor.current).token

end Cursor

/-- A computation that reads lexemes. -/
abbrev Parse := StateT Cursor (Except Fault)

namespace Parse

variable {α : Type}

/-- The token at the cursor. -/
def token : Parse Token :=
  return (← get).current.token

/-- The position of the cursor. -/
def pos : Parse Pos :=
  return (← get).current.pos

/-- The end of the last lexeme that was read. -/
def prevStop : Parse Pos :=
  return (← get).prevStop

/-- Go to the next lexeme. -/
def advance : Parse Unit :=
  modify Cursor.next

/-- A fault at a position. -/
def failAt (pos : Pos) (cause : FaultCause) : Parse α :=
  throw ⟨cause, pos⟩

/-- A fault at the cursor. -/
def fail (cause : FaultCause) : Parse α := do
  failAt (← pos) cause

/-- The fault that something else was expected at the cursor. -/
def expected (what : String) : Parse α := do
  fail (.expected what (← get).current)

/-- Read the given token, which has to be there; its position is the result. -/
def expect (tok : Token) : Parse Pos := do
  if (← token) = tok then
    let start ← pos
    advance
    return start
  else
    expected s!"'{tok.text}'"

/-- Read the given token if it is there. -/
def accept (tok : Token) : Parse Bool := do
  if (← token) = tok then
    advance
    return true
  else
    return false

/-- Read the end of a statement.  A closing parenthesis or brace ends a statement as well and is
left in its place. -/
def expectEnd : Parse Unit := do
  match ← token with
  | .rightParen | .rightBrace => return
  | .semicolon => advance
  | _ => expected "';'"

/-- Read at a given nesting of brackets, and return to the one that was saved before. -/
def atLevel (level : Int) (production : Parse α) : Parse α := do
  let saved := (← get).level
  modify fun cursor => { cursor with level := level }
  let result ← production
  modify fun cursor => { cursor with level := saved }
  return result

/-- Read inside brackets, one level deeper.  Nothing is saved: what is read has to come back to its
own level. -/
def bracketed (production : Parse α) : Parse α := do
  modify fun cursor => { cursor with level := cursor.level + 1 }
  let result ← production
  modify fun cursor => { cursor with level := cursor.level - 1 }
  return result

/-- Read the header of a statement. -/
def inHeader (production : Parse α) : Parse α :=
  atLevel (-1) production

/-- An upper bound for the number of items that can still be read, if every one of them takes a
lexeme. -/
def itemLimit : Parse Nat :=
  return (← get).ahead.length + 1

/-- Read items as long as the condition holds, at most as many as the limit says. -/
def repeatWhile (more : Parse Bool) (item : Parse α) : Nat → Parse (List α)
  | 0 => fail .nestedTooDeeply
  | limit + 1 => do
      if ← more then
        let first ← item
        return first :: (← repeatWhile more item limit)
      else
        return []

/-- Read items as long as the condition holds. -/
def manyWhile (more : Parse Bool) (item : Parse α) : Parse (List α) := do
  repeatWhile more item (← itemLimit)

/-- Read an item and then further ones, each after a comma. -/
def commaSeparated (item : Parse α) : Parse (α × List α) := do
  let first ← item
  return (first, ← manyWhile (accept .comma) item)

/-- Read items divided by commas up to a closing token, at most as many as the limit says. -/
def repeatUntil (closing : Token) (item : Parse α) : Nat → Parse (List α)
  | 0 => fail .nestedTooDeeply
  | limit + 1 => do
      let tok ← token
      if tok = closing || tok = .endOfFile then
        return []
      else
        let first ← item
        if ← accept .comma then
          return first :: (← repeatUntil closing item limit)
        else
          return [first]

/-- Read items divided by commas up to a closing token, before which a comma may stand too. -/
def listUntil (closing : Token) (item : Parse α) : Parse (List α) := do
  repeatUntil closing item (← itemLimit)

/-- Extend a value step by step, at most as many times as the limit says. -/
def repeatExtend (extend : α → Parse (Option α)) : Nat → α → Parse α
  | 0, _ => fail .nestedTooDeeply
  | limit + 1, value => do
      match ← extend value with
      | none => return value
      | some next => repeatExtend extend limit next

/-- Extend a value step by step until nothing more belongs to it. -/
def extendAll (extend : α → Parse (Option α)) (value : α) : Parse α := do
  repeatExtend extend (← itemLimit) value

end Parse

end GoMend
