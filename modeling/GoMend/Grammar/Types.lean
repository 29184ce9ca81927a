import GoMend.Grammar.Rules

/-!
# Types, parameters and signatures

The rules for types.  Whether the entries of a parameter list are types, or names with types, is
decided when all of them are read.
-/

namespace GoMend

/-- Whether a type can begin with the token. -/
def Token.startsType : Token → Bool
  | .ident | .leftBracket | .kwStruct | .mul | .kwFunc | .kwInterface | .kwMap | .kwChan => true
  | .arrow | .leftParen => true
  | _ => false

namespace Parse

/-- A type, or a variadic one after an ellipsis. -/
def paramType (rules : Rules) : Parse Expr := do
  if (← token) = .ellipsis then
    let start ← pos
    advance
    let elem ← rules.type
    return .ellipsis ⟨start, elem.span.stop⟩ (some elem)
  else
    rules.type

/-- An entry of a parameter list: a name and its type, or one of the two. -/
structure ParamEntry where
  first : Expr
  type : Option Expr

/-- One entry of a parameter list. -/
def paramEntry (rules : Rules) : Parse ParamEntry := do
  let first ← paramType rules
  match ← token with
  | .comma | .rightParen => return ⟨first, none⟩
  | _ =>
      match first with
      | .ident _ => return ⟨first, some (← paramType rules)⟩
      | _ => expected "')'"

/-- The fields of entries that have types, given the names that wait for one. -/
def namedFields (waiting : List Ident) : List ParamEntry → Parse (List Field)
  | [] =>
      match waiting with
      | [] => return []
      | name :: _ => failAt name.span.start .mixedParameters
  | entry :: rest => do
      match entry.first with
      | .ident name =>
          let names := waiting ++ [name]
          match entry.type with
          | none => namedFields names rest
          | some type =>
              let start := (names.head?.getD name).span.start
              let fields ← namedFields [] rest
              return ⟨⟨start, type.span.stop⟩, names, type, none⟩ :: fields
      | other => failAt other.span.start .mixedParameters

/-- A field without names. -/
def unnamedField (type : Expr) : Field :=
  ⟨type.span, [], type, none⟩

/-- A parameter list in parentheses.  Either all parameters have names or none has. -/
def parameters (rules : Rules) : Parse FieldList := do
  let start ← expect .leftParen
  let entries ← listUntil .rightParen (paramEntry rules)
  let _ ← expect .rightParen
  let fields ←
    if entries.any (·.type.isSome) then
      namedFields [] entries
    else
      pure (entries.map fun entry => unnamedField entry.first)
  return ⟨⟨start, ← prevStop⟩, fields⟩

/-- Parameters and results. -/
def signature (rules : Rules) : Parse (FieldList × Option FieldList) := do
  let params ← parameters rules
  let tok ← token
  if tok = .leftParen then
    return (params, some (← parameters rules))
  else if tok.startsType then
    let type ← rules.type
    return (params, some ⟨type.span, [unnamedField type]⟩)
  else
    return (params, none)

/-- The signature of a function whose range begins at the given position. -/
def funcTypeFrom (rules : Rules) (start : Pos) : Parse FuncType := do
  let (params, results) ← signature rules
  return ⟨⟨start, ← prevStop⟩, params, results⟩

/-- A name that was read already, or the qualified name that it begins. -/
def qualifiedFrom (first : Ident) : Parse Expr := do
  if ← accept .period then
    let sel ← ident
    return .selector ⟨first.span.start, sel.span.stop⟩ (.ident first) sel
  else
    return .ident first

/-- The length of an array between its brackets. -/
def arrayLength (rules : Rules) : Parse (Option Expr) := do
  match ← token with
  | .ellipsis =>
      let start ← pos
      advance
      return some (.ellipsis ⟨start, start + 3⟩ none)
  | .rightBracket => return none
  | _ => return some (← bracketed rules.expr)

/-- The names and the type of a struct field.  An embedded type has no names. -/
def structMember (rules : Rules) : Parse (List Ident × Expr) := do
  if (← token) = .mul then
    return ([], ← rules.type)
  else
    let first ← ident
    match ← token with
    | .period => return ([], ← qualifiedFrom first)
    | .semicolon | .rightBrace | .string => return ([], .ident first)
    | _ =>
        let others ← manyWhile (accept .comma) ident
        return (first :: others, ← rules.type)

/-- A struct field with its tag. -/
def structField (rules : Rules) : Parse Field := do
  let start ← pos
  let (names, type) ← structMember rules
  let tag ← if (← token) = .string then some <$> literal else pure none
  let stop ← prevStop
  expectEnd
  return ⟨⟨start, stop⟩, names, type, tag⟩

/-- A method of an interface, or an embedded interface. -/
def interfaceMember (rules : Rules) : Parse Field := do
  let name ← ident
  let start := name.span.start
  let member : Field ←
    if (← token) = .leftParen then do
      let type ← funcTypeFrom rules (← pos)
      pure ⟨⟨start, ← prevStop⟩, [name], .funcType type, none⟩
    else do
      let embedded ← qualifiedFrom name
      pure ⟨⟨start, embedded.span.stop⟩, [], embedded, none⟩
  expectEnd
  return member

/-- Members in braces. -/
def members (member : Parse Field) : Parse FieldList := do
  let start ← expect .leftBrace
  let fields ← manyWhile (do let tok ← token; return tok ≠ .rightBrace && tok ≠ .endOfFile) member
  let _ ← expect .rightBrace
  return ⟨⟨start, ← prevStop⟩, fields⟩

/-- A type. -/
def typeExpr (rules : Rules) : Parse Expr := do
  let start ← pos
  match ← token with
  | .ident => qualifiedFrom (← ident)
  | .leftBracket =>
      advance
      let length ← arrayLength rules
      let _ ← expect .rightBracket
      let elem ← rules.type
      return .arrayType ⟨start, elem.span.stop⟩ length elem
  | .kwStruct =>
      advance
      let fields ← members (structField rules)
      return .structType ⟨start, ← prevStop⟩ fields
  | .mul =>
      advance
      let operand ← rules.type
      return .star ⟨start, operand.span.stop⟩ operand
  | .kwFunc =>
      advance
      return .funcType (← funcTypeFrom rules start)
  | .kwInterface =>
      advance
      let methods ← members (interfaceMember rules)
      return .interfaceType ⟨start, ← prevStop⟩ methods
  | .kwMap =>
      advance
      let _ ← expect .leftBracket
      let key ← rules.type
      let _ ← expect .rightBracket
      let value ← rules.type
      return .mapType ⟨start, value.span.stop⟩ key value
  | .kwChan =>
      advance
      let dir := if ← accept .arrow then .send else .both
      let elem ← rules.type
      return .chanType ⟨start, elem.span.stop⟩ dir elem
  | .arrow =>
      advance
      let _ ← expect .kwChan
      let elem ← rules.type
      return .chanType ⟨start, elem.span.stop⟩ .receive elem
  | .leftParen =>
      advance
      let inner ← rules.type
      let _ ← expect .rightParen
      return .paren ⟨start, ← prevStop⟩ inner
  | _ => expected "type"

end Parse

end GoMend
