import GoMend.Lexeme
import GoMend.Total

/-!
# Source trees

The tree of a source file.  Every node carries the range from which it was read, and a node that
an edit has made carries none.  The bodies of `switch` and `select` are ordinary blocks whose
statements happen to be clauses, so that every list of statements has one form.
-/

namespace GoMend

/-- A name. -/
structure Ident where
  span : Span := {}
  name : String
  deriving DecidableEq, Repr

/-- Whether a name is the blank one, which binds nothing. -/
def Ident.isBlank (ident : Ident) : Bool :=
  ident.name = "_"

/-- A literal of one token, with its text as written. -/
structure BasicLit where
  span : Span := {}
  kind : Token
  value : String
  deriving DecidableEq, Repr

/-- The directions in which a channel can be used. -/
inductive ChanDir where
  | both
  | send
  | receive
  deriving DecidableEq, Repr

/-- An import: an optional name and a quoted path. -/
structure ImportSpec where
  span : Span := {}
  name : Option Ident
  path : BasicLit
  deriving DecidableEq, Repr

/-- The path of an import without its quotes. -/
def ImportSpec.plainPath (spec : ImportSpec) : String :=
  String.ofList (spec.path.value.toList.drop 1).dropLast

mutual

/-- An expression or a type. -/
inductive Expr where
  | ident (ident : Ident)
  | lit (lit : BasicLit)
  /-- The `...T` of a variadic parameter or the `...` of an array length. -/
  | ellipsis (span : Span) (elem : Option Expr)
  | funcLit (span : Span) (type : FuncType) (body : Block)
  | composite (span : Span) (type : Option Expr) (elems : List Expr)
  | paren (span : Span) (inner : Expr)
  | selector (span : Span) (operand : Expr) (sel : Ident)
  | index (span : Span) (operand : Expr) (index : Expr)
  /-- A slice; `full` says that two colons were written. -/
  | slice (span : Span) (operand : Expr) (low high max : Option Expr) (full : Bool)
  /-- A type assertion; the type is missing in the guard of a type switch. -/
  | typeAssert (span : Span) (operand : Expr) (type : Option Expr)
  /-- A call; `spread` says that the last argument is followed by `...`. -/
  | call (span : Span) (callee : Expr) (args : List Expr) (spread : Bool)
  | star (span : Span) (operand : Expr)
  | unary (span : Span) (op : Token) (operand : Expr)
  | binary (span : Span) (left : Expr) (op : Token) (right : Expr)
  | keyValue (span : Span) (key value : Expr)
  /-- An array, or a slice type when the length is missing. -/
  | arrayType (span : Span) (length : Option Expr) (elem : Expr)
  | structType (span : Span) (fields : FieldList)
  | funcType (type : FuncType)
  | interfaceType (span : Span) (methods : FieldList)
  | mapType (span : Span) (key value : Expr)
  | chanType (span : Span) (dir : ChanDir) (elem : Expr)

/-- The parameters and results of a function. -/
structure FuncType where
  span : Span
  params : FieldList
  results : Option FieldList

/-- Names of one type: parameters, struct fields or a method. -/
structure Field where
  span : Span
  names : List Ident
  type : Expr
  tag : Option BasicLit

/-- A list of fields with its brackets. -/
structure FieldList where
  span : Span
  fields : List Field

/-- A statement.  Clauses are statements too. -/
inductive Stmt where
  | decl (span : Span) (decl : GenDecl)
  | empty (span : Span)
  | labeled (span : Span) (label : Ident) (stmt : Stmt)
  | expr (span : Span) (expr : Expr)
  | send (span : Span) (channel value : Expr)
  | incDec (span : Span) (operand : Expr) (tok : Token)
  /-- An assignment, or a short variable declaration when the token is `:=`. -/
  | assign (span : Span) (lhs : List Expr) (tok : Token) (rhs : List Expr) (tokPos : Pos)
  | go (span : Span) (call : Expr)
  | defer (span : Span) (call : Expr)
  | ret (span : Span) (results : List Expr)
  /-- A `break`, `continue`, `goto` or `fallthrough`. -/
  | branch (span : Span) (tok : Token) (label : Option Ident)
  | block (block : Block)
  | ifElse (span : Span) (init : Option Stmt) (cond : Expr) (body : Block)
      (otherwise : Option Stmt)
  /-- A clause of a switch; the expressions are missing in the default clause. -/
  | caseClause (span : Span) (exprs : Option (List Expr)) (body : List Stmt) (colon : Pos)
  | switch (span : Span) (init : Option Stmt) (tag : Option Expr) (body : Block)
  | typeSwitch (span : Span) (init : Option Stmt) (guard : Stmt) (body : Block)
  /-- A clause of a select; the communication is missing in the default clause. -/
  | commClause (span : Span) (comm : Option Stmt) (body : List Stmt) (colon : Pos)
  | select (span : Span) (body : Block)
  | loop (span : Span) (init : Option Stmt) (cond : Option Expr) (post : Option Stmt)
      (body : Option Block)
  /-- A loop over a range; the token is missing when there are no variables. -/
  | range (span : Span) (key value : Option Expr) (tok : Option Token) (operand : Expr)
      (body : Option Block) (tokPos : Pos)

/-- Statements in braces. -/
structure Block where
  span : Span
  stmts : List Stmt

/-- One item of a declaration. -/
inductive Spec where
  | importSpec (spec : ImportSpec)
  | valueSpec (span : Span) (names : List Ident) (type : Option Expr) (values : List Expr)
  | typeSpec (span : Span) (name : Ident) (type : Expr) (isAlias : Bool)

/-- A declaration of imports, constants, types or variables. -/
structure GenDecl where
  span : Span
  tok : Token
  specs : List Spec
  /-- Whether the items stand in parentheses. -/
  grouped : Bool

end

/-- A function or a method. -/
structure FuncDecl where
  span : Span := {}
  recv : Option FieldList
  name : Ident
  type : FuncType
  body : Option Block

/-- A declaration at the top of a file. -/
inductive Decl where
  | gen (decl : GenDecl)
  | func (decl : FuncDecl)

/-- A source file. -/
structure File where
  span : Span := {}
  /-- The name of the file. -/
  name : String
  /-- The name of the package. -/
  package : Ident
  decls : List Decl
  comments : List Comment

namespace Expr

/-- The range of an expression. -/
def span : Expr → Span
  | .ident word => word.span
  | .lit literal => literal.span
  | .funcType type => type.span
  | .ellipsis span .. | .funcLit span .. | .composite span .. | .paren span .. => span
  | .selector span .. | .index span .. | .slice span .. | .typeAssert span .. => span
  | .call span .. | .star span .. | .unary span .. | .binary span .. => span
  | .keyValue span .. | .arrayType span .. | .structType span .. => span
  | .interfaceType span .. | .mapType span .. | .chanType span .. => span

/-- The name of the kind of an expression. -/
def kind : Expr → String
  | .ident .. => "Ident"
  | .lit .. => "BasicLit"
  | .ellipsis .. => "EllipsisExpr"
  | .funcLit .. => "FuncLit"
  | .composite .. => "CompositeLit"
  | .paren .. => "ParenExpr"
  | .selector .. => "SelectorExpr"
  | .index .. => "IndexExpr"
  | .slice .. => "SliceExpr"
  | .typeAssert .. => "TypeAssertExpr"
  | .call .. => "CallExpr"
  | .star .. => "StarExpr"
  | .unary .. => "UnaryExpr"
  | .binary .. => "BinaryExpr"
  | .keyValue .. => "KeyValueExpr"
  | .arrayType .. => "ArrayType"
  | .structType .. => "StructType"
  | .funcType .. => "FuncType"
  | .interfaceType .. => "InterfaceType"
  | .mapType .. => "MapType"
  | .chanType .. => "ChanType"

end Expr

namespace Stmt

/-- The range of a statement. -/
def span : Stmt → Span
  | .block body => body.span
  | .decl span .. | .empty span | .labeled span .. | .expr span .. | .send span .. => span
  | .incDec span .. | .assign span .. | .go span .. | .defer span .. | .ret span .. => span
  | .branch span .. | .ifElse span .. | .caseClause span .. | .switch span .. => span
  | .typeSwitch span .. | .commClause span .. | .select span .. | .loop span .. => span
  | .range span .. => span

/-- The name of the kind of a statement. -/
def kind : Stmt → String
  | .decl .. => "DeclStmt"
  | .empty .. => "EmptyStmt"
  | .labeled .. => "LabeledStmt"
  | .expr .. => "ExprStmt"
  | .send .. => "SendStmt"
  | .incDec .. => "IncDecStmt"
  | .assign .. => "AssignStmt"
  | .go .. => "GoStmt"
  | .defer .. => "DeferStmt"
  | .ret .. => "ReturnStmt"
  | .branch .. => "BranchStmt"
  | .block .. => "BlockStmt"
  | .ifElse .. => "IfStmt"
  | .caseClause .. => "CaseClause"
  | .switch .. => "SwitchStmt"
  | .typeSwitch .. => "TypeSwitchStmt"
  | .commClause .. => "CommClause"
  | .select .. => "SelectStmt"
  | .loop .. => "ForStmt"
  | .range .. => "RangeStmt"

/-- The statement with another end of its range. -/
def withStop (stop : Pos) : Stmt → Stmt
  | .decl span item => .decl { span with stop } item
  | .empty span => .empty { span with stop }
  | .labeled span label stmt => .labeled { span with stop } label stmt
  | .expr span value => .expr { span with stop } value
  | .send span channel value => .send { span with stop } channel value
  | .incDec span operand tok => .incDec { span with stop } operand tok
  | .assign span lhs tok rhs tokPos => .assign { span with stop } lhs tok rhs tokPos
  | .go span call => .go { span with stop } call
  | .defer span call => .defer { span with stop } call
  | .ret span results => .ret { span with stop } results
  | .branch span tok label => .branch { span with stop } tok label
  | .block body => .block { body with span := { body.span with stop } }
  | .ifElse span init cond body otherwise => .ifElse { span with stop } init cond body otherwise
  | .caseClause span exprs body colon => .caseClause { span with stop } exprs body colon
  | .switch span init tag body => .switch { span with stop } init tag body
  | .typeSwitch span init guard body => .typeSwitch { span with stop } init guard body
  | .commClause span comm body colon => .commClause { span with stop } comm body colon
  | .select span body => .select { span with stop } body
  | .loop span init cond post body => .loop { span with stop } init cond post body
  | .range span key value tok operand body tokPos =>
      .range { span with stop } key value tok operand body tokPos

end Stmt

namespace Spec

/-- The range of an item of a declaration. -/
def span : Spec → Span
  | .importSpec spec => spec.span
  | .valueSpec span .. | .typeSpec span .. => span

/-- The name of the kind of an item of a declaration. -/
def kind : Spec → String
  | .importSpec .. => "ImportSpec"
  | .valueSpec .. => "ValueSpec"
  | .typeSpec .. => "TypeSpec"

/-- The import that an item is. -/
def import? : Spec → Option ImportSpec
  | .importSpec spec => some spec
  | _ => none

end Spec

namespace Decl

/-- The range of a declaration. -/
def span : Decl → Span
  | .gen decl => decl.span
  | .func decl => decl.span

/-- The name of the kind of a declaration. -/
def kind : Decl → String
  | .gen .. => "GenDecl"
  | .func .. => "FuncDecl"

/-- The imports of a declaration. -/
def imports : Decl → List ImportSpec
  | .gen decl => decl.specs.filterMap Spec.import?
  | .func _ => []

end Decl

/-- The imports of a file in their order. -/
def File.imports (file : File) : List ImportSpec :=
  file.decls.flatMap Decl.imports

/-- The number of parameters or fields: a field without a name counts once. -/
def FieldList.count (list : FieldList) : Nat :=
  total (list.fields.map fun field => max field.names.length 1)

end GoMend
