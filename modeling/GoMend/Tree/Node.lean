import GoMend.Tree

/-!
# Nodes and their children

All parts of a tree as values of one type, with their children in the order in which they are
written.  Every traversal goes through `Node.children`, and every edit below a node goes through
`Node.withChildren`, which puts other children in the places of the old ones.
-/

namespace GoMend

/-- A node of a source tree. -/
inductive Node where
  | expr (expr : Expr)
  | field (field : Field)
  | fieldList (list : FieldList)
  | stmt (stmt : Stmt)
  | spec (spec : Spec)
  | decl (decl : Decl)
  | file (file : File)
  /-- A comment, which is never a child of another node. -/
  | comment (comment : Comment)

namespace Node

/-- The node of a name. -/
def ident (name : Ident) : Node :=
  .expr (.ident name)

/-- The node of a literal. -/
def lit (literal : BasicLit) : Node :=
  .expr (.lit literal)

/-- The node of a block. -/
def block (body : Block) : Node :=
  .stmt (.block body)

/-- The range of a node. -/
def span : Node → Span
  | .expr value => value.span
  | .field item => item.span
  | .fieldList list => list.span
  | .stmt step => step.span
  | .spec item => item.span
  | .decl item => item.span
  | .file source => source.span
  | .comment text => text.span

/-- The name of the kind of a node. -/
def kind : Node → String
  | .expr value => value.kind
  | .field _ => "Field"
  | .fieldList _ => "FieldList"
  | .stmt step => step.kind
  | .spec item => item.kind
  | .decl item => item.kind
  | .file _ => "File"
  | .comment _ => "Comment"

/-- The children of an expression. -/
def exprChildren : Expr → List Node
  | .ident _ | .lit _ => []
  | .ellipsis _ elem => elem.toList.map expr
  | .funcLit _ type body => [.expr (.funcType type), block body]
  | .composite _ type elems => type.toList.map expr ++ elems.map expr
  | .paren _ inner => [.expr inner]
  | .selector _ operand sel => [.expr operand, ident sel]
  | .index _ operand index => [.expr operand, .expr index]
  | .slice _ operand low high max _ =>
      .expr operand :: (low.toList.map expr ++ high.toList.map expr ++ max.toList.map expr)
  | .typeAssert _ operand type => .expr operand :: type.toList.map expr
  | .call _ callee args _ => .expr callee :: args.map expr
  | .star _ operand => [.expr operand]
  | .unary _ _ operand => [.expr operand]
  | .binary _ left _ right => [.expr left, .expr right]
  | .keyValue _ key value => [.expr key, .expr value]
  | .arrayType _ length elem => length.toList.map expr ++ [.expr elem]
  | .structType _ fields => [.fieldList fields]
  | .funcType type => .fieldList type.params :: type.results.toList.map fieldList
  | .interfaceType _ methods => [.fieldList methods]
  | .mapType _ key value => [.expr key, .expr value]
  | .chanType _ _ elem => [.expr elem]

/-- The children of a statement. -/
def stmtChildren : Stmt → List Node
  | .decl _ item => [.decl (.gen item)]
  | .empty _ => []
  | .labeled _ label inner => [ident label, .stmt inner]
  | .expr _ value => [.expr value]
  | .send _ channel value => [.expr channel, .expr value]
  | .incDec _ operand _ => [.expr operand]
  | .assign _ lhs _ rhs _ => lhs.map expr ++ rhs.map expr
  | .go _ call => [.expr call]
  | .defer _ call => [.expr call]
  | .ret _ results => results.map expr
  | .branch _ _ label => label.toList.map ident
  | .block body => body.stmts.map stmt
  | .ifElse _ init cond body otherwise =>
      init.toList.map stmt ++ (.expr cond :: block body :: otherwise.toList.map stmt)
  | .caseClause _ exprs body _ => (exprs.getD []).map expr ++ body.map stmt
  | .switch _ init tag body =>
      init.toList.map stmt ++ (tag.toList.map expr ++ [block body])
  | .typeSwitch _ init guard body => init.toList.map stmt ++ [.stmt guard, block body]
  | .commClause _ comm body _ => comm.toList.map stmt ++ body.map stmt
  | .select _ body => [block body]
  | .loop _ init cond post body =>
      init.toList.map stmt ++ (cond.toList.map expr ++ (post.toList.map stmt ++
        body.toList.map block))
  | .range _ key value _ operand body _ =>
      key.toList.map expr ++ (value.toList.map expr ++ (.expr operand :: body.toList.map block))

/-- The children of an item of a declaration. -/
def specChildren : Spec → List Node
  | .importSpec item => item.name.toList.map ident ++ [lit item.path]
  | .valueSpec _ names type values =>
      names.map ident ++ (type.toList.map expr ++ values.map expr)
  | .typeSpec _ name type _ => [ident name, .expr type]

/-- The children of a declaration. -/
def declChildren : Decl → List Node
  | .gen item => item.specs.map spec
  | .func item =>
      item.recv.toList.map fieldList ++
        (ident item.name :: .expr (.funcType item.type) :: item.body.toList.map block)

/-- The children of a node, in the order in which they are written. -/
def children : Node → List Node
  | .expr value => exprChildren value
  | .field item =>
      item.names.map ident ++ (.expr item.type :: item.tag.toList.map lit)
  | .fieldList list => list.fields.map field
  | .stmt step => stmtChildren step
  | .spec item => specChildren item
  | .decl item => declChildren item
  | .file source => ident source.package :: source.decls.map decl
  | .comment _ => []

/-- All nodes of the list are smaller than the bound. -/
structure AllSmaller (bound : Nat) (nodes : List Node) : Prop where
  smaller : ∀ node ∈ nodes, sizeOf node < bound

theorem AllSmaller.nil {bound : Nat} : AllSmaller bound [] :=
  ⟨by simp⟩

theorem AllSmaller.cons {bound : Nat} {node : Node} {nodes : List Node}
    (first : sizeOf node < bound) (others : AllSmaller bound nodes) :
    AllSmaller bound (node :: nodes) :=
  ⟨List.forall_mem_cons.mpr ⟨first, others.smaller⟩⟩

theorem AllSmaller.append {bound : Nat} {left right : List Node}
    (leftSmaller : AllSmaller bound left) (rightSmaller : AllSmaller bound right) :
    AllSmaller bound (left ++ right) :=
  ⟨List.forall_mem_append.mpr ⟨leftSmaller.smaller, rightSmaller.smaller⟩⟩

/-- Wrapping a part into a node adds at most two to its size. -/
theorem AllSmaller.map {α : Type} [SizeOf α] {bound : Nat} {wrap : α → Node} {parts : List α}
    (wrapped : ∀ part, sizeOf (wrap part) ≤ sizeOf part + 2) (fits : sizeOf parts + 1 < bound) :
    AllSmaller bound (parts.map wrap) := by
  constructor
  intro node mem
  obtain ⟨part, partMem, rfl⟩ := List.mem_map.mp mem
  have partSmaller := List.sizeOf_lt_of_mem partMem
  have wrappedSmaller := wrapped part
  omega

theorem AllSmaller.mapOption {α : Type} [SizeOf α] {bound : Nat} {wrap : α → Node}
    {part : Option α} (wrapped : ∀ part, sizeOf (wrap part) ≤ sizeOf part + 2)
    (fits : sizeOf part + 1 < bound) :
    AllSmaller bound (part.toList.map wrap) := by
  cases part with
  | none => exact AllSmaller.nil
  | some value =>
      refine AllSmaller.cons ?_ AllSmaller.nil
      have wrappedSmaller := wrapped value
      simp at fits
      omega

theorem AllSmaller.mapListOption {α : Type} [SizeOf α] {bound : Nat} {wrap : α → Node}
    {parts : Option (List α)} (wrapped : ∀ part, sizeOf (wrap part) ≤ sizeOf part + 2)
    (fits : sizeOf parts + 1 < bound) :
    AllSmaller bound ((parts.getD []).map wrap) := by
  cases parts with
  | none => exact AllSmaller.nil
  | some values =>
      refine AllSmaller.map wrapped ?_
      simp at fits ⊢
      omega

theorem sizeOf_span (span : Span) : sizeOf span = 1 + sizeOf span.start + sizeOf span.stop :=
  rfl

theorem sizeOf_funcType (type : FuncType) :
    sizeOf type = 1 + sizeOf type.span + sizeOf type.params + sizeOf type.results := by
  cases type; simp

theorem sizeOf_field (item : Field) :
    sizeOf item =
      1 + sizeOf item.span + sizeOf item.names + sizeOf item.type + sizeOf item.tag := by
  cases item; simp

theorem sizeOf_fieldList (list : FieldList) :
    sizeOf list = 1 + sizeOf list.span + sizeOf list.fields := by
  cases list; simp

theorem sizeOf_block (body : Block) : sizeOf body = 1 + sizeOf body.span + sizeOf body.stmts := by
  cases body; simp

theorem sizeOf_importSpec (item : ImportSpec) :
    sizeOf item = 1 + sizeOf item.span + sizeOf item.name + sizeOf item.path := by
  cases item; simp

theorem sizeOf_genDecl (item : GenDecl) :
    sizeOf item =
      1 + sizeOf item.span + sizeOf item.tok + sizeOf item.specs + sizeOf item.grouped := by
  cases item; simp

theorem sizeOf_funcDecl (item : FuncDecl) :
    sizeOf item =
      1 + sizeOf item.span + sizeOf item.recv + sizeOf item.name + sizeOf item.type +
        sizeOf item.body := by
  cases item; simp

theorem sizeOf_file (source : File) :
    sizeOf source =
      1 + sizeOf source.span + sizeOf source.name + sizeOf source.package + sizeOf source.decls +
        sizeOf source.comments := by
  cases source; simp

theorem allSmaller_exprChildren (value : Expr) :
    AllSmaller (sizeOf (expr value)) (exprChildren value) := by
  cases value <;> dsimp only [exprChildren] <;>
    repeat' first
      | exact AllSmaller.nil
      | apply AllSmaller.mapOption
      | apply AllSmaller.map
      | apply AllSmaller.cons
      | apply AllSmaller.append
  all_goals simp [ident, block, sizeOf_span, sizeOf_funcType]
  all_goals try omega

theorem allSmaller_stmtChildren (step : Stmt) :
    AllSmaller (sizeOf (stmt step)) (stmtChildren step) := by
  cases step <;> dsimp only [stmtChildren] <;>
    repeat' first
      | exact AllSmaller.nil
      | apply AllSmaller.mapOption
      | apply AllSmaller.mapListOption
      | apply AllSmaller.map
      | apply AllSmaller.cons
      | apply AllSmaller.append
  all_goals simp [ident, block, sizeOf_span, sizeOf_block]
  all_goals try omega

theorem allSmaller_specChildren (item : Spec) :
    AllSmaller (sizeOf (spec item)) (specChildren item) := by
  cases item <;> dsimp only [specChildren] <;>
    repeat' first
      | exact AllSmaller.nil
      | apply AllSmaller.mapOption
      | apply AllSmaller.map
      | apply AllSmaller.cons
      | apply AllSmaller.append
  all_goals simp [ident, lit, sizeOf_span, sizeOf_importSpec]
  all_goals try omega

theorem allSmaller_declChildren (item : Decl) :
    AllSmaller (sizeOf (decl item)) (declChildren item) := by
  cases item <;> dsimp only [declChildren] <;>
    repeat' first
      | exact AllSmaller.nil
      | apply AllSmaller.mapOption
      | apply AllSmaller.map
      | apply AllSmaller.cons
      | apply AllSmaller.append
  all_goals simp [ident, block, sizeOf_span, sizeOf_genDecl, sizeOf_funcDecl]
  all_goals try omega

/-- A child is smaller than its parent. -/
theorem sizeOf_lt_of_mem_children {child parent : Node} (mem : child ∈ parent.children) :
    sizeOf child < sizeOf parent := by
  suffices AllSmaller (sizeOf parent) parent.children from this.smaller child mem
  cases parent with
  | expr value => exact allSmaller_exprChildren value
  | stmt step => exact allSmaller_stmtChildren step
  | spec item => exact allSmaller_specChildren item
  | decl item => exact allSmaller_declChildren item
  | field item =>
      refine .append (.map ?_ ?_) (.cons ?_ (.mapOption ?_ ?_)) <;>
        simp [ident, lit, sizeOf_field, sizeOf_span] <;> omega
  | fieldList list =>
      refine .map ?_ ?_ <;> simp [sizeOf_fieldList, sizeOf_span] <;> omega
  | file source =>
      refine .cons ?_ (.map ?_ ?_) <;> simp [ident, sizeOf_file, sizeOf_span] <;> omega
  | comment _ => exact .nil

/-! ### Other children in the old places -/

/-- A reader of the new children of a node, which takes them from the front of a list.  A child of
another sort than the old one is not taken. -/
abbrev Refill (α : Type) := StateM (List Node) α

namespace Refill

/-- The next child, if the given view of it exists. -/
def take {α : Type} (view : Node → Option α) (old : α) : Refill α := fun nodes =>
  match nodes with
  | [] => (old, [])
  | node :: rest =>
      match view node with
      | some value => (value, rest)
      | none => (old, rest)

/-- The next child for a part that may be missing. -/
def takeOption {α : Type} (view : Node → Option α) : Option α → Refill (Option α)
  | none => pure none
  | some old => some <$> take view old

/-- The next children for a list of parts. -/
def takeList {α : Type} (view : Node → Option α) (old : List α) : Refill (List α) :=
  old.mapM (take view)

end Refill

/-- The expression that a node is. -/
def expr? : Node → Option Expr
  | .expr value => some value
  | _ => none

/-- The name that a node is. -/
def ident? : Node → Option Ident
  | .expr (.ident name) => some name
  | _ => none

/-- The literal that a node is. -/
def lit? : Node → Option BasicLit
  | .expr (.lit literal) => some literal
  | _ => none

/-- The signature that a node is. -/
def funcType? : Node → Option FuncType
  | .expr (.funcType type) => some type
  | _ => none

/-- The field that a node is. -/
def field? : Node → Option Field
  | .field item => some item
  | _ => none

/-- The list of fields that a node is. -/
def fieldList? : Node → Option FieldList
  | .fieldList list => some list
  | _ => none

/-- The statement that a node is. -/
def stmt? : Node → Option Stmt
  | .stmt step => some step
  | _ => none

/-- The block that a node is. -/
def block? : Node → Option Block
  | .stmt (.block body) => some body
  | _ => none

/-- The item of a declaration that a node is. -/
def spec? : Node → Option Spec
  | .spec item => some item
  | _ => none

/-- The declaration that a node is. -/
def decl? : Node → Option Decl
  | .decl item => some item
  | _ => none

/-- The declaration of items that a node is. -/
def genDecl? : Node → Option GenDecl
  | .decl (.gen item) => some item
  | _ => none

/-- The file that a node is. -/
def file? : Node → Option File
  | .file source => some source
  | _ => none

open Refill

/-- Other children for an expression. -/
def refillExpr : Expr → Refill Expr
  | .ident name => return .ident name
  | .lit literal => return .lit literal
  | .ellipsis span elem => return .ellipsis span (← takeOption expr? elem)
  | .funcLit span type body => return .funcLit span (← take funcType? type) (← take block? body)
  | .composite span type elems =>
      return .composite span (← takeOption expr? type) (← takeList expr? elems)
  | .paren span inner => return .paren span (← take expr? inner)
  | .selector span operand sel =>
      return .selector span (← take expr? operand) (← take ident? sel)
  | .index span operand index => return .index span (← take expr? operand) (← take expr? index)
  | .slice span operand low high max full =>
      return .slice span (← take expr? operand) (← takeOption expr? low) (← takeOption expr? high)
        (← takeOption expr? max) full
  | .typeAssert span operand type =>
      return .typeAssert span (← take expr? operand) (← takeOption expr? type)
  | .call span callee args spread =>
      return .call span (← take expr? callee) (← takeList expr? args) spread
  | .star span operand => return .star span (← take expr? operand)
  | .unary span op operand => return .unary span op (← take expr? operand)
  | .binary span left op right =>
      return .binary span (← take expr? left) op (← take expr? right)
  | .keyValue span key value => return .keyValue span (← take expr? key) (← take expr? value)
  | .arrayType span length elem =>
      return .arrayType span (← takeOption expr? length) (← take expr? elem)
  | .structType span fields => return .structType span (← take fieldList? fields)
  | .funcType type =>
      return .funcType
        ⟨type.span, ← take fieldList? type.params, ← takeOption fieldList? type.results⟩
  | .interfaceType span methods => return .interfaceType span (← take fieldList? methods)
  | .mapType span key value => return .mapType span (← take expr? key) (← take expr? value)
  | .chanType span dir elem => return .chanType span dir (← take expr? elem)

/-- Other children for a statement. -/
def refillStmt : Stmt → Refill Stmt
  | .decl span item => return .decl span (← take genDecl? item)
  | .empty span => return .empty span
  | .labeled span label inner => return .labeled span (← take ident? label) (← take stmt? inner)
  | .expr span value => return .expr span (← take expr? value)
  | .send span channel value => return .send span (← take expr? channel) (← take expr? value)
  | .incDec span operand tok => return .incDec span (← take expr? operand) tok
  | .assign span lhs tok rhs tokPos =>
      return .assign span (← takeList expr? lhs) tok (← takeList expr? rhs) tokPos
  | .go span call => return .go span (← take expr? call)
  | .defer span call => return .defer span (← take expr? call)
  | .ret span results => return .ret span (← takeList expr? results)
  | .branch span tok label => return .branch span tok (← takeOption ident? label)
  | .block body => return .block ⟨body.span, ← takeList stmt? body.stmts⟩
  | .ifElse span init cond body otherwise =>
      return .ifElse span (← takeOption stmt? init) (← take expr? cond) (← take block? body)
        (← takeOption stmt? otherwise)
  | .caseClause span none body colon =>
      return .caseClause span none (← takeList stmt? body) colon
  | .caseClause span (some exprs) body colon =>
      return .caseClause span (some (← takeList expr? exprs)) (← takeList stmt? body) colon
  | .switch span init tag body =>
      return .switch span (← takeOption stmt? init) (← takeOption expr? tag) (← take block? body)
  | .typeSwitch span init guard body =>
      return .typeSwitch span (← takeOption stmt? init) (← take stmt? guard) (← take block? body)
  | .commClause span comm body colon =>
      return .commClause span (← takeOption stmt? comm) (← takeList stmt? body) colon
  | .select span body => return .select span (← take block? body)
  | .loop span init cond post body =>
      return .loop span (← takeOption stmt? init) (← takeOption expr? cond)
        (← takeOption stmt? post) (← takeOption block? body)
  | .range span key value tok operand body tokPos =>
      return .range span (← takeOption expr? key) (← takeOption expr? value) tok
        (← take expr? operand) (← takeOption block? body) tokPos

/-- Other children for an item of a declaration. -/
def refillSpec : Spec → Refill Spec
  | .importSpec item =>
      return .importSpec ⟨item.span, ← takeOption ident? item.name, ← take lit? item.path⟩
  | .valueSpec span names type values =>
      return .valueSpec span (← takeList ident? names) (← takeOption expr? type)
        (← takeList expr? values)
  | .typeSpec span name type isAlias =>
      return .typeSpec span (← take ident? name) (← take expr? type) isAlias

/-- Other children for a declaration. -/
def refillDecl : Decl → Refill Decl
  | .gen item => return .gen { item with specs := ← takeList spec? item.specs }
  | .func item =>
      return .func
        ⟨item.span, ← takeOption fieldList? item.recv, ← take ident? item.name,
          ← take funcType? item.type, ← takeOption block? item.body⟩

/-- Other children for a node. -/
def refill : Node → Refill Node
  | .expr value => .expr <$> refillExpr value
  | .field item =>
      return .field
        ⟨item.span, ← takeList ident? item.names, ← take expr? item.type,
          ← takeOption lit? item.tag⟩
  | .fieldList list => return .fieldList ⟨list.span, ← takeList field? list.fields⟩
  | .stmt step => .stmt <$> refillStmt step
  | .spec item => .spec <$> refillSpec item
  | .decl item => .decl <$> refillDecl item
  | .file source =>
      return .file
        { source with
          package := ← take ident? source.package
          decls := ← takeList decl? source.decls }
  | .comment text => return .comment text

/-- The node with the given children in the places of its own. -/
def withChildren (node : Node) (children : List Node) : Node :=
  (node.refill children).1

end Node

end GoMend
