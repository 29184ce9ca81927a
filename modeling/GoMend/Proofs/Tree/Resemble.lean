import GoMend.Tree.Walk

/-!
# Nodes that differ only in their children

Every edit below a node puts other children in the places of the old ones.  Two nodes resemble
each other when they have the same form and the same data apart from their children, and when
their children stand in the same places.  Refilling a node with children of the sorts of its own
gives the node that resembles it and has these children.
-/

namespace GoMend

namespace Node

/-- What holds of a node as soon as it holds of its children holds of every node. -/
theorem induction_children {motive : Node → Prop}
    (step : ∀ node : Node, (∀ child ∈ node.children, motive child) → motive node)
    (node : Node) : motive node :=
  step node fun child _mem => induction_children step child
termination_by sizeOf node
decreasing_by exact sizeOf_lt_of_mem_children _mem

namespace Refill

variable {α β : Type}

theorem bind_apply (first : Refill α) (next : α → Refill β) (nodes : List Node) :
    (first >>= next) nodes = next (first nodes).1 (first nodes).2 :=
  rfl

theorem map_apply (change : α → β) (reader : Refill α) (nodes : List Node) :
    (change <$> reader) nodes = (change (reader nodes).1, (reader nodes).2) :=
  rfl

theorem pure_apply (value : α) (nodes : List Node) :
    (pure value : Refill α) nodes = (value, nodes) :=
  rfl

end Refill

/-! ### Sorts of nodes -/

/-- The sorts of nodes that the places of a tree tell apart. -/
inductive Kind where
  | ident
  | lit
  | funcType
  | expr
  | field
  | fieldList
  | block
  | stmt
  | spec
  | genDecl
  | funcDecl
  | file
  | comment
  deriving DecidableEq

/-- The sort of a node. -/
def sort : Node → Kind
  | .expr (.ident _) => .ident
  | .expr (.lit _) => .lit
  | .expr (.funcType _) => .funcType
  | .expr _ => .expr
  | .field _ => .field
  | .fieldList _ => .fieldList
  | .stmt (.block _) => .block
  | .stmt _ => .stmt
  | .spec _ => .spec
  | .decl (.gen _) => .genDecl
  | .decl (.func _) => .funcDecl
  | .file _ => .file
  | .comment _ => .comment

/-- A place in a tree for parts of one type.  What can stand in it is known from the sort of a
node. -/
structure Slot (α : Type) where
  wrap : α → Node
  view : Node → Option α
  accepts : Kind → Bool
  view_eq_some_iff : ∀ node part, view node = some part ↔ node = wrap part
  isSome_view : ∀ node, (view node).isSome = accepts node.sort

namespace Slot

/-- The place of an expression. -/
@[reducible]
def expr : Slot Expr where
  wrap := .expr
  view := expr?
  accepts kind := kind ∈ [.ident, .lit, .funcType, .expr]
  view_eq_some_iff node part := by cases node <;> simp [expr?]
  isSome_view node := by
    cases node with
    | expr value => cases value <;> rfl
    | stmt step => cases step <;> rfl
    | decl item => cases item <;> rfl
    | _ => rfl

/-- The place of a name. -/
@[reducible]
def ident : Slot Ident where
  wrap := Node.ident
  view := ident?
  accepts kind := kind = .ident
  view_eq_some_iff node part := by
    cases node with
    | expr value => cases value <;> simp [ident?, Node.ident]
    | _ => simp [ident?, Node.ident]
  isSome_view node := by
    cases node with
    | expr value => cases value <;> rfl
    | stmt step => cases step <;> rfl
    | decl item => cases item <;> rfl
    | _ => rfl

/-- The place of a literal. -/
@[reducible]
def lit : Slot BasicLit where
  wrap := Node.lit
  view := lit?
  accepts kind := kind = .lit
  view_eq_some_iff node part := by
    cases node with
    | expr value => cases value <;> simp [lit?, Node.lit]
    | _ => simp [lit?, Node.lit]
  isSome_view node := by
    cases node with
    | expr value => cases value <;> rfl
    | stmt step => cases step <;> rfl
    | decl item => cases item <;> rfl
    | _ => rfl

/-- The place of a signature. -/
@[reducible]
def funcType : Slot FuncType where
  wrap type := .expr (.funcType type)
  view := funcType?
  accepts kind := kind = .funcType
  view_eq_some_iff node part := by
    cases node with
    | expr value => cases value <;> simp [funcType?]
    | _ => simp [funcType?]
  isSome_view node := by
    cases node with
    | expr value => cases value <;> rfl
    | stmt step => cases step <;> rfl
    | decl item => cases item <;> rfl
    | _ => rfl

/-- The place of a field. -/
@[reducible]
def field : Slot Field where
  wrap := .field
  view := field?
  accepts kind := kind = .field
  view_eq_some_iff node part := by cases node <;> simp [field?]
  isSome_view node := by
    cases node with
    | expr value => cases value <;> rfl
    | stmt step => cases step <;> rfl
    | decl item => cases item <;> rfl
    | _ => rfl

/-- The place of a list of fields. -/
@[reducible]
def fieldList : Slot FieldList where
  wrap := .fieldList
  view := fieldList?
  accepts kind := kind = .fieldList
  view_eq_some_iff node part := by cases node <;> simp [fieldList?]
  isSome_view node := by
    cases node with
    | expr value => cases value <;> rfl
    | stmt step => cases step <;> rfl
    | decl item => cases item <;> rfl
    | _ => rfl

/-- The place of a statement. -/
@[reducible]
def stmt : Slot Stmt where
  wrap := .stmt
  view := stmt?
  accepts kind := kind ∈ [.block, .stmt]
  view_eq_some_iff node part := by cases node <;> simp [stmt?]
  isSome_view node := by
    cases node with
    | expr value => cases value <;> rfl
    | stmt step => cases step <;> rfl
    | decl item => cases item <;> rfl
    | _ => rfl

/-- The place of a block. -/
@[reducible]
def block : Slot Block where
  wrap := Node.block
  view := block?
  accepts kind := kind = .block
  view_eq_some_iff node part := by
    cases node with
    | stmt step => cases step <;> simp [block?, Node.block]
    | _ => simp [block?, Node.block]
  isSome_view node := by
    cases node with
    | expr value => cases value <;> rfl
    | stmt step => cases step <;> rfl
    | decl item => cases item <;> rfl
    | _ => rfl

/-- The place of an item of a declaration. -/
@[reducible]
def spec : Slot Spec where
  wrap := .spec
  view := spec?
  accepts kind := kind = .spec
  view_eq_some_iff node part := by cases node <;> simp [spec?]
  isSome_view node := by
    cases node with
    | expr value => cases value <;> rfl
    | stmt step => cases step <;> rfl
    | decl item => cases item <;> rfl
    | _ => rfl

/-- The place of a declaration of items. -/
@[reducible]
def genDecl : Slot GenDecl where
  wrap item := .decl (.gen item)
  view := genDecl?
  accepts kind := kind = .genDecl
  view_eq_some_iff node part := by
    cases node with
    | decl item => cases item <;> simp [genDecl?]
    | _ => simp [genDecl?]
  isSome_view node := by
    cases node with
    | expr value => cases value <;> rfl
    | stmt step => cases step <;> rfl
    | decl item => cases item <;> rfl
    | _ => rfl

/-- The place of a declaration at the top of a file. -/
@[reducible]
def decl : Slot Decl where
  wrap := .decl
  view := decl?
  accepts kind := kind ∈ [.genDecl, .funcDecl]
  view_eq_some_iff node part := by cases node <;> simp [decl?]
  isSome_view node := by
    cases node with
    | expr value => cases value <;> rfl
    | stmt step => cases step <;> rfl
    | decl item => cases item <;> rfl
    | _ => rfl

variable {α : Type} (slot : Slot α)

theorem view_wrap (part : α) : slot.view (slot.wrap part) = some part :=
  (slot.view_eq_some_iff _ _).mpr rfl

/-- A node of the sort of a part can stand in the place of the part. -/
theorem eq_wrap_of_sort {node : Node} {part : α} (same : node.sort = (slot.wrap part).sort) :
    ∃ other, node = slot.wrap other := by
  have accepted : (slot.view node).isSome := by
    rw [slot.isSome_view, same, ← slot.isSome_view, slot.view_wrap]
    rfl
  obtain ⟨other, viewed⟩ := Option.isSome_iff_exists.mp accepted
  exact ⟨other, (slot.view_eq_some_iff _ _).mp viewed⟩

/-- The first of some nodes that have the sorts of a part and of others. -/
theorem exists_cons {part : α} {nodes tail : List Node}
    (same : nodes.map sort = (slot.wrap part :: tail).map sort) :
    ∃ other rest, nodes = slot.wrap other :: rest ∧ rest.map sort = tail.map sort := by
  obtain ⟨node, rest, rfl, sameFirst, sameRest⟩ := List.map_eq_cons_iff.mp same
  obtain ⟨other, rfl⟩ := slot.eq_wrap_of_sort sameFirst
  exact ⟨other, rest, rfl, sameRest⟩

/-- The first of some nodes that have the sorts of a list of parts and of others. -/
theorem exists_append {parts : List α} {nodes tail : List Node}
    (same : nodes.map sort = (parts.map slot.wrap ++ tail).map sort) :
    ∃ (others : List α) (rest : List Node), nodes = others.map slot.wrap ++ rest ∧
      others.length = parts.length ∧ rest.map sort = tail.map sort := by
  induction parts generalizing nodes with
  | nil => exact ⟨[], nodes, rfl, rfl, same⟩
  | cons part parts ih =>
      obtain ⟨other, rest, rfl, sameRest⟩ := slot.exists_cons same
      obtain ⟨others, rest, rfl, lengthEq, sameRest⟩ := ih sameRest
      exact ⟨other :: others, rest, rfl, by simp [lengthEq], sameRest⟩

/-- Nodes that have the sorts of a list of parts. -/
theorem exists_map {parts : List α} {nodes : List Node}
    (same : nodes.map sort = (parts.map slot.wrap).map sort) :
    ∃ others : List α, nodes = others.map slot.wrap ∧ others.length = parts.length := by
  rw [← List.append_nil (parts.map slot.wrap)] at same
  obtain ⟨others, rest, rfl, lengthEq, sameRest⟩ := slot.exists_append same
  obtain rfl : rest = [] := by simpa using sameRest
  exact ⟨others, List.append_nil _, lengthEq⟩

/-- The first of some nodes that have the sorts of a part that may be missing and of others. -/
theorem exists_option {part : Option α} {nodes tail : List Node}
    (same : nodes.map sort = (part.toList.map slot.wrap ++ tail).map sort) :
    ∃ (other : Option α) (rest : List Node), nodes = other.toList.map slot.wrap ++ rest ∧
      other.isSome = part.isSome ∧ rest.map sort = tail.map sort := by
  cases part with
  | none => exact ⟨none, nodes, rfl, rfl, same⟩
  | some part =>
      obtain ⟨other, rest, rfl, sameRest⟩ := slot.exists_cons same
      exact ⟨some other, rest, rfl, rfl, sameRest⟩

/-- Nodes that have the sort of a part that may be missing. -/
theorem exists_toList {part : Option α} {nodes : List Node}
    (same : nodes.map sort = (part.toList.map slot.wrap).map sort) :
    ∃ other : Option α, nodes = other.toList.map slot.wrap ∧ other.isSome = part.isSome := by
  rw [← List.append_nil (part.toList.map slot.wrap)] at same
  obtain ⟨other, rest, rfl, isSomeEq, sameRest⟩ := slot.exists_option same
  obtain rfl : rest = [] := by simpa using sameRest
  exact ⟨other, List.append_nil _, isSomeEq⟩

/-- The node that has the sort of a part. -/
theorem exists_singleton {part : α} {nodes : List Node}
    (same : nodes.map sort = [slot.wrap part].map sort) : ∃ other, nodes = [slot.wrap other] := by
  obtain ⟨other, rest, rfl, sameRest⟩ := slot.exists_cons same
  obtain rfl : rest = [] := by simpa using sameRest
  exact ⟨other, rfl⟩

theorem take_wrap {old new : α} {rest : List Node} :
    Refill.take slot.view old (slot.wrap new :: rest) = (new, rest) := by
  simp [Refill.take, slot.view_wrap]

theorem takeOption_wrap {old new : Option α} (rest : List Node)
    (same : new.isSome = old.isSome) :
    Refill.takeOption slot.view old (new.toList.map slot.wrap ++ rest) = (new, rest) := by
  cases old with
  | none =>
      obtain rfl : new = none := by simpa using same
      rfl
  | some old =>
      obtain ⟨new, rfl⟩ := Option.isSome_iff_exists.mp (same.trans rfl)
      simp [Refill.takeOption, Refill.map_apply, slot.take_wrap]

theorem takeList_wrap {old new : List α} (rest : List Node) (same : new.length = old.length) :
    Refill.takeList slot.view old (new.map slot.wrap ++ rest) = (new, rest) := by
  unfold Refill.takeList
  induction old generalizing new with
  | nil =>
      obtain rfl : new = [] := by simpa using same
      rfl
  | cons old olds ih =>
      cases new with
      | nil => simp at same
      | cons new news =>
          have others := @ih news (by simpa using same)
          simp [Refill.bind_apply, Refill.map_apply, slot.take_wrap, others]

theorem takeOption_wrap_last {old new : Option α} (same : new.isSome = old.isSome) :
    Refill.takeOption slot.view old (new.toList.map slot.wrap) = (new, []) := by
  simpa using slot.takeOption_wrap [] same

theorem takeList_wrap_last {old new : List α} (same : new.length = old.length) :
    Refill.takeList slot.view old (new.map slot.wrap) = (new, []) := by
  simpa using slot.takeList_wrap [] same

end Slot

/-! ### Nodes of one form -/

/-- Two nodes resemble each other when they differ at most in the children that stand in the same
places. -/
inductive Resembles : Node → Node → Prop
  | ident (name : Ident) : Resembles (.expr (.ident name)) (.expr (.ident name))
  | lit (literal : BasicLit) : Resembles (.expr (.lit literal)) (.expr (.lit literal))
  | ellipsis (span : Span) {elem elem' : Option Expr} (same : elem'.isSome = elem.isSome) :
      Resembles (.expr (.ellipsis span elem)) (.expr (.ellipsis span elem'))
  | funcLit (span : Span) (type type' : FuncType) (body body' : Block) :
      Resembles (.expr (.funcLit span type body)) (.expr (.funcLit span type' body'))
  | composite (span : Span) {type type' : Option Expr} {elems elems' : List Expr}
      (sameType : type'.isSome = type.isSome) (sameElems : elems'.length = elems.length) :
      Resembles (.expr (.composite span type elems)) (.expr (.composite span type' elems'))
  | paren (span : Span) (inner inner' : Expr) :
      Resembles (.expr (.paren span inner)) (.expr (.paren span inner'))
  | selector (span : Span) (operand operand' : Expr) (sel sel' : Ident) :
      Resembles (.expr (.selector span operand sel)) (.expr (.selector span operand' sel'))
  | index (span : Span) (operand operand' index index' : Expr) :
      Resembles (.expr (.index span operand index)) (.expr (.index span operand' index'))
  | slice (span : Span) (operand operand' : Expr) {low low' high high' max max' : Option Expr}
      (full : Bool) (sameLow : low'.isSome = low.isSome) (sameHigh : high'.isSome = high.isSome)
      (sameMax : max'.isSome = max.isSome) :
      Resembles (.expr (.slice span operand low high max full))
        (.expr (.slice span operand' low' high' max' full))
  | typeAssert (span : Span) (operand operand' : Expr) {type type' : Option Expr}
      (same : type'.isSome = type.isSome) :
      Resembles (.expr (.typeAssert span operand type)) (.expr (.typeAssert span operand' type'))
  | call (span : Span) (callee callee' : Expr) {args args' : List Expr} (spread : Bool)
      (same : args'.length = args.length) :
      Resembles (.expr (.call span callee args spread)) (.expr (.call span callee' args' spread))
  | star (span : Span) (operand operand' : Expr) :
      Resembles (.expr (.star span operand)) (.expr (.star span operand'))
  | unary (span : Span) (op : Token) (operand operand' : Expr) :
      Resembles (.expr (.unary span op operand)) (.expr (.unary span op operand'))
  | binary (span : Span) (op : Token) (left left' right right' : Expr) :
      Resembles (.expr (.binary span left op right)) (.expr (.binary span left' op right'))
  | keyValue (span : Span) (key key' value value' : Expr) :
      Resembles (.expr (.keyValue span key value)) (.expr (.keyValue span key' value'))
  | arrayType (span : Span) {length length' : Option Expr} (elem elem' : Expr)
      (same : length'.isSome = length.isSome) :
      Resembles (.expr (.arrayType span length elem)) (.expr (.arrayType span length' elem'))
  | structType (span : Span) (fields fields' : FieldList) :
      Resembles (.expr (.structType span fields)) (.expr (.structType span fields'))
  | funcType (span : Span) (params params' : FieldList) {results results' : Option FieldList}
      (same : results'.isSome = results.isSome) :
      Resembles (.expr (.funcType ⟨span, params, results⟩))
        (.expr (.funcType ⟨span, params', results'⟩))
  | interfaceType (span : Span) (methods methods' : FieldList) :
      Resembles (.expr (.interfaceType span methods)) (.expr (.interfaceType span methods'))
  | mapType (span : Span) (key key' value value' : Expr) :
      Resembles (.expr (.mapType span key value)) (.expr (.mapType span key' value'))
  | chanType (span : Span) (dir : ChanDir) (elem elem' : Expr) :
      Resembles (.expr (.chanType span dir elem)) (.expr (.chanType span dir elem'))
  | field (span : Span) {names names' : List Ident} (type type' : Expr)
      {tag tag' : Option BasicLit} (sameNames : names'.length = names.length)
      (sameTag : tag'.isSome = tag.isSome) :
      Resembles (.field ⟨span, names, type, tag⟩) (.field ⟨span, names', type', tag'⟩)
  | fieldList (span : Span) {fields fields' : List Field} (same : fields'.length = fields.length) :
      Resembles (.fieldList ⟨span, fields⟩) (.fieldList ⟨span, fields'⟩)
  | declStmt (span : Span) (item item' : GenDecl) :
      Resembles (.stmt (.decl span item)) (.stmt (.decl span item'))
  | empty (span : Span) : Resembles (.stmt (.empty span)) (.stmt (.empty span))
  | labeled (span : Span) (label label' : Ident) (inner inner' : Stmt) :
      Resembles (.stmt (.labeled span label inner)) (.stmt (.labeled span label' inner'))
  | exprStmt (span : Span) (value value' : Expr) :
      Resembles (.stmt (.expr span value)) (.stmt (.expr span value'))
  | send (span : Span) (channel channel' value value' : Expr) :
      Resembles (.stmt (.send span channel value)) (.stmt (.send span channel' value'))
  | incDec (span : Span) (operand operand' : Expr) (tok : Token) :
      Resembles (.stmt (.incDec span operand tok)) (.stmt (.incDec span operand' tok))
  | assign (span : Span) {lhs lhs' : List Expr} (tok : Token) {rhs rhs' : List Expr}
      (tokPos : Pos) (sameLeft : lhs'.length = lhs.length) (sameRight : rhs'.length = rhs.length) :
      Resembles (.stmt (.assign span lhs tok rhs tokPos))
        (.stmt (.assign span lhs' tok rhs' tokPos))
  | go (span : Span) (call call' : Expr) :
      Resembles (.stmt (.go span call)) (.stmt (.go span call'))
  | defer (span : Span) (call call' : Expr) :
      Resembles (.stmt (.defer span call)) (.stmt (.defer span call'))
  | ret (span : Span) {results results' : List Expr} (same : results'.length = results.length) :
      Resembles (.stmt (.ret span results)) (.stmt (.ret span results'))
  | branch (span : Span) (tok : Token) {label label' : Option Ident}
      (same : label'.isSome = label.isSome) :
      Resembles (.stmt (.branch span tok label)) (.stmt (.branch span tok label'))
  | block (span : Span) {stmts stmts' : List Stmt} (same : stmts'.length = stmts.length) :
      Resembles (.stmt (.block ⟨span, stmts⟩)) (.stmt (.block ⟨span, stmts'⟩))
  | ifElse (span : Span) {init init' : Option Stmt} (cond cond' : Expr) (body body' : Block)
      {otherwise otherwise' : Option Stmt} (sameInit : init'.isSome = init.isSome)
      (sameElse : otherwise'.isSome = otherwise.isSome) :
      Resembles (.stmt (.ifElse span init cond body otherwise))
        (.stmt (.ifElse span init' cond' body' otherwise'))
  | defaultClause (span : Span) {body body' : List Stmt} (colon : Pos)
      (same : body'.length = body.length) :
      Resembles (.stmt (.caseClause span none body colon))
        (.stmt (.caseClause span none body' colon))
  | caseClause (span : Span) {exprs exprs' : List Expr} {body body' : List Stmt} (colon : Pos)
      (sameExprs : exprs'.length = exprs.length) (sameBody : body'.length = body.length) :
      Resembles (.stmt (.caseClause span (some exprs) body colon))
        (.stmt (.caseClause span (some exprs') body' colon))
  | switch (span : Span) {init init' : Option Stmt} {tag tag' : Option Expr} (body body' : Block)
      (sameInit : init'.isSome = init.isSome) (sameTag : tag'.isSome = tag.isSome) :
      Resembles (.stmt (.switch span init tag body)) (.stmt (.switch span init' tag' body'))
  | typeSwitch (span : Span) {init init' : Option Stmt} (guard guard' : Stmt) (body body' : Block)
      (same : init'.isSome = init.isSome) :
      Resembles (.stmt (.typeSwitch span init guard body))
        (.stmt (.typeSwitch span init' guard' body'))
  | commClause (span : Span) {comm comm' : Option Stmt} {body body' : List Stmt} (colon : Pos)
      (sameComm : comm'.isSome = comm.isSome) (sameBody : body'.length = body.length) :
      Resembles (.stmt (.commClause span comm body colon))
        (.stmt (.commClause span comm' body' colon))
  | select (span : Span) (body body' : Block) :
      Resembles (.stmt (.select span body)) (.stmt (.select span body'))
  | loop (span : Span) {init init' : Option Stmt} {cond cond' : Option Expr}
      {post post' : Option Stmt} {body body' : Option Block}
      (sameInit : init'.isSome = init.isSome) (sameCond : cond'.isSome = cond.isSome)
      (samePost : post'.isSome = post.isSome) (sameBody : body'.isSome = body.isSome) :
      Resembles (.stmt (.loop span init cond post body))
        (.stmt (.loop span init' cond' post' body'))
  | range (span : Span) {key key' value value' : Option Expr} (tok : Option Token)
      (operand operand' : Expr) {body body' : Option Block} (tokPos : Pos)
      (sameKey : key'.isSome = key.isSome) (sameValue : value'.isSome = value.isSome)
      (sameBody : body'.isSome = body.isSome) :
      Resembles (.stmt (.range span key value tok operand body tokPos))
        (.stmt (.range span key' value' tok operand' body' tokPos))
  | importSpec (span : Span) {name name' : Option Ident} (path path' : BasicLit)
      (same : name'.isSome = name.isSome) :
      Resembles (.spec (.importSpec ⟨span, name, path⟩)) (.spec (.importSpec ⟨span, name', path'⟩))
  | valueSpec (span : Span) {names names' : List Ident} {type type' : Option Expr}
      {values values' : List Expr} (sameNames : names'.length = names.length)
      (sameType : type'.isSome = type.isSome) (sameValues : values'.length = values.length) :
      Resembles (.spec (.valueSpec span names type values))
        (.spec (.valueSpec span names' type' values'))
  | typeSpec (span : Span) (name name' : Ident) (type type' : Expr) (isAlias : Bool) :
      Resembles (.spec (.typeSpec span name type isAlias))
        (.spec (.typeSpec span name' type' isAlias))
  | genDecl (span : Span) (tok : Token) {specs specs' : List Spec} (grouped : Bool)
      (same : specs'.length = specs.length) :
      Resembles (.decl (.gen ⟨span, tok, specs, grouped⟩))
        (.decl (.gen ⟨span, tok, specs', grouped⟩))
  | funcDecl (span : Span) {recv recv' : Option FieldList} (name name' : Ident)
      (type type' : FuncType) {body body' : Option Block} (sameRecv : recv'.isSome = recv.isSome)
      (sameBody : body'.isSome = body.isSome) :
      Resembles (.decl (.func ⟨span, recv, name, type, body⟩))
        (.decl (.func ⟨span, recv', name', type', body'⟩))
  | file (span : Span) (name : String) (package package' : Ident) {decls decls' : List Decl}
      (comments : List Comment) (same : decls'.length = decls.length) :
      Resembles (.file ⟨span, name, package, decls, comments⟩)
        (.file ⟨span, name, package', decls', comments⟩)
  | comment (text : Comment) : Resembles (.comment text) (.comment text)

theorem Resembles.span_eq {node other : Node} (resembles : Resembles node other) :
    other.span = node.span := by
  cases resembles <;> rfl

theorem Resembles.sort_eq {node other : Node} (resembles : Resembles node other) :
    other.sort = node.sort := by
  cases resembles <;> rfl

theorem Resembles.symm {node other : Node} (resembles : Resembles node other) :
    Resembles other node := by
  cases resembles <;> constructor <;> exact Eq.symm ‹_›

/-- Refilling a node with the children of one that resembles it gives that one. -/
theorem Resembles.withChildren_children {node other : Node} (resembles : Resembles node other) :
    node.withChildren other.children = other := by
  cases resembles <;>
    simp [*, withChildren, refill, refillExpr, refillStmt, refillSpec, refillDecl, children,
      exprChildren, stmtChildren, specChildren, declChildren, Refill.bind_apply, Refill.map_apply,
      Refill.pure_apply, Slot.expr.take_wrap, Slot.ident.take_wrap, Slot.lit.take_wrap,
      Slot.funcType.take_wrap, Slot.fieldList.take_wrap, Slot.stmt.take_wrap,
      Slot.block.take_wrap, Slot.genDecl.take_wrap, Slot.expr.takeOption_wrap,
      Slot.expr.takeOption_wrap_last, Slot.ident.takeOption_wrap, Slot.ident.takeOption_wrap_last,
      Slot.lit.takeOption_wrap_last, Slot.fieldList.takeOption_wrap,
      Slot.fieldList.takeOption_wrap_last, Slot.stmt.takeOption_wrap,
      Slot.stmt.takeOption_wrap_last, Slot.block.takeOption_wrap_last, Slot.expr.takeList_wrap,
      Slot.expr.takeList_wrap_last, Slot.ident.takeList_wrap, Slot.field.takeList_wrap_last,
      Slot.stmt.takeList_wrap_last, Slot.spec.takeList_wrap_last, Slot.decl.takeList_wrap_last]

/-- Children of the sorts of the old ones can stand in their places. -/
theorem exists_resembles_expr (value : Expr) {nodes : List Node}
    (same : nodes.map sort = (exprChildren value).map sort) :
    ∃ other, Resembles (.expr value) other ∧ other.children = nodes := by
  cases value with
  | ident name =>
      obtain rfl : nodes = [] := by simpa [exprChildren] using same
      exact ⟨_, .ident name, rfl⟩
  | lit literal =>
      obtain rfl : nodes = [] := by simpa [exprChildren] using same
      exact ⟨_, .lit literal, rfl⟩
  | ellipsis span elem =>
      obtain ⟨elem', rfl, sameElem⟩ := Slot.expr.exists_toList same
      exact ⟨_, .ellipsis span sameElem, rfl⟩
  | funcLit span type body =>
      obtain ⟨type', rest, rfl, sameRest⟩ := Slot.funcType.exists_cons same
      obtain ⟨body', rfl⟩ := Slot.block.exists_singleton sameRest
      exact ⟨_, .funcLit span type type' body body', rfl⟩
  | composite span type elems =>
      obtain ⟨type', rest, rfl, sameType, sameRest⟩ := Slot.expr.exists_option same
      obtain ⟨elems', rfl, sameElems⟩ := Slot.expr.exists_map sameRest
      exact ⟨_, .composite span sameType sameElems, rfl⟩
  | paren span inner =>
      obtain ⟨inner', rfl⟩ := Slot.expr.exists_singleton same
      exact ⟨_, .paren span inner inner', rfl⟩
  | selector span operand sel =>
      obtain ⟨operand', rest, rfl, sameRest⟩ := Slot.expr.exists_cons same
      obtain ⟨sel', rfl⟩ := Slot.ident.exists_singleton sameRest
      exact ⟨_, .selector span operand operand' sel sel', rfl⟩
  | index span operand index =>
      obtain ⟨operand', rest, rfl, sameRest⟩ := Slot.expr.exists_cons same
      obtain ⟨index', rfl⟩ := Slot.expr.exists_singleton sameRest
      exact ⟨_, .index span operand operand' index index', rfl⟩
  | slice span operand low high max full =>
      obtain ⟨operand', rest, rfl, sameRest⟩ := Slot.expr.exists_cons same
      rw [List.append_assoc] at sameRest
      obtain ⟨low', rest, rfl, sameLow, sameThird⟩ := Slot.expr.exists_option sameRest
      obtain ⟨high', rest, rfl, sameHigh, sameFourth⟩ := Slot.expr.exists_option sameThird
      obtain ⟨max', rfl, sameMax⟩ := Slot.expr.exists_toList sameFourth
      refine ⟨_, .slice span operand operand' full sameLow sameHigh sameMax, ?_⟩
      simp [children, exprChildren]
  | typeAssert span operand type =>
      obtain ⟨operand', rest, rfl, sameRest⟩ := Slot.expr.exists_cons same
      obtain ⟨type', rfl, sameType⟩ := Slot.expr.exists_toList sameRest
      exact ⟨_, .typeAssert span operand operand' sameType, rfl⟩
  | call span callee args spread =>
      obtain ⟨callee', rest, rfl, sameRest⟩ := Slot.expr.exists_cons same
      obtain ⟨args', rfl, sameArgs⟩ := Slot.expr.exists_map sameRest
      exact ⟨_, .call span callee callee' spread sameArgs, rfl⟩
  | star span operand =>
      obtain ⟨operand', rfl⟩ := Slot.expr.exists_singleton same
      exact ⟨_, .star span operand operand', rfl⟩
  | unary span op operand =>
      obtain ⟨operand', rfl⟩ := Slot.expr.exists_singleton same
      exact ⟨_, .unary span op operand operand', rfl⟩
  | binary span left op right =>
      obtain ⟨left', rest, rfl, sameRest⟩ := Slot.expr.exists_cons same
      obtain ⟨right', rfl⟩ := Slot.expr.exists_singleton sameRest
      exact ⟨_, .binary span op left left' right right', rfl⟩
  | keyValue span key value =>
      obtain ⟨key', rest, rfl, sameRest⟩ := Slot.expr.exists_cons same
      obtain ⟨value', rfl⟩ := Slot.expr.exists_singleton sameRest
      exact ⟨_, .keyValue span key key' value value', rfl⟩
  | arrayType span length elem =>
      obtain ⟨length', rest, rfl, sameLength, sameRest⟩ := Slot.expr.exists_option same
      obtain ⟨elem', rfl⟩ := Slot.expr.exists_singleton sameRest
      exact ⟨_, .arrayType span elem elem' sameLength, rfl⟩
  | structType span fields =>
      obtain ⟨fields', rfl⟩ := Slot.fieldList.exists_singleton same
      exact ⟨_, .structType span fields fields', rfl⟩
  | funcType type =>
      obtain ⟨span, params, results⟩ := type
      obtain ⟨params', rest, rfl, sameRest⟩ := Slot.fieldList.exists_cons same
      obtain ⟨results', rfl, sameResults⟩ := Slot.fieldList.exists_toList sameRest
      exact ⟨_, .funcType span params params' sameResults, rfl⟩
  | interfaceType span methods =>
      obtain ⟨methods', rfl⟩ := Slot.fieldList.exists_singleton same
      exact ⟨_, .interfaceType span methods methods', rfl⟩
  | mapType span key value =>
      obtain ⟨key', rest, rfl, sameRest⟩ := Slot.expr.exists_cons same
      obtain ⟨value', rfl⟩ := Slot.expr.exists_singleton sameRest
      exact ⟨_, .mapType span key key' value value', rfl⟩
  | chanType span dir elem =>
      obtain ⟨elem', rfl⟩ := Slot.expr.exists_singleton same
      exact ⟨_, .chanType span dir elem elem', rfl⟩

/-- The same for a statement. -/
theorem exists_resembles_stmt (step : Stmt) {nodes : List Node}
    (same : nodes.map sort = (stmtChildren step).map sort) :
    ∃ other, Resembles (.stmt step) other ∧ other.children = nodes := by
  cases step with
  | decl span item =>
      obtain ⟨item', rfl⟩ := Slot.genDecl.exists_singleton same
      exact ⟨_, .declStmt span item item', rfl⟩
  | empty span =>
      obtain rfl : nodes = [] := by simpa [stmtChildren] using same
      exact ⟨_, .empty span, rfl⟩
  | labeled span label inner =>
      obtain ⟨label', rest, rfl, sameRest⟩ := Slot.ident.exists_cons same
      obtain ⟨inner', rfl⟩ := Slot.stmt.exists_singleton sameRest
      exact ⟨_, .labeled span label label' inner inner', rfl⟩
  | expr span value =>
      obtain ⟨value', rfl⟩ := Slot.expr.exists_singleton same
      exact ⟨_, .exprStmt span value value', rfl⟩
  | send span channel value =>
      obtain ⟨channel', rest, rfl, sameRest⟩ := Slot.expr.exists_cons same
      obtain ⟨value', rfl⟩ := Slot.expr.exists_singleton sameRest
      exact ⟨_, .send span channel channel' value value', rfl⟩
  | incDec span operand tok =>
      obtain ⟨operand', rfl⟩ := Slot.expr.exists_singleton same
      exact ⟨_, .incDec span operand operand' tok, rfl⟩
  | assign span lhs tok rhs tokPos =>
      obtain ⟨lhs', rest, rfl, sameLeft, sameRest⟩ := Slot.expr.exists_append same
      obtain ⟨rhs', rfl, sameRight⟩ := Slot.expr.exists_map sameRest
      exact ⟨_, .assign span tok tokPos sameLeft sameRight, rfl⟩
  | go span call =>
      obtain ⟨call', rfl⟩ := Slot.expr.exists_singleton same
      exact ⟨_, .go span call call', rfl⟩
  | defer span call =>
      obtain ⟨call', rfl⟩ := Slot.expr.exists_singleton same
      exact ⟨_, .defer span call call', rfl⟩
  | ret span results =>
      obtain ⟨results', rfl, sameResults⟩ := Slot.expr.exists_map same
      exact ⟨_, .ret span sameResults, rfl⟩
  | branch span tok label =>
      obtain ⟨label', rfl, sameLabel⟩ := Slot.ident.exists_toList same
      exact ⟨_, .branch span tok sameLabel, rfl⟩
  | block body =>
      obtain ⟨span, stmts⟩ := body
      obtain ⟨stmts', rfl, sameStmts⟩ := Slot.stmt.exists_map same
      exact ⟨_, .block span sameStmts, rfl⟩
  | ifElse span init cond body otherwise =>
      obtain ⟨init', rest, rfl, sameInit, sameRest⟩ := Slot.stmt.exists_option same
      obtain ⟨cond', rest, rfl, sameThird⟩ := Slot.expr.exists_cons sameRest
      obtain ⟨body', rest, rfl, sameFourth⟩ := Slot.block.exists_cons sameThird
      obtain ⟨otherwise', rfl, sameElse⟩ := Slot.stmt.exists_toList sameFourth
      exact ⟨_, .ifElse span cond cond' body body' sameInit sameElse, rfl⟩
  | caseClause span exprs body colon =>
      cases exprs with
      | none =>
          obtain ⟨body', rfl, sameBody⟩ := Slot.stmt.exists_map same
          exact ⟨_, .defaultClause span colon sameBody, rfl⟩
      | some exprs =>
          obtain ⟨exprs', rest, rfl, sameExprs, sameRest⟩ := Slot.expr.exists_append same
          obtain ⟨body', rfl, sameBody⟩ := Slot.stmt.exists_map sameRest
          exact ⟨_, .caseClause span colon sameExprs sameBody, rfl⟩
  | switch span init tag body =>
      obtain ⟨init', rest, rfl, sameInit, sameRest⟩ := Slot.stmt.exists_option same
      obtain ⟨tag', rest, rfl, sameTag, sameThird⟩ := Slot.expr.exists_option sameRest
      obtain ⟨body', rfl⟩ := Slot.block.exists_singleton sameThird
      exact ⟨_, .switch span body body' sameInit sameTag, rfl⟩
  | typeSwitch span init guard body =>
      obtain ⟨init', rest, rfl, sameInit, sameRest⟩ := Slot.stmt.exists_option same
      obtain ⟨guard', rest, rfl, sameThird⟩ := Slot.stmt.exists_cons sameRest
      obtain ⟨body', rfl⟩ := Slot.block.exists_singleton sameThird
      exact ⟨_, .typeSwitch span guard guard' body body' sameInit, rfl⟩
  | commClause span comm body colon =>
      obtain ⟨comm', rest, rfl, sameComm, sameRest⟩ := Slot.stmt.exists_option same
      obtain ⟨body', rfl, sameBody⟩ := Slot.stmt.exists_map sameRest
      exact ⟨_, .commClause span colon sameComm sameBody, rfl⟩
  | select span body =>
      obtain ⟨body', rfl⟩ := Slot.block.exists_singleton same
      exact ⟨_, .select span body body', rfl⟩
  | loop span init cond post body =>
      obtain ⟨init', rest, rfl, sameInit, sameRest⟩ := Slot.stmt.exists_option same
      obtain ⟨cond', rest, rfl, sameCond, sameThird⟩ := Slot.expr.exists_option sameRest
      obtain ⟨post', rest, rfl, samePost, sameFourth⟩ := Slot.stmt.exists_option sameThird
      obtain ⟨body', rfl, sameBody⟩ := Slot.block.exists_toList sameFourth
      exact ⟨_, .loop span sameInit sameCond samePost sameBody, rfl⟩
  | range span key value tok operand body tokPos =>
      obtain ⟨key', rest, rfl, sameKey, sameRest⟩ := Slot.expr.exists_option same
      obtain ⟨value', rest, rfl, sameValue, sameThird⟩ := Slot.expr.exists_option sameRest
      obtain ⟨operand', rest, rfl, sameFourth⟩ := Slot.expr.exists_cons sameThird
      obtain ⟨body', rfl, sameBody⟩ := Slot.block.exists_toList sameFourth
      exact ⟨_, .range span tok operand operand' tokPos sameKey sameValue sameBody, rfl⟩

/-- Children of the sorts of the old ones can stand in their places: there is a node that
resembles the old one and has these children. -/
theorem exists_resembles (node : Node) {nodes : List Node}
    (same : nodes.map sort = node.children.map sort) :
    ∃ other, Resembles node other ∧ other.children = nodes := by
  cases node with
  | expr value => exact exists_resembles_expr value same
  | field item =>
      obtain ⟨span, names, type, tag⟩ := item
      obtain ⟨names', rest, rfl, sameNames, sameRest⟩ := Slot.ident.exists_append same
      obtain ⟨type', rest, rfl, sameThird⟩ := Slot.expr.exists_cons sameRest
      obtain ⟨tag', rfl, sameTag⟩ := Slot.lit.exists_toList sameThird
      exact ⟨_, .field span type type' sameNames sameTag, rfl⟩
  | fieldList list =>
      obtain ⟨span, fields⟩ := list
      obtain ⟨fields', rfl, sameFields⟩ := Slot.field.exists_map same
      exact ⟨_, .fieldList span sameFields, rfl⟩
  | stmt step => exact exists_resembles_stmt step same
  | spec item =>
      cases item with
      | importSpec item =>
          obtain ⟨name', rest, rfl, sameName, sameRest⟩ := Slot.ident.exists_option same
          obtain ⟨path', rfl⟩ := Slot.lit.exists_singleton sameRest
          exact ⟨_, .importSpec item.span item.path path' sameName, rfl⟩
      | valueSpec span names type values =>
          obtain ⟨names', rest, rfl, sameNames, sameRest⟩ := Slot.ident.exists_append same
          obtain ⟨type', rest, rfl, sameType, sameThird⟩ := Slot.expr.exists_option sameRest
          obtain ⟨values', rfl, sameValues⟩ := Slot.expr.exists_map sameThird
          exact ⟨_, .valueSpec span sameNames sameType sameValues, rfl⟩
      | typeSpec span name type isAlias =>
          obtain ⟨name', rest, rfl, sameRest⟩ := Slot.ident.exists_cons same
          obtain ⟨type', rfl⟩ := Slot.expr.exists_singleton sameRest
          exact ⟨_, .typeSpec span name name' type type' isAlias, rfl⟩
  | decl item =>
      cases item with
      | gen item =>
          obtain ⟨span, tok, specs, grouped⟩ := item
          obtain ⟨specs', rfl, sameSpecs⟩ := Slot.spec.exists_map same
          exact ⟨_, .genDecl span tok grouped sameSpecs, rfl⟩
      | func item =>
          obtain ⟨recv', rest, rfl, sameRecv, sameRest⟩ := Slot.fieldList.exists_option same
          obtain ⟨name', rest, rfl, sameThird⟩ := Slot.ident.exists_cons sameRest
          obtain ⟨type', rest, rfl, sameFourth⟩ := Slot.funcType.exists_cons sameThird
          obtain ⟨body', rfl, sameBody⟩ := Slot.block.exists_toList sameFourth
          exact ⟨_, .funcDecl item.span item.name name' item.type type' sameRecv sameBody, rfl⟩
  | file source =>
      obtain ⟨package', rest, rfl, sameRest⟩ := Slot.ident.exists_cons same
      obtain ⟨decls', rfl, sameDecls⟩ := Slot.decl.exists_map sameRest
      exact
        ⟨_, .file source.span source.name source.package package' source.comments sameDecls, rfl⟩
  | comment text =>
      obtain rfl : nodes = [] := by simpa [children] using same
      exact ⟨_, .comment text, rfl⟩

/-- A node refilled with children of the sorts of its own has these children, and resembles the
old node. -/
theorem withChildren_resembles {node : Node} {nodes : List Node}
    (same : nodes.map sort = node.children.map sort) :
    Resembles node (node.withChildren nodes) ∧ (node.withChildren nodes).children = nodes := by
  obtain ⟨other, resembles, rfl⟩ := exists_resembles node same
  rw [resembles.withChildren_children]
  exact ⟨resembles, rfl⟩

theorem exists_file_of_sort {node : Node} {file : File} (same : node.sort = (Node.file file).sort) :
    ∃ source, node = .file source := by
  cases node with
  | file source => exact ⟨source, rfl⟩
  | expr value => cases value <;> cases same
  | stmt step => cases step <;> cases same
  | decl item => cases item <;> cases same
  | _ => cases same

end Node

end GoMend
