import GoMend.Proofs.Tree.Trail

/-!
# Trees at other positions

A tree with all of its positions replaced is the tree of the same text at another place.  Whatever is
done to a tree without looking at its positions is done in the same way to the other one.
-/

namespace GoMend

variable (place : Pos → Pos)

/-- A range at another place. -/
def Span.relocated (span : Span) : Span :=
  ⟨place span.start, place span.stop⟩

/-- A name at another place. -/
def Ident.relocated (name : Ident) : Ident :=
  ⟨name.span.relocated place, name.name⟩

/-- A literal at another place. -/
def BasicLit.relocated (literal : BasicLit) : BasicLit :=
  ⟨literal.span.relocated place, literal.kind, literal.value⟩

/-- An import at another place. -/
def ImportSpec.relocated (spec : ImportSpec) : ImportSpec :=
  ⟨spec.span.relocated place, spec.name.map (Ident.relocated place), spec.path.relocated place⟩

/-- A comment at another place. -/
def Comment.relocated (comment : Comment) : Comment :=
  ⟨comment.text, comment.span.relocated place⟩

mutual

/-- An expression at other positions. -/
def Expr.relocated : Expr → Expr
  | .ident name => .ident (name.relocated place)
  | .lit literal => .lit (literal.relocated place)
  | .ellipsis span elem => .ellipsis (span.relocated place) (Expr.relocatedOption elem)
  | .funcLit span type body => .funcLit (span.relocated place) type.relocated body.relocated
  | .composite span type elems =>
      .composite (span.relocated place) (Expr.relocatedOption type) (Expr.relocatedAll elems)
  | .paren span inner => .paren (span.relocated place) inner.relocated
  | .selector span operand sel =>
      .selector (span.relocated place) operand.relocated (sel.relocated place)
  | .index span operand index =>
      .index (span.relocated place) operand.relocated index.relocated
  | .slice span operand low high max full =>
      .slice (span.relocated place) operand.relocated (Expr.relocatedOption low)
        (Expr.relocatedOption high) (Expr.relocatedOption max) full
  | .typeAssert span operand type =>
      .typeAssert (span.relocated place) operand.relocated (Expr.relocatedOption type)
  | .call span callee args spread =>
      .call (span.relocated place) callee.relocated (Expr.relocatedAll args) spread
  | .star span operand => .star (span.relocated place) operand.relocated
  | .unary span op operand => .unary (span.relocated place) op operand.relocated
  | .binary span left op right =>
      .binary (span.relocated place) left.relocated op right.relocated
  | .keyValue span key value =>
      .keyValue (span.relocated place) key.relocated value.relocated
  | .arrayType span length elem =>
      .arrayType (span.relocated place) (Expr.relocatedOption length) elem.relocated
  | .structType span fields => .structType (span.relocated place) fields.relocated
  | .funcType type => .funcType type.relocated
  | .interfaceType span methods => .interfaceType (span.relocated place) methods.relocated
  | .mapType span key value => .mapType (span.relocated place) key.relocated value.relocated
  | .chanType span dir elem => .chanType (span.relocated place) dir elem.relocated
termination_by structural value => value

/-- An expression that may be missing. -/
def Expr.relocatedOption : Option Expr → Option Expr
  | none => none
  | some value => some value.relocated
termination_by structural value => value

/-- Expressions one after the other. -/
def Expr.relocatedAll : List Expr → List Expr
  | [] => []
  | value :: rest => value.relocated :: Expr.relocatedAll rest
termination_by structural values => values

/-- A signature at other positions. -/
def FuncType.relocated : FuncType → FuncType
  | ⟨span, params, results⟩ =>
      ⟨span.relocated place, params.relocated,
        match results with
        | none => none
        | some results => some results.relocated⟩
termination_by structural type => type

/-- A field at other positions. -/
def Field.relocated : Field → Field
  | ⟨span, names, type, tag⟩ =>
      ⟨span.relocated place, names.map (Ident.relocated place), type.relocated,
        tag.map (BasicLit.relocated place)⟩
termination_by structural item => item

/-- Fields one after the other. -/
def Field.relocatedAll : List Field → List Field
  | [] => []
  | item :: rest => item.relocated :: Field.relocatedAll rest
termination_by structural items => items

/-- A list of fields at other positions. -/
def FieldList.relocated : FieldList → FieldList
  | ⟨span, fields⟩ => ⟨span.relocated place, Field.relocatedAll fields⟩
termination_by structural list => list

/-- A statement at other positions. -/
def Stmt.relocated : Stmt → Stmt
  | .decl span item => .decl (span.relocated place) item.relocated
  | .empty span => .empty (span.relocated place)
  | .labeled span label inner =>
      .labeled (span.relocated place) (label.relocated place) inner.relocated
  | .expr span value => .expr (span.relocated place) value.relocated
  | .send span channel value =>
      .send (span.relocated place) channel.relocated value.relocated
  | .incDec span operand tok => .incDec (span.relocated place) operand.relocated tok
  | .assign span lhs tok rhs tokPos =>
      .assign (span.relocated place) (Expr.relocatedAll lhs) tok (Expr.relocatedAll rhs) (place tokPos)
  | .go span call => .go (span.relocated place) call.relocated
  | .defer span call => .defer (span.relocated place) call.relocated
  | .ret span results => .ret (span.relocated place) (Expr.relocatedAll results)
  | .branch span tok label => .branch (span.relocated place) tok (label.map (Ident.relocated place))
  | .block body => .block body.relocated
  | .ifElse span init cond body otherwise =>
      .ifElse (span.relocated place) (Stmt.relocatedOption init) cond.relocated body.relocated
        (Stmt.relocatedOption otherwise)
  | .caseClause span exprs body colon =>
      .caseClause (span.relocated place)
        (match exprs with
        | none => none
        | some values => some (Expr.relocatedAll values))
        (Stmt.relocatedAll body) (place colon)
  | .switch span init tag body =>
      .switch (span.relocated place) (Stmt.relocatedOption init) (Expr.relocatedOption tag)
        body.relocated
  | .typeSwitch span init guard body =>
      .typeSwitch (span.relocated place) (Stmt.relocatedOption init) guard.relocated
        body.relocated
  | .commClause span comm body colon =>
      .commClause (span.relocated place) (Stmt.relocatedOption comm) (Stmt.relocatedAll body)
        (place colon)
  | .select span body => .select (span.relocated place) body.relocated
  | .loop span init cond post body =>
      .loop (span.relocated place) (Stmt.relocatedOption init) (Expr.relocatedOption cond)
        (Stmt.relocatedOption post) (Block.relocatedOption body)
  | .range span key value tok operand body tokPos =>
      .range (span.relocated place) (Expr.relocatedOption key) (Expr.relocatedOption value) tok
        operand.relocated (Block.relocatedOption body) (place tokPos)
termination_by structural step => step

/-- A statement that may be missing. -/
def Stmt.relocatedOption : Option Stmt → Option Stmt
  | none => none
  | some step => some step.relocated
termination_by structural step => step

/-- Statements one after the other. -/
def Stmt.relocatedAll : List Stmt → List Stmt
  | [] => []
  | step :: rest => step.relocated :: Stmt.relocatedAll rest
termination_by structural steps => steps

/-- A block at other positions. -/
def Block.relocated : Block → Block
  | ⟨span, stmts⟩ => ⟨span.relocated place, Stmt.relocatedAll stmts⟩
termination_by structural body => body

/-- A block that may be missing. -/
def Block.relocatedOption : Option Block → Option Block
  | none => none
  | some body => some body.relocated
termination_by structural body => body

/-- An item of a declaration at other positions. -/
def Spec.relocated : Spec → Spec
  | .importSpec item => .importSpec (item.relocated place)
  | .valueSpec span names type values =>
      .valueSpec (span.relocated place) (names.map (Ident.relocated place)) (Expr.relocatedOption type)
        (Expr.relocatedAll values)
  | .typeSpec span name type isAlias =>
      .typeSpec (span.relocated place) (name.relocated place) type.relocated isAlias
termination_by structural item => item

/-- Items one after the other. -/
def Spec.relocatedAll : List Spec → List Spec
  | [] => []
  | item :: rest => item.relocated :: Spec.relocatedAll rest
termination_by structural items => items

/-- A declaration of items at other positions. -/
def GenDecl.relocated : GenDecl → GenDecl
  | ⟨span, tok, specs, grouped⟩ =>
      ⟨span.relocated place, tok, Spec.relocatedAll specs, grouped⟩
termination_by structural item => item

end

/-- A function at another place. -/
def FuncDecl.relocated (decl : FuncDecl) : FuncDecl where
  span := decl.span.relocated place
  recv := decl.recv.map (FieldList.relocated place)
  name := decl.name.relocated place
  type := decl.type.relocated place
  body := decl.body.map (Block.relocated place)

/-- A declaration at another place. -/
def Decl.relocated : Decl → Decl
  | .gen decl => .gen (decl.relocated place)
  | .func decl => .func (decl.relocated place)

/-- A file at another place.  Its range ends one position behind the last one that can stand in it,
which is what follows that position wherever it goes. -/
def File.relocated (file : File) : File where
  span := ⟨place file.span.start, place (file.span.stop - 1) + 1⟩
  name := file.name
  package := file.package.relocated place
  decls := file.decls.map (Decl.relocated place)
  comments := file.comments.map (Comment.relocated place)

/-- A node at another place. -/
def Node.relocated : Node → Node
  | .expr value => .expr (value.relocated place)
  | .field item => .field (item.relocated place)
  | .fieldList list => .fieldList (list.relocated place)
  | .stmt step => .stmt (step.relocated place)
  | .spec item => .spec (item.relocated place)
  | .decl item => .decl (item.relocated place)
  | .file source => .file (source.relocated place)
  | .comment text => .comment (text.relocated place)

/-! ### Lists and parts that may be missing -/

@[simp]
theorem Expr.relocatedAll_eq (values : List Expr) :
    Expr.relocatedAll place values = values.map (Expr.relocated place) := by
  induction values with
  | nil => rfl
  | cons value values ih => rw [Expr.relocatedAll, ih, List.map_cons]

@[simp]
theorem Expr.relocatedOption_eq (value : Option Expr) :
    Expr.relocatedOption place value = value.map (Expr.relocated place) := by
  cases value <;> rfl

@[simp]
theorem Field.relocatedAll_eq (items : List Field) :
    Field.relocatedAll place items = items.map (Field.relocated place) := by
  induction items with
  | nil => rfl
  | cons item items ih => rw [Field.relocatedAll, ih, List.map_cons]

@[simp]
theorem Stmt.relocatedAll_eq (steps : List Stmt) :
    Stmt.relocatedAll place steps = steps.map (Stmt.relocated place) := by
  induction steps with
  | nil => rfl
  | cons step steps ih => rw [Stmt.relocatedAll, ih, List.map_cons]

@[simp]
theorem Stmt.relocatedOption_eq (step : Option Stmt) :
    Stmt.relocatedOption place step = step.map (Stmt.relocated place) := by
  cases step <;> rfl

@[simp]
theorem Block.relocatedOption_eq (body : Option Block) :
    Block.relocatedOption place body = body.map (Block.relocated place) := by
  cases body <;> rfl

@[simp]
theorem Spec.relocatedAll_eq (items : List Spec) :
    Spec.relocatedAll place items = items.map (Spec.relocated place) := by
  induction items with
  | nil => rfl
  | cons item items ih => rw [Spec.relocatedAll, ih, List.map_cons]

attribute [simp] Expr.relocated FuncType.relocated Field.relocated FieldList.relocated
  Stmt.relocated Block.relocated Spec.relocated GenDecl.relocated

@[simp]
theorem Decl.relocated_gen (item : GenDecl) :
    (Decl.gen item).relocated place = .gen (item.relocated place) :=
  rfl

@[simp]
theorem Decl.relocated_func (item : FuncDecl) :
    (Decl.func item).relocated place = .func (item.relocated place) :=
  rfl

namespace Node

@[simp]
theorem relocated_expr (value : Expr) :
    (expr value).relocated place = .expr (value.relocated place) :=
  rfl

@[simp]
theorem relocated_field (item : Field) :
    (field item).relocated place = .field (item.relocated place) :=
  rfl

@[simp]
theorem relocated_fieldList (list : FieldList) :
    (fieldList list).relocated place = .fieldList (list.relocated place) :=
  rfl

@[simp]
theorem relocated_stmt (step : Stmt) :
    (stmt step).relocated place = .stmt (step.relocated place) :=
  rfl

@[simp]
theorem relocated_spec (item : Spec) :
    (spec item).relocated place = .spec (item.relocated place) :=
  rfl

@[simp]
theorem relocated_decl (item : Decl) :
    (decl item).relocated place = .decl (item.relocated place) :=
  rfl

@[simp]
theorem relocated_file (source : File) :
    (file source).relocated place = .file (source.relocated place) :=
  rfl

@[simp]
theorem relocated_comment (text : Comment) :
    (comment text).relocated place = .comment (text.relocated place) :=
  rfl

@[simp]
theorem relocated_ident (name : Ident) :
    (ident name).relocated place = ident (name.relocated place) :=
  rfl

@[simp]
theorem relocated_lit (literal : BasicLit) :
    (lit literal).relocated place = lit (literal.relocated place) :=
  rfl

@[simp]
theorem relocated_block (body : Block) :
    (block body).relocated place = block (body.relocated place) :=
  rfl

end Node

/-! ### Parts of relocated trees -/

@[simp]
theorem Span.start_relocated (span : Span) : (span.relocated place).start = place span.start :=
  rfl

@[simp]
theorem Span.stop_relocated (span : Span) : (span.relocated place).stop = place span.stop :=
  rfl

@[simp]
theorem Ident.span_relocated (name : Ident) :
    (name.relocated place).span = name.span.relocated place :=
  rfl

@[simp]
theorem Ident.name_relocated (name : Ident) : (name.relocated place).name = name.name :=
  rfl

@[simp]
theorem Ident.isBlank_relocated (name : Ident) : (name.relocated place).isBlank = name.isBlank :=
  rfl

@[simp]
theorem BasicLit.span_relocated (literal : BasicLit) :
    (literal.relocated place).span = literal.span.relocated place :=
  rfl

@[simp]
theorem BasicLit.value_relocated (literal : BasicLit) :
    (literal.relocated place).value = literal.value :=
  rfl

@[simp]
theorem ImportSpec.span_relocated (spec : ImportSpec) :
    (spec.relocated place).span = spec.span.relocated place :=
  rfl

@[simp]
theorem ImportSpec.name_relocated (spec : ImportSpec) :
    (spec.relocated place).name = spec.name.map (Ident.relocated place) :=
  rfl

@[simp]
theorem ImportSpec.path_relocated (spec : ImportSpec) :
    (spec.relocated place).path = spec.path.relocated place :=
  rfl

@[simp]
theorem Comment.text_relocated (comment : Comment) : (comment.relocated place).text = comment.text :=
  rfl

@[simp]
theorem Comment.span_relocated (comment : Comment) :
    (comment.relocated place).span = comment.span.relocated place :=
  rfl

@[simp]
theorem FuncType.span_relocated (type : FuncType) :
    (type.relocated place).span = type.span.relocated place := by
  cases type; rfl

@[simp]
theorem FuncType.params_relocated (type : FuncType) :
    (type.relocated place).params = type.params.relocated place := by
  cases type; rfl

@[simp]
theorem FuncType.results_relocated (type : FuncType) :
    (type.relocated place).results = type.results.map (FieldList.relocated place) := by
  obtain ⟨span, params, results⟩ := type
  cases results <;> rfl

@[simp]
theorem Field.span_relocated (item : Field) :
    (item.relocated place).span = item.span.relocated place := by
  cases item; rfl

@[simp]
theorem Field.names_relocated (item : Field) :
    (item.relocated place).names = item.names.map (Ident.relocated place) := by
  cases item; rfl

@[simp]
theorem Field.type_relocated (item : Field) :
    (item.relocated place).type = item.type.relocated place := by
  cases item; rfl

@[simp]
theorem Field.tag_relocated (item : Field) :
    (item.relocated place).tag = item.tag.map (BasicLit.relocated place) := by
  cases item; rfl

@[simp]
theorem FieldList.span_relocated (list : FieldList) :
    (list.relocated place).span = list.span.relocated place := by
  cases list; rfl

@[simp]
theorem FieldList.fields_relocated (list : FieldList) :
    (list.relocated place).fields = list.fields.map (Field.relocated place) := by
  cases list
  simp

@[simp]
theorem Block.span_relocated (body : Block) :
    (body.relocated place).span = body.span.relocated place := by
  cases body; rfl

@[simp]
theorem Block.stmts_relocated (body : Block) :
    (body.relocated place).stmts = body.stmts.map (Stmt.relocated place) := by
  cases body
  simp

@[simp]
theorem GenDecl.span_relocated (item : GenDecl) :
    (item.relocated place).span = item.span.relocated place := by
  cases item; rfl

@[simp]
theorem GenDecl.tok_relocated (item : GenDecl) : (item.relocated place).tok = item.tok := by
  cases item; rfl

@[simp]
theorem GenDecl.specs_relocated (item : GenDecl) :
    (item.relocated place).specs = item.specs.map (Spec.relocated place) := by
  cases item
  simp

@[simp]
theorem Expr.span_relocated (value : Expr) :
    (value.relocated place).span = value.span.relocated place := by
  cases value <;> simp [Expr.span]

@[simp]
theorem Stmt.span_relocated (step : Stmt) :
    (step.relocated place).span = step.span.relocated place := by
  cases step <;> simp [Stmt.span]

@[simp]
theorem Spec.span_relocated (item : Spec) :
    (item.relocated place).span = item.span.relocated place := by
  cases item <;> simp [Spec.span]

@[simp]
theorem Decl.span_relocated (item : Decl) :
    (item.relocated place).span = item.span.relocated place := by
  cases item <;> simp [Decl.span, FuncDecl.relocated]

@[simp]
theorem Stmt.kind_relocated (step : Stmt) : (step.relocated place).kind = step.kind := by
  cases step <;> rfl

namespace Node

variable (node : Node)

@[simp]
theorem kind_relocated : (node.relocated place).kind = node.kind := by
  cases node with
  | expr value => cases value <;> rfl
  | stmt step => cases step <;> rfl
  | spec item => cases item <;> rfl
  | decl item => cases item <;> rfl
  | _ => rfl

@[simp]
theorem exprChildren_relocated (value : Expr) :
    exprChildren (value.relocated place) = (exprChildren value).map (relocated place) := by
  cases value <;> simp [exprChildren, Function.comp_def, Option.toList_map]

@[simp]
theorem stmtChildren_relocated (step : Stmt) :
    stmtChildren (step.relocated place) = (stmtChildren step).map (relocated place) := by
  cases step with
  | caseClause span exprs body colon =>
      cases exprs <;> simp [stmtChildren, Function.comp_def]
  | _ => simp [stmtChildren, Function.comp_def, Option.toList_map]

@[simp]
theorem specChildren_relocated (item : Spec) :
    specChildren (item.relocated place) = (specChildren item).map (relocated place) := by
  cases item <;> simp [specChildren, Function.comp_def, Option.toList_map]

@[simp]
theorem declChildren_relocated (item : Decl) :
    declChildren (item.relocated place) = (declChildren item).map (relocated place) := by
  cases item <;>
    simp [declChildren, Function.comp_def, Option.toList_map, FuncDecl.relocated]

@[simp]
theorem children_relocated :
    (node.relocated place).children = node.children.map (relocated place) := by
  cases node <;> simp [children, Function.comp_def, Option.toList_map, File.relocated]

/-! ### Changes of relocated trees -/

variable {place node}

theorem Resembles.relocated {other : Node} (resembles : Resembles node other) (place : Pos → Pos) :
    Resembles (node.relocated place) (other.relocated place) := by
  cases resembles
  case funcType results results' same =>
    cases results <;> cases results' <;> first | exact .funcType _ _ _ rfl | cases same
  all_goals
    constructor
    all_goals simp [*]

/-- Other children of the same sorts are put into a relocated node in the same way. -/
theorem withChildren_relocated {nodes : List Node} (same : nodes.map sort = node.children.map sort) :
    (node.relocated place).withChildren (nodes.map (Node.relocated place)) =
      (node.withChildren nodes).relocated place := by
  obtain ⟨other, resembles, rfl⟩ := exists_resembles node same
  rw [resembles.withChildren_children, ← children_relocated,
    (resembles.relocated place).withChildren_children]

theorem get?_relocated (address : Address) :
    (node.relocated place).get? address = (node.get? address).map (Node.relocated place) := by
  induction address generalizing node with
  | nil => rfl
  | cons index address ih =>
      simp only [get?, children_relocated, List.getElem?_map]
      cases node.children[index]? with
      | none => rfl
      | some child => exact ih

/-- A change to a node of the same sort keeps the sort of the whole. -/
theorem sort_modify {change : Node → Node} {address : Address}
    (same : ∀ inner, node.get? address = some inner → (change inner).sort = inner.sort) :
    (node.modify change address).sort = node.sort := by
  induction address generalizing node with
  | nil => exact same node rfl
  | cons index address ih =>
      refine (withChildren_resembles (map_sort_modify fun child isChild => ?_)).1.sort_eq
      exact ih fun inner found => same inner (by simp [get?, isChild, found])

/-- The same change of the nodes at one address. -/
theorem modify_relocated {change change' : Node → Node} {address : Address}
    (same : ∀ inner, node.get? address = some inner → (change inner).sort = inner.sort ∧
      change' (inner.relocated place) = (change inner).relocated place) :
    (node.relocated place).modify change' address = (node.modify change address).relocated place := by
  induction address generalizing node with
  | nil => exact (same node rfl).2
  | cons index address ih =>
      simp only [get?] at same
      simp only [modify, children_relocated]
      have changed : (node.children.map (Node.relocated place)).modify index
          (modify change' address) =
            (node.children.modify index (modify change address)).map (Node.relocated place) := by
        refine List.ext_getElem? fun other => ?_
        simp only [List.getElem?_map, List.getElem?_modify]
        by_cases isIndex : index = other
        · subst isIndex
          cases isChild : node.children[index]? with
          | none => simp
          | some child =>
              simp only [Option.map_some, if_true]
              exact congrArg some (@ih child fun inner found => same inner (by simp [isChild, found]))
        · simp [isIndex]
      rw [changed]
      refine withChildren_relocated (map_sort_modify fun child isChild => ?_)
      refine sort_modify fun inner found => ?_
      exact (same inner (by simp [isChild, found])).1

end Node

/-! ### Positions that stay where they are -/

theorem Span.relocated_id (span : Span) : span.relocated id = span :=
  rfl

theorem Ident.relocated_id (name : Ident) : name.relocated id = name :=
  rfl

theorem BasicLit.relocated_id (literal : BasicLit) : literal.relocated id = literal :=
  rfl

theorem Ident.map_relocated_id (names : List Ident) : names.map (Ident.relocated id) = names :=
  List.map_id names

theorem ImportSpec.relocated_id (spec : ImportSpec) : spec.relocated id = spec := by
  obtain ⟨span, name, path⟩ := spec
  cases name <;> rfl

mutual

theorem Expr.relocated_id (value : Expr) : value.relocated id = value := by
  match value with
  | .ident _ => rfl
  | .lit _ => rfl
  | .ellipsis span elem => rw [Expr.relocated, Expr.relocatedOption_id elem, Span.relocated_id]
  | .funcLit span type body =>
      rw [Expr.relocated, type.relocated_id, body.relocated_id, Span.relocated_id]
  | .composite span type elems =>
      rw [Expr.relocated, Expr.relocatedOption_id type, Expr.relocatedAll_id elems, Span.relocated_id]
  | .paren span inner => rw [Expr.relocated, Expr.relocated_id inner, Span.relocated_id]
  | .selector span operand sel =>
      rw [Expr.relocated, Expr.relocated_id operand, Ident.relocated_id, Span.relocated_id]
  | .index span operand index =>
      rw [Expr.relocated, Expr.relocated_id operand, Expr.relocated_id index, Span.relocated_id]
  | .slice span operand low high max full =>
      rw [Expr.relocated, Expr.relocated_id operand, Expr.relocatedOption_id low, Expr.relocatedOption_id high,
        Expr.relocatedOption_id max, Span.relocated_id]
  | .typeAssert span operand type =>
      rw [Expr.relocated, Expr.relocated_id operand, Expr.relocatedOption_id type, Span.relocated_id]
  | .call span callee args spread =>
      rw [Expr.relocated, Expr.relocated_id callee, Expr.relocatedAll_id args, Span.relocated_id]
  | .star span operand => rw [Expr.relocated, Expr.relocated_id operand, Span.relocated_id]
  | .unary span op operand => rw [Expr.relocated, Expr.relocated_id operand, Span.relocated_id]
  | .binary span left op right =>
      rw [Expr.relocated, Expr.relocated_id left, Expr.relocated_id right, Span.relocated_id]
  | .keyValue span key value =>
      rw [Expr.relocated, Expr.relocated_id key, Expr.relocated_id value, Span.relocated_id]
  | .arrayType span length elem =>
      rw [Expr.relocated, Expr.relocatedOption_id length, Expr.relocated_id elem, Span.relocated_id]
  | .structType span fields => rw [Expr.relocated, fields.relocated_id, Span.relocated_id]
  | .funcType type => rw [Expr.relocated, type.relocated_id]
  | .interfaceType span methods => rw [Expr.relocated, methods.relocated_id, Span.relocated_id]
  | .mapType span key value =>
      rw [Expr.relocated, Expr.relocated_id key, Expr.relocated_id value, Span.relocated_id]
  | .chanType span dir elem => rw [Expr.relocated, Expr.relocated_id elem, Span.relocated_id]
termination_by structural value

theorem Expr.relocatedOption_id (value : Option Expr) : Expr.relocatedOption id value = value := by
  match value with
  | none => rfl
  | some value => rw [Expr.relocatedOption, Expr.relocated_id value]
termination_by structural value

theorem Expr.relocatedAll_id (values : List Expr) : Expr.relocatedAll id values = values := by
  match values with
  | [] => rfl
  | value :: rest => rw [Expr.relocatedAll, Expr.relocated_id value, Expr.relocatedAll_id rest]
termination_by structural values

theorem FuncType.relocated_id (type : FuncType) : type.relocated id = type := by
  match type with
  | ⟨span, params, none⟩ => rw [FuncType.relocated, params.relocated_id, Span.relocated_id]
  | ⟨span, params, some results⟩ =>
      rw [FuncType.relocated, params.relocated_id, results.relocated_id, Span.relocated_id]
termination_by structural type

theorem Field.relocated_id (item : Field) : item.relocated id = item := by
  match item with
  | ⟨span, names, type, none⟩ =>
      rw [Field.relocated, type.relocated_id, Ident.map_relocated_id, Span.relocated_id]
      rfl
  | ⟨span, names, type, some tag⟩ =>
      rw [Field.relocated, type.relocated_id, Ident.map_relocated_id, Span.relocated_id]
      rfl
termination_by structural item

theorem Field.relocatedAll_id (items : List Field) : Field.relocatedAll id items = items := by
  match items with
  | [] => rfl
  | item :: rest => rw [Field.relocatedAll, Field.relocated_id item, Field.relocatedAll_id rest]
termination_by structural items

theorem FieldList.relocated_id (list : FieldList) : list.relocated id = list := by
  match list with
  | ⟨span, fields⟩ => rw [FieldList.relocated, Field.relocatedAll_id fields, Span.relocated_id]
termination_by structural list

theorem Stmt.relocated_id (step : Stmt) : step.relocated id = step := by
  match step with
  | .decl span item => rw [Stmt.relocated, item.relocated_id, Span.relocated_id]
  | .empty span => rw [Stmt.relocated, Span.relocated_id]
  | .labeled span label inner =>
      rw [Stmt.relocated, Stmt.relocated_id inner, Ident.relocated_id, Span.relocated_id]
  | .expr span value => rw [Stmt.relocated, value.relocated_id, Span.relocated_id]
  | .send span channel value =>
      rw [Stmt.relocated, channel.relocated_id, value.relocated_id, Span.relocated_id]
  | .incDec span operand tok => rw [Stmt.relocated, operand.relocated_id, Span.relocated_id]
  | .assign span lhs tok rhs tokPos =>
      rw [Stmt.relocated, Expr.relocatedAll_id lhs, Expr.relocatedAll_id rhs, Span.relocated_id, id]
  | .go span call => rw [Stmt.relocated, call.relocated_id, Span.relocated_id]
  | .defer span call => rw [Stmt.relocated, call.relocated_id, Span.relocated_id]
  | .ret span results => rw [Stmt.relocated, Expr.relocatedAll_id results, Span.relocated_id]
  | .branch span tok none => rfl
  | .branch span tok (some label) => rfl
  | .block body => rw [Stmt.relocated, body.relocated_id]
  | .ifElse span init cond body otherwise =>
      rw [Stmt.relocated, Stmt.relocatedOption_id init, cond.relocated_id, body.relocated_id,
        Stmt.relocatedOption_id otherwise, Span.relocated_id]
  | .caseClause span none body colon =>
      rw [Stmt.relocated, Stmt.relocatedAll_id body, Span.relocated_id, id]
  | .caseClause span (some values) body colon =>
      rw [Stmt.relocated, Expr.relocatedAll_id values, Stmt.relocatedAll_id body, Span.relocated_id, id]
  | .switch span init tag body =>
      rw [Stmt.relocated, Stmt.relocatedOption_id init, Expr.relocatedOption_id tag, body.relocated_id,
        Span.relocated_id]
  | .typeSwitch span init guard body =>
      rw [Stmt.relocated, Stmt.relocatedOption_id init, Stmt.relocated_id guard, body.relocated_id,
        Span.relocated_id]
  | .commClause span comm body colon =>
      rw [Stmt.relocated, Stmt.relocatedOption_id comm, Stmt.relocatedAll_id body, Span.relocated_id, id]
  | .select span body => rw [Stmt.relocated, body.relocated_id, Span.relocated_id]
  | .loop span init cond post body =>
      rw [Stmt.relocated, Stmt.relocatedOption_id init, Expr.relocatedOption_id cond, Stmt.relocatedOption_id post,
        Block.relocatedOption_id body, Span.relocated_id]
  | .range span key value tok operand body tokPos =>
      rw [Stmt.relocated, Expr.relocatedOption_id key, Expr.relocatedOption_id value, operand.relocated_id,
        Block.relocatedOption_id body, Span.relocated_id, id]
termination_by structural step

theorem Stmt.relocatedOption_id (step : Option Stmt) : Stmt.relocatedOption id step = step := by
  match step with
  | none => rfl
  | some step => rw [Stmt.relocatedOption, Stmt.relocated_id step]
termination_by structural step

theorem Stmt.relocatedAll_id (steps : List Stmt) : Stmt.relocatedAll id steps = steps := by
  match steps with
  | [] => rfl
  | step :: rest => rw [Stmt.relocatedAll, Stmt.relocated_id step, Stmt.relocatedAll_id rest]
termination_by structural steps

theorem Block.relocated_id (body : Block) : body.relocated id = body := by
  match body with
  | ⟨span, stmts⟩ => rw [Block.relocated, Stmt.relocatedAll_id stmts, Span.relocated_id]
termination_by structural body

theorem Block.relocatedOption_id (body : Option Block) : Block.relocatedOption id body = body := by
  match body with
  | none => rfl
  | some body => rw [Block.relocatedOption, Block.relocated_id body]
termination_by structural body

theorem Spec.relocated_id (item : Spec) : item.relocated id = item := by
  match item with
  | .importSpec item => rw [Spec.relocated, item.relocated_id]
  | .valueSpec span names type values =>
      rw [Spec.relocated, Ident.map_relocated_id, Expr.relocatedOption_id type,
        Expr.relocatedAll_id values, Span.relocated_id]
  | .typeSpec span name type isAlias =>
      rw [Spec.relocated, type.relocated_id, Ident.relocated_id, Span.relocated_id]
termination_by structural item

theorem Spec.relocatedAll_id (items : List Spec) : Spec.relocatedAll id items = items := by
  match items with
  | [] => rfl
  | item :: rest => rw [Spec.relocatedAll, Spec.relocated_id item, Spec.relocatedAll_id rest]
termination_by structural items

theorem GenDecl.relocated_id (item : GenDecl) : item.relocated id = item := by
  match item with
  | ⟨span, tok, specs, grouped⟩ => rw [GenDecl.relocated, Spec.relocatedAll_id specs, Span.relocated_id]
termination_by structural item

end

theorem FuncDecl.relocated_id (item : FuncDecl) : item.relocated id = item := by
  obtain ⟨span, recv, name, type, body⟩ := item
  cases recv <;> cases body <;>
    simp [relocated, FieldList.relocated_id, FuncType.relocated_id, Block.relocated_id,
      Span.relocated_id, Ident.relocated_id]

theorem Decl.relocated_id (item : Decl) : item.relocated id = item := by
  cases item <;> simp [GenDecl.relocated_id, FuncDecl.relocated_id]

theorem Comment.relocated_id (comment : Comment) : comment.relocated id = comment :=
  rfl

theorem File.relocated_id (file : File) : file.relocated id = file := by
  have declsEq : Decl.relocated id = id := funext Decl.relocated_id
  have commentsEq : Comment.relocated id = id := funext Comment.relocated_id
  simp [relocated, Ident.relocated_id, declsEq, commentsEq]

/-! ### Positions replaced twice -/

section

variable (first second : Pos → Pos)

@[simp]
theorem Span.relocated_relocated (span : Span) :
    (span.relocated first).relocated second = span.relocated (second ∘ first) :=
  rfl

@[simp]
theorem Ident.relocated_relocated (name : Ident) :
    (name.relocated first).relocated second = name.relocated (second ∘ first) :=
  rfl

@[simp]
theorem BasicLit.relocated_relocated (literal : BasicLit) :
    (literal.relocated first).relocated second = literal.relocated (second ∘ first) :=
  rfl

theorem ImportSpec.relocated_relocated (spec : ImportSpec) :
    (spec.relocated first).relocated second = spec.relocated (second ∘ first) := by
  obtain ⟨span, name, path⟩ := spec
  cases name <;> rfl

/-- Two changes of a part that may be missing are the same if they are for the part. -/
theorem optionMap_eq_iff {α β : Type} {change change' : α → β} {part : Option α} :
    part.map change = part.map change' ↔ ∀ value, part = some value → change value = change' value := by
  cases part <;> simp

/-- Positions are replaced one after the other or at once. -/
theorem Node.relocated_relocated (node : Node) :
    (node.relocated first).relocated second = node.relocated (second ∘ first) := by
  induction node using induction_children with
  | step node ih =>
      cases node with
      | expr value =>
          cases value with
          | funcType type =>
              obtain ⟨span, params, results⟩ := type
              cases results <;> simp_all [children, exprChildren]
          | _ => simp_all [optionMap_eq_iff, children, exprChildren, block, or_imp, forall_and]
      | field item =>
          obtain ⟨span, names, type, tag⟩ := item
          have same := ih (.expr type) (by cases tag <;> simp [children])
          cases tag <;> simp_all
      | fieldList list =>
          obtain ⟨span, fields⟩ := list
          simp_all [children]
      | stmt step =>
          cases step with
          | block body =>
              obtain ⟨span, stmts⟩ := body
              simp_all [children, stmtChildren]
          | caseClause span exprs body colon =>
              cases exprs <;> simp_all [children, stmtChildren, or_imp, forall_and]
          | _ => simp_all [optionMap_eq_iff, children, stmtChildren, block, or_imp, forall_and]
      | spec item =>
          cases item with
          | importSpec spec => simp [ImportSpec.relocated_relocated]
          | _ => simp_all [optionMap_eq_iff, children, specChildren, or_imp, forall_and]
      | decl item =>
          cases item with
          | gen item =>
              obtain ⟨span, tok, specs, grouped⟩ := item
              simp_all [children, declChildren]
          | func item =>
              obtain ⟨span, recv, name, type, body⟩ := item
              have recvEq : ∀ list, recv = some list →
                  (list.relocated first).relocated second = list.relocated (second ∘ first) :=
                fun list isRecv =>
                  Node.fieldList.inj (ih (.fieldList list) (by simp [children, declChildren, isRecv]))
              have typeEq :
                  (type.relocated first).relocated second = type.relocated (second ∘ first) :=
                Expr.funcType.inj (Node.expr.inj
                  (ih (.expr (.funcType type)) (by simp [children, declChildren])))
              have bodyEq : ∀ inner, body = some inner →
                  (inner.relocated first).relocated second = inner.relocated (second ∘ first) :=
                fun inner isBody => Stmt.block.inj (Node.stmt.inj
                  (ih (Node.block inner) (by simp [children, declChildren, isBody])))
              simp_all [FuncDecl.relocated, optionMap_eq_iff]
      | file source =>
          obtain ⟨span, name, package, decls, comments⟩ := source
          have declsEq : ∀ item ∈ decls,
              (Decl.relocated second ∘ Decl.relocated first) item =
                Decl.relocated (second ∘ first) item :=
            fun item isDecl => Node.decl.inj (ih (.decl item) (by simp [children, isDecl]))
          have commentsEq : Comment.relocated second ∘ Comment.relocated first =
              Comment.relocated (second ∘ first) :=
            rfl
          simp only [Node.relocated, File.relocated, Ident.relocated_relocated, List.map_map,
            List.map_congr_left declsEq, commentsEq, Int.add_sub_cancel, Function.comp_apply]
      | comment text => rfl

theorem Decl.relocated_relocated (item : Decl) :
    (item.relocated first).relocated second = item.relocated (second ∘ first) :=
  Node.decl.inj (Node.relocated_relocated first second (.decl item))

end

/-! ### Whatever holds positions -/

/-- What holds positions. -/
class Relocatable (α : Type) where
  /-- The same with every position replaced. -/
  relocate : (Pos → Pos) → α → α

namespace Relocatable

instance : Relocatable Pos := ⟨fun place => place⟩

instance : Relocatable Unit := ⟨fun _ value => value⟩

instance : Relocatable Bool := ⟨fun _ value => value⟩

instance : Relocatable Nat := ⟨fun _ value => value⟩

instance : Relocatable Token := ⟨fun _ value => value⟩

instance : Relocatable Ident := ⟨Ident.relocated⟩

instance : Relocatable BasicLit := ⟨BasicLit.relocated⟩

instance : Relocatable Expr := ⟨Expr.relocated⟩

instance : Relocatable FuncType := ⟨FuncType.relocated⟩

instance : Relocatable Field := ⟨Field.relocated⟩

instance : Relocatable FieldList := ⟨FieldList.relocated⟩

instance : Relocatable Stmt := ⟨Stmt.relocated⟩

instance : Relocatable Block := ⟨Block.relocated⟩

instance : Relocatable Spec := ⟨Spec.relocated⟩

instance : Relocatable GenDecl := ⟨GenDecl.relocated⟩

instance : Relocatable FuncDecl := ⟨FuncDecl.relocated⟩

instance : Relocatable Decl := ⟨Decl.relocated⟩

instance {α : Type} [Relocatable α] : Relocatable (Option α) :=
  ⟨fun place => Option.map (relocate place)⟩

instance {α : Type} [Relocatable α] : Relocatable (List α) :=
  ⟨fun place => List.map (relocate place)⟩

instance {α β : Type} [Relocatable α] [Relocatable β] : Relocatable (α × β) :=
  ⟨fun place => Prod.map (relocate place) (relocate place)⟩

end Relocatable

end GoMend
