import GoMend.Proofs.Layout.Lines
import GoMend.Proofs.Layout.Total
import GoMend.Proofs.Tree.Written

/-!
# Marks in trees

Every comment of a straight file is written once, and the comments stand in their order.  Here the
positions at which a tree asks for comments come in: nothing that is printed out of line may take a
comment that belongs before what is printed first.
-/

namespace GoMend

namespace Node

/-- The texts of a node itself: its name or literal, and its token. -/
def ownWords : Node → List String
  | .expr (.ident name) => [name.name]
  | .expr (.lit literal) => [literal.value]
  | .expr (.unary _ op _) | .expr (.binary _ _ op _) => [op.text]
  | .stmt (.assign _ _ tok _ _) | .stmt (.incDec _ _ tok) | .stmt (.branch _ tok _) => [tok.text]
  | .stmt (.range _ _ _ tok _ _ _) => tok.toList.map (·.text)
  | .decl (.gen item) => [item.tok.text]
  | _ => []

/-- The names, literals and tokens of a tree. -/
def words (node : Node) : List String :=
  node.ownWords ++ node.children.attach.flatMap fun child => words child.val
termination_by sizeOf node
decreasing_by exact sizeOf_lt_of_mem_children child.property

theorem words_eq (node : Node) : node.words = node.ownWords ++ node.children.flatMap words := by
  rw [words]
  simp only [List.flatMap_def]
  rw [List.attach_map_val (f := words)]

end Node

namespace Layout

/-- Whether a watch allows for a tree: comments may be taken where the tree asks for them, and no
name, literal or token has marks. -/
structure Allows (watch : Watch) (node : Node) : Prop where
  asked : ∀ pos ∈ node.queries, watch.asked pos
  plain : ∀ word ∈ node.words, watch.marks word = []

namespace Allows

variable {watch : Watch} {node : Node}

theorem child {child : Node} (allows : Allows watch node) (isChild : child ∈ node.children) :
    Allows watch child where
  asked pos isQuery := allows.asked pos (Node.mem_queries_of_child isChild isQuery)
  plain word isWord := by
    refine allows.plain word ?_
    rw [Node.words_eq]
    exact List.mem_append_right _ (List.mem_flatMap.mpr ⟨child, isChild, isWord⟩)

theorem own {word : String} (allows : Allows watch node) (isOwn : word ∈ node.ownWords) :
    watch.marks word = [] := by
  refine allows.plain word ?_
  rw [Node.words_eq]
  exact List.mem_append_left _ isOwn

/-- A name that a node writes itself. -/
theorem name {name : Ident} (allows : Allows watch node) (isChild : Node.ident name ∈ node.children) :
    watch.marks name.name = [] :=
  (allows.child isChild).own List.mem_cons_self

theorem lit {literal : BasicLit} (allows : Allows watch node)
    (isChild : Node.lit literal ∈ node.children) : watch.marks literal.value = [] :=
  (allows.child isChild).own List.mem_cons_self

theorem start (allows : Allows watch node) (notEmpty : node.isEmptyStmt = false)
    (isPos : node.span.start ≠ noPos) : watch.asked node.span.start :=
  allows.asked _ (Node.start_mem_queries (bne_iff_ne.mpr isPos) notEmpty)

theorem stop (allows : Allows watch node) (positioned : node.isPositioned)
    (asksAtStop : node.asksAtStop) : watch.asked (node.span.stop - 1) :=
  allows.asked _ (Node.stop_mem_queries positioned asksAtStop)

end Allows

/-- Whether the marks of a list of fields are kept. -/
structure KeepsFields (watch : Watch) (list : FieldList) : Prop where
  fields : ∀ field ∈ list.fields, KeepsField watch field
  stop : watch.asked (list.span.stop - 1)

/-- Whether a file takes all comments, and writes their marks in their order. -/
def KeepsFile (watch : Watch) (file : File) : Prop :=
  ∀ page after, InOrder page.comments → fileLines file watch.set page = .ok ((), after) →
    watch.pageMarks after = watch.pageMarks page ++ watch.commentMarks page.comments

/-- Whether the marks of a node are kept. -/
def KeepsNode (watch : Watch) : Node → Prop
  | .expr value => KeepsExpr watch value
  | .field item => KeepsField watch item
  | .fieldList list => KeepsFields watch list
  | .stmt step => KeepsStmt watch step
  | .spec item => KeepsSpec watch item
  | .decl item => KeepsDecl watch item
  | .file file => KeepsFile watch file
  | .comment _ => True

section Trees

variable {watch : Watch} (foreign : watch.Foreign)

theorem KeepsExpr.of_text {value : Expr} (notPair : ∀ span key inner, value ≠ .keyValue span key inner)
    (notType : ∀ type, value ≠ .funcType type) (allows : Allows watch (.expr value))
    (text : ∀ shared prec depth, GivesText watch (exprText shared prec depth value)) :
    KeepsExpr watch value where
  text := text
  pair span key inner isPair := absurd isPair (notPair span key inner)
  signature type isType := absurd isType (notType type)
  start positive := allows.start rfl (Int.ne_of_gt positive)

include foreign

theorem funcLit_keeps {type : FuncType} {body : Block} (typeKept : GivesText watch (signatureText type))
    (bodyKept : KeepsStmt watch (.block body)) (span : Span) (shared : Option Nat) (prec depth : Nat) :
    GivesText watch (exprText shared prec depth (.funcLit span type body)) := by
  refine .text typeKept fun typeText =>
    .bind (Keeps.capture (Keeps.cast ((bodyKept.block body rfl _).1 _) ?_)) fun lines found isFound =>
      .pure ?_
  · simp [foreign.plain "func" rfl, foreign.plain " " rfl]
  · have isBlank : ∀ char : Char, (char = '\t') → Text.isBlank char := by
      rintro _ rfl
      rfl
    rw [Weighs, Watch.marks, String.toList_ofList, foreign.dropWhile (by simpa using isBlank)]
    exact (watch.allMarks_intercalate (foreign.plain "\n" rfl) lines).trans isFound

theorem call_keeps {callee : Expr} {args : List Expr} {span : Span} (calleeKept : KeepsExpr watch callee)
    (argsKept : ∀ arg ∈ args, KeepsExpr watch arg) (isAsked : watch.asked (span.stop - 1))
    (spread : Bool) (shared : Option Nat) (prec depth : Nat) :
    GivesText watch (exprText shared prec depth (.call span callee args spread)) := by
  refine .text (calleeKept.text _ _ _) fun calleeText => ?_
  refine .text (elements_gives foreign _ argsKept (foreign.plain "(" rfl) (foreign.plain ")" rfl)
    fun _ => isAsked) fun argsText => .pure ?_
  rw [Weighs, watch.marks_append]
  refine congrArg (· ++ watch.marks argsText) ?_
  split <;> simp [foreign.plain "(" rfl, foreign.plain ")" rfl]

theorem composite_keeps {type : Option Expr} {elems : List Expr} {span : Span}
    (typeKept : ∀ value ∈ type, KeepsExpr watch value)
    (elemsKept : ∀ elem ∈ elems, KeepsExpr watch elem) (isAsked : watch.asked (span.stop - 1))
    (shared : Option Nat) (prec depth : Nat) :
    GivesText watch (exprText shared prec depth (.composite span type elems)) := by
  have elemsText (openPos : Pos) := @elements_gives _ foreign
    { opening := "\x7b", closing := "\x7d", openPos, closePos := span.stop - 1, depth :=
      1, alignKeys := true } _ 1 elemsKept (foreign.plain "\x7b" rfl)
    (foreign.plain "\x7d" rfl) fun _ => isAsked
  cases type with
  | none =>
      exact .known (.text (elemsText _) fun elemsText => .pure (by simp [Weighs]))
  | some type =>
      exact .text ((typeKept type rfl).text _ _ _) fun typeText =>
        .text (elemsText _) fun elemsText => .pure (by simp [Weighs])

theorem slice_keeps {operand : Expr} {low high max : Option Expr} {full : Bool} {span : Span}
    (operandKept : KeepsExpr watch operand) (lowKept : ∀ value ∈ low, KeepsExpr watch value)
    (highKept : ∀ value ∈ high, KeepsExpr watch value) (maxKept : ∀ value ∈ max, KeepsExpr watch value)
    (shared : Option Nat) (prec depth : Nat) :
    GivesText watch (exprText shared prec depth (.slice span operand low high max full)) := by
  refine .text (operandKept.text _ _ _) fun operandText =>
    .text (optionText_gives lowKept _) fun lowText =>
      .text (optionText_gives highKept _) fun highText =>
        .ite (fun isFull => .text (optionText_gives maxKept _) fun maxText => .pure ?_) fun notFull =>
          .known (.pure ?_)
  · simp [Weighs, isFull, foreign.blankIf, foreign.plain ":" rfl, foreign.plain "[" rfl, foreign.plain "]" rfl]
  · simp [Weighs, notFull, foreign.blankIf, foreign.plain ":" rfl, foreign.plain "[" rfl, foreign.plain "]" rfl]

theorem expr_keeps {value : Expr} (positive : 0 < value.span.start) (allows : Allows watch (.expr value))
    (notAssertion : (Node.expr value).isAssertion = false)
    (kept : ∀ child ∈ (Node.expr value).children, KeepsNode watch child) : KeepsExpr watch value := by
  have positioned : (Node.expr value).isPositioned := Node.isPositioned_of_pos positive
  have stop := allows.stop positioned
  cases value <;>
    simp [Node.children, Node.exprChildren, Node.block, KeepsNode, or_imp, forall_and] at kept
  case ident name =>
      exact .of_text (by simp) (by simp) allows fun _ _ _ => .pure (allows.own List.mem_cons_self)
  case lit literal =>
      exact .of_text (by simp) (by simp) allows fun _ _ _ => .pure (allows.own List.mem_cons_self)
  case ellipsis span elem =>
      exact .of_text (by simp) (by simp) allows fun _ _ _ => .text (optionText_gives kept _) fun _ =>
        .pure (by simp [Weighs, foreign.plain "..." rfl])
  case funcLit span type body =>
      exact .of_text (by simp) (by simp) allows (funcLit_keeps foreign (kept.1.signature _ rfl) kept.2 span)
  case composite span type elems =>
      exact .of_text (by simp) (by simp) allows (composite_keeps foreign kept.1 kept.2 (stop rfl))
  case paren span inner =>
      refine .of_text (by simp) (by simp) allows fun _ _ _ => ?_
      exact .text (kept.text _ _ _) fun _ => .pure (by simp [Weighs, foreign.inParens])
  case selector span operand sel =>
      refine .of_text (by simp) (by simp) allows fun _ _ _ => ?_
      have selPlain : watch.marks sel.name = [] :=
        allows.name (List.mem_cons_of_mem _ List.mem_cons_self)
      exact .text (kept.1.text _ _ _) fun _ => .pure (by simp [Weighs, foreign.plain "." rfl, selPlain])
  case index span operand index =>
      refine .of_text (by simp) (by simp) allows fun _ _ _ => ?_
      exact .text (kept.1.text _ _ _) fun _ => .text (kept.2.text _ _ _) fun _ =>
        .pure (by simp [Weighs, foreign.plain "[" rfl, foreign.plain "]" rfl])
  case slice span operand low high max full =>
      obtain ⟨operandKept, lowKept, highKept, maxKept⟩ := kept
      exact .of_text (by simp) (by simp) allows (slice_keeps foreign operandKept lowKept highKept maxKept)
  case typeAssert => cases notAssertion
  case call span callee args spread =>
      exact .of_text (by simp) (by simp) allows (call_keeps foreign kept.1 kept.2 (stop rfl) spread)
  case star span operand =>
      refine .of_text (by simp) (by simp) allows fun _ _ _ => ?_
      exact .text (kept.text _ _ _) fun _ =>
        .pure (by simp [Weighs, foreign.inParens, foreign.plain "*" rfl])
  case unary span op operand =>
      refine .of_text (by simp) (by simp) allows fun _ _ _ => ?_
      have opPlain : watch.marks op.text = [] := allows.own List.mem_cons_self
      refine .text (kept.text _ _ _) fun _ => .pure ?_
      simp [Weighs, foreign.inParens, opPlain, foreign.blankIf]
  case binary span left op right =>
      refine .of_text (by simp) (by simp) allows fun _ _ _ => ?_
      have opPlain : watch.marks op.text = [] := allows.own List.mem_cons_self
      refine .text (kept.1.text _ _ _) fun _ => .text (kept.2.text _ _ _) fun _ => .pure ?_
      simp [Weighs, foreign.inParens, opPlain, foreign.blankIf]
  case keyValue span key value =>
      refine ⟨fun _ _ _ => ?_, ?_, by simp, fun isPos => allows.start rfl (Int.ne_of_gt isPos)⟩
      · exact .text (kept.1.text _ _ _) fun _ => .text (kept.2.text _ _ _) fun _ =>
          .pure (by simp [Weighs, foreign.plain ": " rfl])
      · rintro _ _ _ ⟨⟩ depth
        exact ⟨kept.1.text _ _ _, kept.2.text _ _ _⟩
  case arrayType span length elem =>
      refine .of_text (by simp) (by simp) allows fun _ _ _ => ?_
      exact .text (optionText_gives kept.1 _) fun _ => .text (kept.2.text _ _ _) fun _ =>
        .pure (by simp [Weighs, foreign.plain "[" rfl, foreign.plain "]" rfl])
  case structType span fields =>
      exact .of_text (by simp) (by simp) allows fun _ _ _ =>
        fieldBlock_gives foreign kept.fields (foreign.plain "struct" rfl) _ fun _ => kept.stop
  case funcType type =>
      have signature := signatureText_gives foreign kept.1.fields fun list isList =>
        (kept.2 list isList).fields
      refine ⟨fun _ _ _ => ?_, by simp, ?_, fun isPos => allows.start rfl (Int.ne_of_gt isPos)⟩
      · exact .text signature fun _ => .pure (by simp [Weighs, foreign.plain "func" rfl])
      · rintro _ ⟨⟩
        exact signature
  case interfaceType span methods =>
      exact .of_text (by simp) (by simp) allows fun _ _ _ =>
        fieldBlock_gives foreign kept.fields (foreign.plain "interface" rfl) _ fun _ => kept.stop
  case mapType span key value =>
      refine .of_text (by simp) (by simp) allows fun _ _ _ => ?_
      exact .text (kept.1.text _ _ _) fun _ => .text (kept.2.text _ _ _) fun _ =>
        .pure (by simp [Weighs, foreign.plain "map[" rfl, foreign.plain "]" rfl])
  case chanType span dir elem =>
      refine .of_text (by simp) (by simp) allows fun _ _ _ => ?_
      have keyword : watch.marks (chanKeyword dir) = [] := by
        cases dir
        · exact foreign.plain "chan " rfl
        · exact foreign.plain "chan<- " rfl
        · exact foreign.plain "<-chan " rfl
      exact .text (kept.text _ _ _) fun _ => .pure (by simp [Weighs, keyword])

omit foreign in
/-- What is printed first may stand behind what is printed after it, if that asks for comments only
before the first one does: then one of the two takes none. -/
theorem Gives.swapped {first second : Print String} {asked asked' : Pos → Prop}
    {join : String → String → String}
    (firstKept : GivesText { watch with asked } first)
    (secondKept : GivesText { watch with asked := asked' } second)
    (inOrder : ∀ pos, asked' pos → ∀ later, asked later → pos ≤ later)
    (within : ∀ pos, asked pos → watch.asked pos) (within' : ∀ pos, asked' pos → watch.asked pos)
    (joined : ∀ text text', watch.marks (join text text') = watch.marks text' ++ watch.marks text) :
    GivesText watch (do
      let text ← first
      return join text (← second)) := by
  intro page value after pageInOrder outcome
  obtain ⟨text, middle, isFirst, outcome⟩ := bind_eq_ok.mp outcome
  obtain ⟨text', _, isSecond, ⟨⟩⟩ := bind_eq_ok.mp outcome
  obtain ⟨sameLines, taken, isTaken, isText⟩ := firstKept _ _ _ pageInOrder isFirst
  obtain ⟨sameLines', taken', isTaken', isText'⟩ :=
    secondKept _ _ _ (isTaken.inOrder pageInOrder) isSecond
  refine ⟨sameLines'.trans sameLines, taken ++ taken',
    (isTaken.mono within).append (isTaken'.mono within'), ?_⟩
  have oneTakes : taken = [] ∨ taken' = [] := by
    cases taken with
    | nil => exact .inl rfl
    | cons comment taken =>
        right
        obtain ⟨later, isAsked, -, behind⟩ := isTaken.asked comment List.mem_cons_self
        refine List.eq_nil_iff_forall_not_mem.mpr fun other isOther => ?_
        obtain ⟨pos, isAsked', before, -⟩ := isTaken'.asked other isOther
        have le := inOrder pos isAsked' later isAsked
        have ge := behind other (isTaken'.split ▸ List.mem_append_left _ isOther)
        lia
  have textEq : watch.marks text = watch.commentMarks taken := isText
  have textEq' : watch.marks text' = watch.commentMarks taken' := isText'
  rw [Weighs, joined, textEq, textEq']
  obtain rfl | rfl := oneTakes <;> simp

theorem typeAssert_keeps {operand : Expr} {type : Option Expr} {span : Span}
    (allows : Allows watch (.expr (.typeAssert span operand type)))
    (inOrder : (Node.expr (.typeAssert span operand type)).children.Pairwise Node.AsksBefore)
    (operandKept : KeepsExpr { watch with asked := (· ∈ (Node.expr operand).queries) } operand)
    (typeKept : ∀ value ∈ type,
      KeepsExpr { watch with asked := (· ∈ (Node.expr value).queries) } value) :
    KeepsExpr watch (.typeAssert span operand type) := by
  have isOperand : Node.expr operand ∈ (Node.expr (.typeAssert span operand type)).children :=
    List.mem_cons_self
  refine .of_text (by simp) (by simp) allows fun _ _ depth => ?_
  cases type with
  | none =>
      have operandText : GivesText watch (exprText none highestPrec depth operand) :=
        (operandKept.text _ _ _).mono (allows.child isOperand).asked
      refine .known (.text operandText fun _ => .pure ?_)
      simp [Weighs, foreign.plain ".(" rfl, foreign.plain "type" rfl, foreign.plain ")" rfl]
  | some type =>
      have isType : Node.expr type ∈ (Node.expr (.typeAssert span operand (some type))).children := by
        simp [Node.children, Node.exprChildren]
      have before : Node.AsksBefore (.expr operand) (.expr type) := by
        simpa [Node.children, Node.exprChildren] using inOrder
      refine Gives.swapped ((typeKept type rfl).text _ _ _) (operandKept.text _ _ _) before
        (allows.child isType).asked (allows.child isOperand).asked fun text text' => ?_
      simp [foreign.plain ".(" rfl, foreign.plain ")" rfl]

theorem assign_keeps {span : Span} {lhs rhs : List Expr} {tok : Token} {tokPos : Pos}
    (start : span.start ≠ noPos → watch.asked span.start) (tokPlain : watch.marks tok.text = [])
    (leftKept : ∀ value ∈ lhs, KeepsExpr watch value)
    (rightKept : ∀ value ∈ rhs, KeepsExpr watch value) :
    KeepsStmt watch (.assign span lhs tok rhs tokPos) := by
  refine .of_simple (by simp) rfl (fun _ => .text (exprTexts_gives leftKept _) fun _ =>
    .text (exprTexts_gives rightKept _) fun _ => .pure ?_) fun _ => start
  simp [Weighs, Watch.textMarks, foreign.commas, foreign.plain " " rfl, tokPlain]

theorem block_keeps {body : Block} (kept : ∀ step ∈ body.stmts, KeepsStmt watch step)
    (stop : watch.asked (body.span.stop - 1))
    (start : body.span.start ≠ noPos → watch.asked body.span.start) :
    KeepsStmt watch (.block body) where
  text afterElse := by
    have lead : watch.marks (if afterElse then "\x7d else " else "") = [] := by
      split
      · exact foreign.plain "\x7d else " rfl
      · rfl
    have lines := blockLines_emits foreign kept (fun _ => stop)
      (if afterElse then "\x7d else " else "") true
    exact .bind (lines.cast lead) fun _ => .pure rfl
  simple := nofun
  block := by
    rintro _ ⟨⟩ head
    exact ⟨blockLines_emits foreign kept (fun _ => stop) head,
      clauseBlock_emits foreign kept (fun _ => stop) head⟩
  clause rest _ := clauseLines_of_notClause rfl rest
  start _ := start

theorem stmt_keeps {step : Stmt} (positive : 0 < step.span.start) (allows : Allows watch (.stmt step))
    (kept : ∀ child ∈ (Node.stmt step).children, KeepsNode watch child) : KeepsStmt watch step := by
  have positioned : (Node.stmt step).isPositioned := Node.isPositioned_of_pos positive
  have start : isEmptyStmt step = false → step.span.start ≠ noPos → watch.asked step.span.start :=
    allows.start
  have stop := allows.stop positioned
  cases step <;>
    simp [Node.children, Node.stmtChildren, Node.block, KeepsNode, or_imp, forall_and] at kept
  case decl span item =>
      exact .of_lines rfl (by simp) rfl (fun _ => .bind kept.lines fun _ => .pure rfl) start
  case empty span => exact .of_simple (by simp) rfl (fun _ => .pure rfl) start
  case labeled span label inner =>
      have labelPlain : watch.marks label.name = [] := allows.name List.mem_cons_self
      exact .of_lines rfl (by simp) rfl (fun _ => labeled_keeps foreign labelPlain kept.2) start
  case expr span value =>
      exact .of_simple (by simp) rfl (fun _ => .text (kept.text _ _ _) fun _ => .pure rfl) start
  case send span channel value =>
      refine .of_simple (by simp) rfl (fun _ => .text (kept.1.text _ _ _) fun _ =>
        .text (kept.2.text _ _ _) fun _ => .pure ?_) start
      simp [Weighs, Watch.textMarks, foreign.plain " <- " rfl]
  case incDec span operand tok =>
      have tokPlain : watch.marks tok.text = [] := allows.own List.mem_cons_self
      exact .of_simple (by simp) rfl (fun _ => .text (kept.text _ _ _) fun _ =>
        .pure (by simp [Weighs, Watch.textMarks, tokPlain])) start
  case assign span lhs tok rhs tokPos =>
      exact assign_keeps foreign (start rfl) (allows.own List.mem_cons_self) kept.1 kept.2
  case go span call =>
      exact .of_simple (by simp) rfl (fun _ => .text (kept.text _ _ _) fun _ =>
        .pure (by simp [Weighs, Watch.textMarks, foreign.plain "go " rfl])) start
  case defer span call =>
      exact .of_simple (by simp) rfl (fun _ => .text (kept.text _ _ _) fun _ =>
        .pure (by simp [Weighs, Watch.textMarks, foreign.plain "defer " rfl])) start
  case ret span results =>
      refine .of_simple (by simp) rfl (fun _ => .ite (fun _ => .pure ?_) fun _ =>
        .text (exprTexts_gives kept _) fun _ => .pure ?_) start
      · exact foreign.plain "return" rfl
      · simp [Weighs, Watch.textMarks, foreign.plain "return " rfl, foreign.commas]
  case branch span tok label =>
      have tokPlain : watch.marks tok.text = [] := allows.own List.mem_cons_self
      cases label with
      | none => exact .of_simple (by simp) rfl (fun _ => .pure tokPlain) start
      | some label =>
          have labelPlain : watch.marks label.name = [] := allows.name List.mem_cons_self
          exact .of_simple (by simp) rfl (fun _ => .pure (by
            simp [Weighs, Watch.textMarks, tokPlain, labelPlain, foreign.plain " " rfl])) start
  case block body =>
      exact block_keeps foreign kept (stop rfl) (start rfl)
  case ifElse span init cond body otherwise =>
      obtain ⟨initKept, condKept, bodyKept, otherKept⟩ := kept
      exact .of_lines rfl (by simp) rfl
        (fun _ => ifElse_keeps foreign initKept condKept bodyKept otherKept) start
  case caseClause span exprs body colon =>
      refine caseClause_kept foreign (start rfl) ?_ kept.2
      rintro values rfl
      exact kept.1
  case switch span init tag body =>
      obtain ⟨initKept, tagKept, bodyKept⟩ := kept
      exact .of_lines rfl (by simp) rfl (fun _ => switch_keeps foreign initKept tagKept bodyKept) start
  case typeSwitch span init guard body =>
      obtain ⟨initKept, guardKept, bodyKept⟩ := kept
      exact .of_lines rfl (by simp) rfl
        (fun _ => typeSwitch_keeps foreign initKept guardKept bodyKept) start
  case commClause span comm body colon =>
      exact commClause_kept foreign (start rfl) kept.1 kept.2
  case select span body =>
      have lines := Keeps.cast (kept.block body rfl _).2 (foreign.plain "select " rfl)
      exact .of_lines rfl (by simp) rfl (fun _ => .bind lines fun _ => .pure rfl) start
  case loop span init cond post body =>
      obtain ⟨initKept, condKept, postKept, bodyKept⟩ := kept
      exact .of_lines rfl (by simp) rfl
        (fun _ => loop_keeps foreign initKept condKept postKept bodyKept) start
  case range span key value tok operand body tokPos =>
      obtain ⟨keyKept, valueKept, operandKept, bodyKept⟩ := kept
      have tokPlain : ∀ token ∈ tok, watch.marks token.text = [] := fun token isToken =>
        allows.own (List.mem_map_of_mem (Option.mem_toList.mpr isToken))
      exact .of_lines rfl (by simp) rfl
        (fun _ => range_keeps foreign keyKept valueKept operandKept tokPlain bodyKept) start

theorem spec_keeps {item : Spec} (allows : Allows watch (.spec item))
    (kept : ∀ child ∈ (Node.spec item).children, KeepsNode watch child) : KeepsSpec watch item := by
  refine ⟨fun keepType => ?_, fun isPos => allows.start rfl (Int.ne_of_gt isPos)⟩
  cases item with
  | importSpec item =>
      have pathPlain : watch.marks item.path.value = [] := by
        refine allows.lit ?_
        simp [Node.children, Node.specChildren]
      rw [specCells]
      split
      · exact .pure (by simp [Weighs, pathPlain])
      · next name isName =>
        have namePlain : watch.marks name.name = [] := by
          refine allows.name ?_
          simp [Node.children, Node.specChildren, isName]
        exact .pure (by simp [Weighs, pathPlain, namePlain, foreign.plain " " rfl])
  | valueSpec span names type values =>
      have namesPlain : ∀ name ∈ names, watch.marks name.name = [] := fun name isName =>
        allows.name (List.mem_append_left _ (List.mem_map_of_mem isName))
      simp [Node.children, Node.specChildren, KeepsNode, or_imp, forall_and] at kept
      obtain ⟨-, typeKept, valuesKept⟩ := kept
      have namesText := marks_nameList foreign namesPlain
      have valuesPart : ∀ typeCells, Gives watch (watch.allMarks typeCells) (do
          let valueCells ←
            if values.isEmpty then pure [] else do pure ["= " ++ commas (← exprTexts 1 values)]
          return dropEmptyEnd (nameList names :: (typeCells ++ valueCells)))
            (Weighs watch.allMarks) := by
        intro typeCells
        refine .ite (fun _ => .pure ?_) fun _ => .text (exprTexts_gives valuesKept _) fun _ => .pure ?_
        · simp [Weighs, allMarks_dropEmptyEnd, namesText]
        · simp [Weighs, allMarks_dropEmptyEnd, namesText, foreign.plain "= " rfl, foreign.commas]
      rw [specCells]
      refine .ite (fun _ => .text (optionText_gives typeKept _) fun typeText => ?_) fun _ =>
        valuesPart []
      simpa using valuesPart [typeText]
  | typeSpec span name type isAlias =>
      have namePlain : watch.marks name.name = [] := allows.name List.mem_cons_self
      simp [Node.children, Node.specChildren, KeepsNode] at kept
      rw [specCells]
      refine .text (kept.2.text _ _ _) fun _ => .pure ?_
      rw [Weighs]
      split <;> simp [namePlain, foreign.plain " " rfl, foreign.plain "= " rfl]

theorem funcDecl_keeps {item : FuncDecl} (allows : Allows watch (.decl (.func item)))
    (kept : ∀ child ∈ (Node.decl (.func item)).children, KeepsNode watch child) :
    Emits watch [] (funcDeclLines item) := by
  obtain ⟨span, recv, name, type, body⟩ := item
  have namePlain : watch.marks name.name = [] := by
    refine allows.name ?_
    simp [Node.children, Node.declChildren]
  simp [Node.children, Node.declChildren, Node.block, KeepsNode, or_imp, forall_and] at kept
  obtain ⟨recvKept, -, typeKept, bodyKept⟩ := kept
  have signature := typeKept.signature _ rfl
  cases body with
  | none =>
      have rest (recvText : String) : Emits watch (watch.marks recvText) (do
          emit ("func " ++ recvText ++ name.name ++ (← signatureText type))) := by
        refine .text signature fun _ => Keeps.cast (.of_writes (emit_writes foreign _)) ?_
        simp [namePlain, foreign.plain "func " rfl]
      cases recv with
      | none => exact .known (rest "")
      | some recv =>
          refine .text (paramsText_gives foreign (recvKept recv rfl).fields) fun recvText =>
            .known (Keeps.cast (rest _) ?_)
          simp [foreign.plain "(" rfl, foreign.plain ") " rfl]
  | some body =>
      have rest (recvText : String) : Emits watch (watch.marks recvText) (do
          blockLines ("func " ++ recvText ++ name.name ++ (← signatureText type) ++ " ") true
            body) := by
        refine .text signature fun _ => Keeps.cast (((bodyKept body rfl).block body rfl _).1 true) ?_
        simp [namePlain, foreign.plain "func " rfl, foreign.plain " " rfl]
      cases recv with
      | none => exact .known (rest "")
      | some recv =>
          refine .text (paramsText_gives foreign (recvKept recv rfl).fields) fun recvText =>
            .known (Keeps.cast (rest _) ?_)
          simp [foreign.plain "(" rfl, foreign.plain ") " rfl]

theorem decl_keeps {item : Decl} (positive : 0 < item.span.start) (allows : Allows watch (.decl item))
    (kept : ∀ child ∈ (Node.decl item).children, KeepsNode watch child) : KeepsDecl watch item where
  lines := by
    cases item with
    | gen item =>
        have positioned : (Node.decl (.gen item)).isPositioned := Node.isPositioned_of_pos positive
        refine genDeclLines_emits foreign (fun spec isSpec => kept (.spec spec) ?_)
          (allows.own List.mem_cons_self) fun _ => allows.stop positioned rfl
        simpa [Node.children, Node.declChildren] using isSpec
    | func item => exact funcDecl_keeps foreign allows kept
  start := allows.start rfl

omit foreign in
theorem field_keeps {item : Field} (allows : Allows watch (.field item))
    (kept : ∀ child ∈ (Node.field item).children, KeepsNode watch child) : KeepsField watch item where
  names _ isName := allows.name (List.mem_append_left _ (List.mem_map_of_mem isName))
  type := kept (.expr item.type) (List.mem_append_right _ List.mem_cons_self)
  tag _ isTag := allows.lit (List.mem_append_right _ (List.mem_cons_of_mem _
    (List.mem_map_of_mem (Option.mem_toList.mpr isTag))))
  start isPos := allows.start rfl (Int.ne_of_gt isPos)

omit foreign in
theorem ident_keeps {name : Ident} (allows : Allows watch (Node.ident name)) :
    KeepsExpr watch (.ident name) :=
  .of_text (by simp) (by simp) allows fun _ _ _ => .pure (allows.own List.mem_cons_self)

end Trees

/-- The marks of a sound and straight tree are kept. -/
theorem sound_keeps {role : Role} {node : Node} (sound : Sound role node) {watch : Watch}
    (foreign : watch.Foreign) (straight : node.Straight) (allows : Allows watch node) :
    KeepsNode watch node := by
  induction sound generalizing watch with
  | read name isWord =>
      have ident {name : Ident} (isChild : Node.ident name ∈ (Node.stmt (.discardRead _)).children) :=
        ident_keeps (allows.child isChild)
      refine assign_keeps foreign (absurd rfl) (foreign.plain "=" rfl) ?_ ?_
      · exact List.forall_mem_singleton.mpr (ident List.mem_cons_self)
      · exact List.forall_mem_singleton.mpr (ident (List.mem_cons_of_mem _ List.mem_cons_self))
  | blank => exact ident_keeps allows
  | @placed role node stands parts ih =>
      have below : ∀ child ∈ node.children, ∀ {watch : Watch}, watch.Foreign → Allows watch child →
          KeepsNode watch child := by
        intro child isChild watch foreign allows
        have isPart := isChild
        rw [← Node.map_snd_parts role] at isPart
        obtain ⟨part, isMember, rfl⟩ := List.mem_map.mp isPart
        exact ih part isMember foreign (straight.child isChild) allows
      have kept : ∀ child ∈ node.children, KeepsNode watch child :=
        fun child isChild => below child isChild foreign (allows.child isChild)
      cases node with
      | expr value =>
          cases isAssertion : (Node.expr value).isAssertion with
          | false => exact expr_keeps foreign stands.positive allows isAssertion kept
          | true =>
              have inOrder := straight.inOrder isAssertion
              have narrow : ∀ child ∈ (Node.expr value).children,
                  KeepsNode { watch with asked := (· ∈ child.queries) } child := fun child isChild =>
                below child isChild ⟨foreign.blank, foreign.token⟩
                  ⟨fun _ => id, (allows.child isChild).plain⟩
              cases value with
              | typeAssert span operand type =>
                  simp [Node.children, Node.exprChildren, KeepsNode] at narrow
                  exact typeAssert_keeps foreign allows inOrder narrow.1 narrow.2
              | _ => cases isAssertion
      | field item => exact field_keeps allows kept
      | fieldList list =>
          refine ⟨fun field isField => kept (.field field) ?_,
            allows.stop (Node.isPositioned_of_pos stands.positive) rfl⟩
          simpa [Node.children] using isField
      | stmt step => exact stmt_keeps foreign stands.positive allows kept
      | spec item => exact spec_keeps foreign allows kept
      | decl item => exact decl_keeps foreign stands.positive allows kept
      | file source =>
          have isPackage : Node.ident source.package ∈ (Node.file source).children :=
            List.mem_cons_self
          refine fun page after => fileLines_conserves foreign (fun item isItem => kept (.decl item) ?_)
            (allows.name isPackage) ((allows.child isPackage).start rfl)
          exact List.mem_cons_of_mem _ (List.mem_map_of_mem isItem)
      | comment text => trivial

end Layout

end GoMend
