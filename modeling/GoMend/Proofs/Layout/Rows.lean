import GoMend.Proofs.Layout.Marks

/-!
# Marks in rows and in expressions

Rows hold the marks of what they were given and of the comments that they took on the way.  So the
lines that a bracket or a block of fields makes of them have the marks of the comments inside, in
their order, next to those of the text before them.
-/

namespace GoMend

namespace Layout

/-! ### Rows -/

/-- Whether a row is an item or has a single cell. -/
def Row.IsFormed (row : Row) : Prop :=
  row.isItem ∨ ∃ cell, row.cells = [cell]

/-- Whether rows under construction have marks. -/
structure RowsHold (watch : Watch) (rows : Rows) (found : List Char) : Prop where
  formed : ∀ row ∈ rows.rows, row.IsFormed
  marks_eq : watch.allMarks (rows.rows.reverse.map Row.text) = found

section Rows

variable {watch : Watch} {rows : Rows} {found held : List Char}

theorem RowsHold.endAt (hold : RowsHold watch rows found) (line : Nat) :
    RowsHold watch (rows.endAt line) found := by
  unfold Rows.endAt
  split
  · exact hold
  · exact ⟨hold.formed, hold.marks_eq⟩

/-- One more row. -/
theorem RowsHold.cons {row : Row} (hold : RowsHold watch rows found) (formed : row.IsFormed) :
    RowsHold watch { rows with rows := row :: rows.rows } (found ++ watch.marks row.text) where
  formed := List.forall_mem_cons.mpr ⟨formed, hold.formed⟩
  marks_eq := by simp [← hold.marks_eq]

theorem RowsHold.gapBefore (hold : RowsHold watch rows found) (line : Nat) :
    RowsHold watch (rows.gapBefore line) found := by
  unfold Rows.gapBefore
  split
  · exact List.append_nil found ▸ @cons _ _ _ .blank hold (.inr ⟨"", rfl⟩)
  · exact hold

theorem allMarks_appendToLast (foreign : watch.Foreign) (text : String) {cells : List String}
    (isOpen : cells ≠ []) :
    watch.allMarks (Row.appendToLast text cells) = watch.allMarks cells ++ watch.marks text := by
  fun_induction Row.appendToLast text cells with
  | case1 => exact absurd rfl isOpen
  | case2 cell => simp [foreign.plain " " rfl]
  | case3 cell second cells ih => simp [ih]

/-- The text of an item has the marks of its cells. -/
theorem marks_item (foreign : watch.Foreign) (cells : List String) :
    watch.marks (Row.text ⟨true, cells⟩) = watch.allMarks cells := by
  simp [Row.text, foreign.joined, watch.allMarks_filter]

theorem Row.IsFormed.marks_text {row : Row} (formed : row.IsFormed) (foreign : watch.Foreign) :
    watch.marks row.text = watch.allMarks row.cells := by
  obtain ⟨isItem, cells⟩ := row
  obtain rfl | ⟨cell, rfl⟩ := formed
  · exact marks_item foreign cells
  · cases isItem
    · simp [Row.text]
    · exact marks_item foreign [cell]

theorem Row.IsFormed.append {row : Row} (formed : row.IsFormed) (text : String) :
    (row.append text).IsFormed :=
  formed.imp_right fun ⟨cell, isCell⟩ => ⟨cell ++ " " ++ text, by simp [Row.append, isCell, appendToLast]⟩

variable (foreign : watch.Foreign)

include foreign

/-- A comment is added at the end of the rows, and nothing is taken or written. -/
theorem addComment_holds (hold : RowsHold watch rows found) {comment : Comment} {page after : Page}
    {rows' : Rows} (outcome : rows.addComment comment watch.set page = .ok (rows', after)) :
    after = page ∧ RowsHold watch rows' (found ++ watch.marks comment.text) := by
  have asRow : ∀ {rows : Rows}, RowsHold watch rows found →
      RowsHold watch { rows with rows := Row.ofComment comment :: rows.rows }
        (found ++ watch.marks comment.text) :=
    fun hold => hold.cons (.inr ⟨comment.text, rfl⟩)
  obtain ⟨line, _, ⟨⟩, outcome⟩ := bind_eq_ok.mp outcome
  obtain ⟨stopLine, _, ⟨⟩, outcome⟩ := bind_eq_ok.mp outcome
  cases rowsEq : rows.rows with
  | nil =>
      rw [rowsEq] at outcome
      obtain ⟨rfl, rfl⟩ := Prod.mk.inj (Except.ok.inj outcome)
      exact ⟨rfl, (rowsEq ▸ asRow hold).endAt _⟩
  | cons last others =>
      rw [rowsEq] at outcome
      simp only at outcome
      split at outcome
      · next fits =>
        obtain ⟨rfl, rfl⟩ := Prod.mk.inj (Except.ok.inj outcome)
        have isOpen : last.isOpen := (Bool.and_eq_true_iff.mp fits).2
        have notEmpty : last.cells ≠ [] := by
          rintro isEmpty
          simp [Row.isOpen, isEmpty] at isOpen
        have formed : ∀ row ∈ last :: others, row.IsFormed := rowsEq ▸ hold.formed
        obtain ⟨lastFormed, othersFormed⟩ := List.forall_mem_cons.mp formed
        refine ⟨rfl, RowsHold.endAt ⟨?_, ?_⟩ _⟩
        · exact List.forall_mem_cons.mpr ⟨lastFormed.append _, othersFormed⟩
        · have marks : watch.marks (last.append comment.text).text =
              watch.marks last.text ++ watch.marks comment.text := by
            rw [(lastFormed.append _).marks_text foreign, lastFormed.marks_text foreign]
            exact allMarks_appendToLast foreign _ notEmpty
          simp [← hold.marks_eq, rowsEq, marks]
      · obtain ⟨rfl, rfl⟩ := Prod.mk.inj (Except.ok.inj outcome)
        exact ⟨rfl, (asRow (hold.gapBefore _)).endAt _⟩

theorem foldlM_addComment_holds {comments : List Comment} {page after : Page} {rows' : Rows}
    (hold : RowsHold watch rows found)
    (outcome : comments.foldlM Rows.addComment rows watch.set page = .ok (rows', after)) :
    after = page ∧ RowsHold watch rows' (found ++ watch.commentMarks comments) := by
  induction comments generalizing rows found page with
  | nil =>
      obtain ⟨rfl, rfl⟩ := Prod.mk.inj (Except.ok.inj outcome)
      exact ⟨rfl, by simpa using hold⟩
  | cons comment comments ih =>
      rw [List.foldlM_cons] at outcome
      obtain ⟨_, middle, isFirst, isRest⟩ := bind_eq_ok.mp outcome
      obtain ⟨samePage, first⟩ := addComment_holds foreign hold isFirst
      obtain ⟨samePage', others⟩ := ih first isRest
      exact ⟨samePage'.trans samePage, by simpa using others⟩

theorem addComments_gives {pos : Pos} (hold : RowsHold watch rows found)
    (isAsked : noPos < pos → watch.asked pos) :
    Gives watch found (rows.addComments pos) (RowsHold watch) := by
  refine .ite (fun _ => .pure hold) fun isPos => ?_
  refine .text (takeComments_gives (isAsked (by lia))) fun pending => ?_
  intro page value after _ outcome
  obtain ⟨rfl, hold⟩ := foldlM_addComment_holds foreign hold outcome
  exact ⟨rfl, [], .nothing _, by simpa using hold⟩

theorem beforeItem_gives {pos : Pos} (hold : RowsHold watch rows found)
    (isAsked : noPos < pos → watch.asked pos) :
    Gives watch found (rows.beforeItem pos) (RowsHold watch) :=
  .bind (addComments_gives foreign hold isAsked) fun _ _ hold => .lineOf (.pure (hold.gapBefore _))

theorem addItem_gives (hold : RowsHold watch rows found) (cells : List String) (stop : Pos) :
    Gives watch (found ++ watch.allMarks cells) (rows.addItem cells stop) (RowsHold watch) := by
  refine .lineOf (.pure (RowsHold.endAt ?_ _))
  exact marks_item foreign cells ▸ hold.cons (.inl rfl)

/-- The lines of rows. -/
theorem allMarks_linesFrom {list : List Row} (formed : ∀ row ∈ list, row.IsFormed)
    (run : List (List String)) :
    watch.allMarks (Rows.linesFrom run list) =
      watch.rowMarks run ++ watch.allMarks (list.map Row.text) := by
  fun_induction Rows.linesFrom run list with
  | case1 run => simp [foreign.align]
  | case2 run row rest isAligned ih =>
      obtain ⟨first, others⟩ := List.forall_mem_cons.mp formed
      simp [ih others, Watch.rowMarks, first.marks_text foreign]
  | case3 run row rest notAligned ih =>
      obtain ⟨first, others⟩ := List.forall_mem_cons.mp formed
      simp [ih others, Watch.rowMarks, foreign.align]

theorem close_gives {stop : Pos} (hold : RowsHold watch rows found)
    (isAsked : noPos < stop → watch.asked stop) :
    Gives watch found (rows.close stop) (Weighs watch.allMarks) := by
  refine .bind (addComments_gives foreign hold isAsked) fun rows found hold => .pure ?_
  have formed : ∀ row ∈ rows.rows.reverse, row.IsFormed :=
    fun row isRow => hold.formed row (List.mem_reverse.mp isRow)
  rw [Weighs, allMarks_linesFrom foreign formed, hold.marks_eq]
  rfl

end Rows

/-! ### Expressions -/

/-- Whether a text is printed with the marks of the comments that are taken for it. -/
abbrev GivesText (watch : Watch) (printed : Print String) : Prop :=
  Gives watch [] printed (Weighs watch.marks)

/-- Whether texts are printed with the marks of the comments that are taken for them. -/
abbrev GivesTexts (watch : Watch) (printed : Print (List String)) : Prop :=
  Gives watch [] printed (Weighs watch.allMarks)

/-- Whether the marks of an expression, and of the parts that are printed on their own, are kept in
every place. -/
structure KeepsExpr (watch : Watch) (value : Expr) : Prop where
  text : ∀ shared prec depth, GivesText watch (exprText shared prec depth value)
  pair : ∀ span key inner, value = .keyValue span key inner → ∀ depth,
    GivesText watch (exprText none 0 depth key) ∧ GivesText watch (exprText none 0 depth inner)
  signature : ∀ type, value = .funcType type → GivesText watch (signatureText type)
  start : noPos < value.span.start → watch.asked value.span.start

section Expressions

variable {watch : Watch} {held found : List Char}

theorem optionText_gives {value : Option Expr} (kept : ∀ inner ∈ value, KeepsExpr watch inner)
    (depth : Nat) : GivesText watch (optionText depth value) := by
  cases value with
  | none => exact .pure rfl
  | some inner => exact (kept inner rfl).text _ _ _

theorem exprTexts_gives {values : List Expr} (kept : ∀ value ∈ values, KeepsExpr watch value)
    (depth : Nat) : GivesTexts watch (exprTexts depth values) := by
  induction values with
  | nil => exact .pure rfl
  | cons value values ih =>
      obtain ⟨first, others⟩ := List.forall_mem_cons.mp kept
      exact .text (first.text _ _ _) fun text => .text (ih others) fun texts => .pure rfl

/-- What holds of the elements of a list as far as they are printed.  A group that is live goes on
with the next element, and is not yet among the rows. -/
structure ElementsHold (watch : Watch) (isLive : Bool) (state : ElementState) (found : List Char) :
    Prop where
  formed : ∀ row ∈ state.rows.rows, row.IsFormed
  marks_eq : watch.marks state.first ++ watch.allMarks (state.rows.rows.reverse.map Row.text) ++
    (if isLive then watch.allMarks state.group else []) = found
  opened : state.onOpenLine → state.rows.rows = [] ∧ (isLive → state.first = "")
  unopened : state.line = none → state.first = "" ∧ state.rows.rows = []

/-- Whether the next element goes on the last group. -/
def ElementState.isLive (set : Option FileSet) (state : ElementState) (elems : List Expr) : Bool :=
  elems.head?.any fun elem => state.line = some (lineIn set elem.span.start)

variable (foreign : watch.Foreign)

include foreign

theorem enter_gives {state : ElementState} {plan : ElementPlan} {pos : Pos} {line : Nat}
    (hold : ElementsHold watch (state.line = some line) state found)
    (isAsked : noPos < pos → watch.asked pos) :
    Gives watch found (state.enter plan pos line) fun entered found =>
      ElementsHold watch true entered found ∧ entered.line = some line ∧
        (state.line ≠ some line → entered.group = []) := by
  refine .ite (fun goesOn => .pure ?_) fun begins => .ite (fun opens => .pure ?_) fun _ => ?_
  · rw [decide_eq_true goesOn] at hold
    exact ⟨hold, goesOn, absurd goesOn⟩
  · have isNone : state.line = none := by simpa using (Bool.and_eq_true_iff.mp opens).1
    obtain ⟨noFirst, noRows⟩ := hold.unopened isNone
    have marksEq := hold.marks_eq
    rw [decide_eq_false begins] at marksEq
    exact ⟨⟨hold.formed, by simpa using marksEq, fun _ => ⟨noRows, fun _ => noFirst⟩, by simp⟩, rfl,
      fun _ => rfl⟩
  · have marksEq := hold.marks_eq
    rw [decide_eq_false begins] at marksEq
    simp only [Bool.false_eq_true, ↓reduceIte, List.append_nil] at marksEq
    have before := (beforeItem_gives foreign ⟨hold.formed, rfl⟩ isAsked).frame (watch.marks state.first)
    rw [marksEq] at before
    refine before.bind fun rows found isFound => .pure ?_
    obtain ⟨own, rowsHold, rfl⟩ := isFound
    exact ⟨⟨rowsHold.formed, by simp [← rowsHold.marks_eq], by simp, by simp⟩, rfl, fun _ => rfl⟩

/-- A group ends. -/
theorem leave_gives {state : ElementState} {cells : List String} {more : List Char} {line : Nat}
    (stop : Pos) (hold : ElementsHold watch true state found) (lineEq : state.line = some line)
    (cellsEq : watch.allMarks cells = watch.allMarks state.group ++ more) :
    Gives watch (found ++ more) (state.leave cells stop) fun left found =>
      ElementsHold watch false left found ∧ left.line = some line := by
  have marksEq := hold.marks_eq
  have notNone : state.line ≠ none := by simp [lineEq]
  refine .ite (fun isOpen => .lineOf (.pure ⟨⟨hold.formed, ?_, ?_, ?_⟩, lineEq⟩)) fun notOpen => ?_
  · obtain ⟨noRows, noFirst⟩ := hold.opened isOpen
    simp only [noRows, noFirst rfl] at marksEq ⊢
    simp [← marksEq, foreign.joined, cellsEq]
  · exact fun _ => ⟨(hold.opened isOpen).1, by simp⟩
  · exact fun isNone => absurd isNone notNone
  · have added := (addItem_gives foreign ⟨hold.formed, rfl⟩ cells stop).frame
      (watch.marks state.first)
    have heldEq : found ++ more = watch.marks state.first ++
        (watch.allMarks (state.rows.rows.reverse.map Row.text) ++ watch.allMarks cells) := by
      simp [← marksEq, cellsEq]
    rw [heldEq]
    refine added.bind fun rows found isFound => .pure ?_
    obtain ⟨own, rowsHold, rfl⟩ := isFound
    exact ⟨⟨rowsHold.formed, by simp [← rowsHold.marks_eq], fun isOpen => absurd isOpen notOpen,
      fun isNone => absurd isNone notNone⟩, lineEq⟩

theorem marks_suffix {plan : ElementPlan} (plain : watch.marks plan.spread = []) (isLast : Bool) :
    watch.marks (ElementState.suffix plan isLast) = [] := by
  unfold ElementState.suffix
  split
  · split <;> simp [plain, foreign.plain "," rfl]
  · exact foreign.plain "," rfl

/-- An element that is printed as one text. -/
theorem element_gives {state : ElementState} {elem : Expr} {suffix : String} {line : Nat}
    (plan : ElementPlan) (isLast : Bool) (kept : KeepsExpr watch elem)
    (plain : watch.marks suffix = []) (hold : ElementsHold watch true state found)
    (lineEq : state.line = some line) :
    Gives watch found (do
        let texts := state.group ++ [← exprText none 0 plan.depth elem]
        if isLast then
          state.leave [commas texts ++ suffix] elem.span.stop
        else
          return { state with group := texts })
      fun state found => ElementsHold watch (!isLast) state found ∧ state.line = some line := by
  refine .text (kept.text _ _ _) fun text => .ite (fun isTrue => ?_) fun isFalse => .pure ?_
  · rw [isTrue]
    exact leave_gives foreign _ hold lineEq (by simp [foreign.commas, plain])
  · rw [Bool.eq_false_iff.mpr isFalse]
    refine ⟨⟨hold.formed, ?_, fun isOpen => ?_, hold.unopened⟩, lineEq⟩
    · simp [← hold.marks_eq]
    · exact hold.opened isOpen

theorem elementRows_gives {elems : List Expr} (kept : ∀ elem ∈ elems, KeepsExpr watch elem)
    {plan : ElementPlan} (plain : watch.marks plan.spread = []) {state : ElementState}
    (hold : ElementsHold watch (state.isLive watch.set elems) state found) :
    Gives watch found (elementRows plan state elems) (ElementsHold watch false) := by
  induction elems generalizing state found with
  | nil => exact .pure hold
  | cons elem elems ih =>
      obtain ⟨first, others⟩ := List.forall_mem_cons.mp kept
      rw [elementRows]
      refine .lineOf (.bind (enter_gives foreign hold first.start) fun entered found isEntered => .read ?_)
      obtain ⟨enteredHold, lineEq, isEmpty⟩ := isEntered
      generalize isLastEq : (!(elems.head?.any fun next =>
        decide (lineIn watch.set next.span.start = lineIn watch.set elem.span.start))) = isLast
      have rest : ∀ left found, ElementsHold watch (!isLast) left found ∧
          left.line = some (lineIn watch.set elem.span.start) →
            Gives watch found (elementRows plan left elems) (ElementsHold watch false) := by
        rintro left found ⟨leftHold, leftLine⟩
        refine ih others ?_
        have isLiveEq : left.isLive watch.set elems = !isLast := by
          simp [← isLastEq, ElementState.isLive, leftLine, eq_comm]
        rwa [isLiveEq]
      have suffixPlain := marks_suffix foreign plain elems.isEmpty
      have whole := element_gives foreign plan isLast first suffixPlain enteredHold lineEq
      cases elem with
      | keyValue span key value =>
          refine .ite (fun alone => ?_) fun _ => whole.bind rest
          simp only [Bool.and_eq_true, decide_eq_true_eq] at alone
          obtain ⟨⟨-, isFirst⟩, isTrue⟩ := alone
          rw [isTrue] at rest
          refine .text (first.pair _ _ _ rfl _).1 fun keyText =>
            .text (first.pair _ _ _ rfl _).2 fun valueText => ?_
          rw [List.append_assoc]
          refine (leave_gives foreign _ enteredHold lineEq ?_).bind rest
          simp [isEmpty isFirst, foreign.plain ":" rfl, suffixPlain]
      | _ => exact whole.bind rest

/-- Lines after an opening bracket. -/
theorem allMarks_body (indent : Nat) (lines : List String) :
    watch.marks (String.join (lines.map fun line =>
      if line.isEmpty then "\n" else "\n" ++ tabs (indent + 1) ++ line)) = watch.allMarks lines := by
  induction lines with
  | nil => rfl
  | cons line lines ih =>
      rw [List.map_cons, String.join_cons, watch.marks_append, ih, watch.allMarks_cons]
      split
      · next isEmpty =>
          obtain rfl : line = "" := by simpa using isEmpty
          simp [foreign.plain "\n" rfl]
      · simp [foreign.plain "\n" rfl, foreign.tabs]

theorem bracketed_gives {brackets : Brackets} {elems : List Expr} {texts : Print (List String)}
    {rows : ElementPlan → ElementState → Print ElementState} (textsKept : GivesTexts watch texts)
    (rowsKept : ∀ plan state, watch.marks plan.spread = [] → ElementsHold watch false state [] →
      state.line = none → Gives watch [] (rows plan state) (ElementsHold watch false))
    (opening : watch.marks brackets.opening = []) (closing : watch.marks brackets.closing = [])
    (isAsked : noPos < brackets.closePos → watch.asked brackets.closePos) :
    GivesText watch (bracketed brackets elems texts rows) := by
  have spreadPlain : watch.marks (if brackets.spread then "..." else "") = [] := by
    split
    · exact foreign.plain "..." rfl
    · rfl
  unfold bracketed
  split
  · exact .pure (by simp [Weighs, opening, closing])
  · refine .read (.ite (fun _ => ?_) fun _ => ?_)
    · refine .text textsKept fun texts => .pure ?_
      simp [Weighs, opening, closing, spreadPlain, foreign.commas]
    · have inner : ∀ plan : ElementPlan, watch.marks plan.spread = [] → ∀ prevLine,
          Gives watch [] (nested do
            let state ← rows plan { rows := { prevLine } }
            return (state.first, ← state.rows.close brackets.closePos))
          (Weighs fun pair : String × List String => watch.marks pair.1 ++ watch.allMarks pair.2) := by
        intro plan plain prevLine
        refine .nested (.bind (rowsKept _ _ plain ⟨by simp, rfl, by simp, by simp⟩ rfl) fun state found hold => ?_)
        have closed := (close_gives foreign ⟨hold.formed, rfl⟩ isAsked).frame (watch.marks state.first)
        have foundEq := hold.marks_eq
        simp only [Bool.false_eq_true, ↓reduceIte, List.append_nil] at foundEq
        rw [foundEq] at closed
        refine closed.bind fun lines found isFound => .pure ?_
        obtain ⟨own, isOwn, rfl⟩ := isFound
        exact congrArg (watch.marks state.first ++ ·) isOwn
      refine .text (inner _ spreadPlain _) fun pair => .get fun page => .pure ?_
      simp only [Weighs, watch.marks_append, allMarks_body foreign, opening, closing]
      split <;> simp [foreign.plain "\n" rfl, foreign.tabs]

/-- A list of elements in brackets. -/
theorem elements_gives {brackets : Brackets} {elems : List Expr} (depth : Nat)
    (kept : ∀ elem ∈ elems, KeepsExpr watch elem)
    (opening : watch.marks brackets.opening = []) (closing : watch.marks brackets.closing = [])
    (isAsked : noPos < brackets.closePos → watch.asked brackets.closePos) :
    GivesText watch (bracketed brackets elems (exprTexts depth elems)
      fun plan state => elementRows plan state elems) := by
  refine bracketed_gives foreign (exprTexts_gives kept _) (fun plan state plain hold isNone => ?_)
    opening closing isAsked
  refine elementRows_gives foreign kept plain ?_
  have notLive : state.isLive watch.set elems = false := by simp [ElementState.isLive, isNone]
  rwa [notLive]

/-! ### Types -/

/-- Whether the marks of a field are kept. -/
structure KeepsField (watch : Watch) (field : Field) : Prop where
  names : ∀ name ∈ field.names, watch.marks name.name = []
  type : KeepsExpr watch field.type
  tag : ∀ tag ∈ field.tag, watch.marks tag.value = []
  start : noPos < field.span.start → watch.asked field.span.start

theorem marks_nameList {names : List Ident} (plain : ∀ name ∈ names, watch.marks name.name = []) :
    watch.marks (nameList names) = [] := by
  rw [nameList, foreign.commas, Watch.allMarks, List.flatMap_map]
  exact List.flatMap_eq_nil_iff.mpr plain

theorem paramTexts_gives {fields : List Field} (kept : ∀ field ∈ fields, KeepsField watch field) :
    GivesTexts watch (paramTexts fields) := by
  induction fields with
  | nil => exact .pure rfl
  | cons field fields ih =>
      obtain ⟨first, others⟩ := List.forall_mem_cons.mp kept
      obtain ⟨span, names, type, tag⟩ := field
      refine .text (first.type.text _ _ _) fun typeText => .text (ih others) fun texts => .pure ?_
      rw [Weighs, watch.allMarks_cons]
      split <;> simp [marks_nameList foreign first.names, foreign.plain " " rfl]

theorem paramsText_gives {list : FieldList} (kept : ∀ field ∈ list.fields, KeepsField watch field) :
    GivesText watch (paramsText list) := by
  obtain ⟨span, fields⟩ := list
  exact .text (paramTexts_gives foreign kept) fun texts => .pure (foreign.commas texts)

theorem signatureText_gives {type : FuncType}
    (paramsKept : ∀ field ∈ type.params.fields, KeepsField watch field)
    (resultsKept : ∀ list ∈ type.results, ∀ field ∈ list.fields, KeepsField watch field) :
    GivesText watch (signatureText type) := by
  obtain ⟨span, params, results⟩ := type
  rw [signatureText]
  refine .text (paramsText_gives foreign paramsKept) fun paramsText => ?_
  cases results with
  | none => exact .pure (by simp [Weighs, foreign.plain "(" rfl, foreign.plain ")" rfl])
  | some list =>
      have fieldsKept := resultsKept list rfl
      obtain ⟨span, fields⟩ := list
      cases fields with
      | nil => exact .pure (by simp [Weighs, foreign.plain "(" rfl, foreign.plain ")" rfl])
      | cons field fields =>
          refine .text (paramTexts_gives foreign fieldsKept) fun texts => .pure ?_
          simp [Weighs, foreign.plain "(" rfl, foreign.plain ")" rfl, foreign.plain " " rfl, foreign.inParens,
            foreign.commas]

theorem fieldRows_gives {fields : List Field} (kept : ∀ field ∈ fields, KeepsField watch field)
    (isStruct : Bool) {rows : Rows} (hold : RowsHold watch rows found) :
    Gives watch found (fieldRows isStruct rows fields) (RowsHold watch) := by
  induction fields generalizing rows found with
  | nil => exact .pure hold
  | cons field fields ih =>
      obtain ⟨first, others⟩ := List.forall_mem_cons.mp kept
      obtain ⟨span, names, type, tag⟩ := field
      have rest : ∀ {rows : Rows} {found : List Char} (cells : List String) {more : List Char}, RowsHold watch rows found →
          watch.allMarks cells = more → Gives watch (found ++ more) (do
            let rows ← Rows.addItem rows cells span.stop
            fieldRows isStruct rows fields) (RowsHold watch) := by
        rintro rows found cells _ hold rfl
        exact (addItem_gives foreign hold cells _).bind fun _ _ hold => ih others hold
      rw [fieldRows]
      refine .bind (beforeItem_gives foreign hold first.start) fun rows found hold => ?_
      refine .ite (fun _ => .text (first.type.text _ _ _) fun typeText => rest _ hold ?_) fun _ => ?_
      · have tagPlain : watch.allMarks (tag.toList.map (·.value)) = [] := by
          simpa [Watch.allMarks, List.flatMap_eq_nil_iff] using first.tag
        split <;> simp [tagPlain, marks_nameList foreign first.names]
      cases type with
      | funcType method =>
          refine .text (first.type.signature _ rfl) fun text => rest _ hold ?_
          cases names with
          | nil => simp [foreign.plain "func" rfl]
          | cons name names => simp [first.names name List.mem_cons_self]
      | _ => exact .text (first.type.text _ _ _) fun text => rest _ hold (by simp)

theorem fieldBlock_gives {list : FieldList} (kept : ∀ field ∈ list.fields, KeepsField watch field)
    {keyword : String} (plain : watch.marks keyword = []) (isStruct : Bool)
    (isAsked : noPos < list.span.stop - 1 → watch.asked (list.span.stop - 1)) :
    GivesText watch (fieldBlock keyword isStruct list) := by
  obtain ⟨span, fields⟩ := list
  refine .ite (fun _ => .pure (by simp [Weighs, plain, foreign.plain "\x7b\x7d" rfl])) fun _ => ?_
  have inner : GivesTexts watch (nested do
      let rows ← fieldRows isStruct { prevLine := ← lineOf span.start } fields
      rows.close (span.stop - 1)) :=
    .nested (.lineOf (.bind (fieldRows_gives foreign kept isStruct ⟨by simp, rfl⟩) fun _ _ hold =>
      close_gives foreign hold isAsked))
  refine .text inner fun lines => .get fun page => .pure ?_
  simp only [Weighs, watch.marks_append, allMarks_body foreign, plain]
  simp [foreign.plain " \x7b" rfl, foreign.plain "\n" rfl, foreign.plain "\x7d" rfl, foreign.tabs]

end Expressions

end Layout

end GoMend
