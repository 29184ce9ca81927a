import GoMend.Proofs.Layout.Legible

/-!
# Neat pages

A page is neat when its lines are legible, with single empty lines between some of them, and when its
comments stand on one line each.  Printing keeps a page neat, and the texts that it gives are
legible.  An empty line may wait at the end of a page or of rows for what is printed next.
-/

namespace GoMend

namespace Layout

/-! ### Pages -/

/-- A page to which a line can be added. -/
structure NeatPage (page : Page) : Prop where
  lines : Awaits Legible "" page.lines
  comments : ∀ comment ∈ page.comments, IsLine comment.text.toList

/-- A page that ends with a line that shows something. -/
structure FullPage (page : Page) : Prop where
  lines : Spaced Legible "" page.lines
  comments : ∀ comment ∈ page.comments, IsLine comment.text.toList

theorem FullPage.neat {page : Page} (isFull : FullPage page) : NeatPage page :=
  ⟨.begun (.spaced isFull.lines), isFull.comments⟩

section Judgements

variable {α β : Type} {set : Option FileSet} {printed : Print α} {next : α → Print β}
  {has : α → Prop} {has' : β → Prop}

/-- Whether printing leaves a neat page neat and gives values of a kind. -/
def Neatly (set : Option FileSet) (printed : Print α) (has : α → Prop) : Prop :=
  ∀ page value after, NeatPage page → printed set page = .ok (value, after) →
    NeatPage after ∧ has value

/-- Whether printing leaves a neat page neat. -/
abbrev KeepsNeat (set : Option FileSet) (printed : Print α) : Prop :=
  Neatly set printed fun _ => True

/-- Whether printing ends a neat page with a line that shows something. -/
def Fills (set : Option FileSet) (printed : Print α) : Prop :=
  ∀ page value after, NeatPage page → printed set page = .ok (value, after) → FullPage after

/-- Whether a page that ends with a line that shows something still does so after printing. -/
def StaysFull (set : Option FileSet) (printed : Print α) : Prop :=
  ∀ page value after, FullPage page → printed set page = .ok (value, after) → FullPage after

namespace Neatly

theorem pure {value : α} (here : has value) : Neatly set (Pure.pure value) has := by
  rintro page _ _ isNeat ⟨⟩
  exact ⟨isNeat, here⟩

theorem bind (first : Neatly set printed has) (rest : ∀ value, has value → Neatly set (next value) has') :
    Neatly set (printed >>= next) has' := by
  intro page value after isNeat outcome
  obtain ⟨given, middle, isFirst, isRest⟩ := bind_eq_ok.mp outcome
  obtain ⟨middleNeat, isHas⟩ := first _ _ _ isNeat isFirst
  exact rest given isHas _ _ _ middleNeat isRest

/-- A value that is known. -/
theorem known {value : α} (rest : Neatly set (next value) has') :
    Neatly set (Pure.pure value >>= next) has' :=
  rest

theorem read {next : Option FileSet → Print β} (rest : Neatly set (next set) has') :
    Neatly set (MonadReader.read >>= next) has' :=
  rest

theorem lineOf {pos : Pos} {next : Nat → Print β} (rest : Neatly set (next (lineIn set pos)) has') :
    Neatly set (Layout.lineOf pos >>= next) has' :=
  rest

theorem get {next : Page → Print β} (rest : ∀ page : Page, NeatPage page → Neatly set (next page) has') :
    Neatly set (MonadState.get >>= next) has' :=
  fun page value after isNeat outcome => rest page isNeat page value after isNeat outcome

theorem ite {condition : Prop} [Decidable condition] {first second : Print α}
    (firstOk : condition → Neatly set first has) (secondOk : ¬ condition → Neatly set second has) :
    Neatly set (if condition then first else second) has := by
  split
  · next holds => exact firstOk holds
  · next fails => exact secondOk fails

theorem mono {has' : α → Prop} (neatly : Neatly set printed has) (within : ∀ value, has value → has' value) :
    Neatly set printed has' := by
  intro page value after isNeat outcome
  obtain ⟨afterNeat, isHas⟩ := neatly _ _ _ isNeat outcome
  exact ⟨afterNeat, within value isHas⟩

theorem of_fills (fills : Fills set printed) : KeepsNeat set printed :=
  fun page value after isNeat outcome => ⟨(fills page value after isNeat outcome).neat, trivial⟩

/-- A printing that fails leaves nothing. -/
theorem throw (error : PrintError) : Neatly set (MonadExcept.throw error) has :=
  fun _ _ _ _ => nofun

/-- A change that leaves the lines and the comments of a page. -/
theorem modify {change : Page → Page} (sameLines : ∀ page, (change page).lines = page.lines)
    (sameComments : ∀ page, (change page).comments = page.comments) :
    KeepsNeat set (MonadState.modifyGet fun page => ((), change page)) := by
  rintro page _ _ isNeat ⟨⟩
  exact ⟨⟨(sameLines page).symm ▸ isNeat.lines, (sameComments page).symm ▸ isNeat.comments⟩, trivial⟩

theorem nested (inner : Neatly set printed has) : Neatly set (nested printed) has :=
  .bind (.modify (fun _ => rfl) fun _ => rfl) fun _ _ => .bind inner fun _ isHas =>
    .bind (.modify (fun _ => rfl) fun _ => rfl) fun _ _ => .pure isHas

/-- Printing one item after the other. -/
theorem forM {action : α → Print PUnit} {items : List α}
    (each : ∀ item ∈ items, KeepsNeat set (action item)) : KeepsNeat set (items.forM action) := by
  induction items with
  | nil => exact pure trivial
  | cons item items ih =>
      obtain ⟨first, others⟩ := List.forall_mem_cons.mp each
      exact bind first fun _ _ => ih others

/-- Adding one item after the other to what is under construction. -/
theorem foldlM {step : β → α → Print β} {items : List α} {start : β} (isStart : has' start)
    (each : ∀ item ∈ items, ∀ value, has' value → Neatly set (step value item) has') :
    Neatly set (items.foldlM step start) has' := by
  induction items generalizing start with
  | nil => exact pure isStart
  | cons item items ih =>
      obtain ⟨first, others⟩ := List.forall_mem_cons.mp each
      exact bind (first start isStart) fun _ isNext => ih isNext others

end Neatly

namespace Fills

theorem bind (first : Neatly set printed has) (rest : ∀ value, has value → Fills set (next value)) :
    Fills set (printed >>= next) := by
  intro page value after isNeat outcome
  obtain ⟨given, middle, isFirst, isRest⟩ := bind_eq_ok.mp outcome
  obtain ⟨middleNeat, isHas⟩ := first _ _ _ isNeat isFirst
  exact rest given isHas _ _ _ middleNeat isRest

theorem before (first : Fills set printed) (rest : ∀ value, StaysFull set (next value)) :
    Fills set (printed >>= next) := by
  intro page value after isNeat outcome
  obtain ⟨given, middle, isFirst, isRest⟩ := bind_eq_ok.mp outcome
  exact rest given _ _ _ (first _ _ _ isNeat isFirst) isRest

theorem lineOf {pos : Pos} {next : Nat → Print β} (rest : Fills set (next (lineIn set pos))) :
    Fills set (Layout.lineOf pos >>= next) :=
  rest

theorem get {next : Page → Print β} (rest : ∀ page, Fills set (next page)) :
    Fills set (MonadState.get >>= next) :=
  fun page => rest page page

theorem ite {condition : Prop} [Decidable condition] {first second : Print α}
    (firstOk : condition → Fills set first) (secondOk : ¬ condition → Fills set second) :
    Fills set (if condition then first else second) := by
  split
  · next holds => exact firstOk holds
  · next fails => exact secondOk fails

theorem throw (error : PrintError) : Fills set (MonadExcept.throw error : Print α) :=
  fun _ _ _ _ => nofun

theorem nested (inner : Fills set printed) : Fills set (nested printed) := by
  refine .bind (.modify (fun _ => rfl) fun _ => rfl) fun _ _ => .before inner fun value => ?_
  rintro page _ _ isFull ⟨⟩
  exact ⟨isFull.lines, isFull.comments⟩

end Fills

namespace StaysFull

theorem pure (value : α) : StaysFull set (Pure.pure value) := by
  rintro page _ _ isFull ⟨⟩
  exact isFull

theorem of_fills (fills : Fills set printed) : StaysFull set printed :=
  fun page value after isFull outcome => fills page value after isFull.neat outcome

theorem bind (first : StaysFull set printed) (rest : ∀ value, StaysFull set (next value)) :
    StaysFull set (printed >>= next) := by
  intro page value after isFull outcome
  obtain ⟨given, middle, isFirst, isRest⟩ := bind_eq_ok.mp outcome
  exact rest given _ _ _ (first _ _ _ isFull isFirst) isRest

/-- Printing one item after the other. -/
theorem forM {action : α → Print PUnit} {items : List α}
    (each : ∀ item ∈ items, StaysFull set (action item)) : StaysFull set (items.forM action) := by
  induction items with
  | nil => exact pure _
  | cons item items ih =>
      obtain ⟨first, others⟩ := List.forall_mem_cons.mp each
      exact bind first fun _ => ih others

end StaysFull

/-- The lines that are written apart from the page, if they end with one that shows something. -/
theorem capture_neatly {inner : Print Unit} (fills : Fills set inner) :
    Neatly set (capture inner) (Spaced Legible "") := by
  intro page value after isNeat outcome
  obtain ⟨_, _, ⟨⟩, outcome⟩ := bind_eq_ok.mp outcome
  obtain ⟨_, _, ⟨⟩, outcome⟩ := bind_eq_ok.mp outcome
  obtain ⟨_, middle, isInner, outcome⟩ := bind_eq_ok.mp outcome
  obtain ⟨_, _, ⟨⟩, outcome⟩ := bind_eq_ok.mp outcome
  obtain ⟨_, _, ⟨⟩, ⟨⟩⟩ := bind_eq_ok.mp outcome
  have middleFull := fills { page with lines := [] } _ _ ⟨.begun .nothing, isNeat.comments⟩ isInner
  exact ⟨⟨isNeat.lines, middleFull.comments⟩, middleFull.lines.reverse⟩

end Judgements

/-! ### Lines and comments -/

section Lines

variable {set : Option FileSet}

theorem emit_fills {text : String} (legible : Legible text) : Fills set (emit text) := by
  rintro page _ _ isNeat ⟨⟩
  exact ⟨isNeat.lines.cons (legible.indented _), isNeat.comments⟩

theorem emitOutdented_fills {text : String} (legible : Legible text) : Fills set (emitOutdented text) := by
  rintro page _ _ isNeat ⟨⟩
  exact ⟨isNeat.lines.cons (legible.indented _), isNeat.comments⟩

theorem emit_neatly {text : String} (legible : Legible text) : KeepsNeat set (emit text) :=
  .of_fills (emit_fills legible)

theorem blankLine_neatly : KeepsNeat set blankLine := by
  rintro page _ _ isNeat ⟨⟩
  obtain ⟨lines, comments⟩ := isNeat
  refine ⟨?_, trivial⟩
  simp only
  split
  · exact ⟨lines, comments⟩
  next last rest linesEq =>
  split
  · exact ⟨lines, comments⟩
  · next notEmpty =>
    refine ⟨?_, comments⟩
    rw [linesEq] at lines ⊢
    cases lines with
    | waiting => simp at notEmpty
    | begun begun =>
        cases begun with
        | spaced spaced => exact .waiting spaced

theorem blankLineBefore_neatly (line : Nat) : KeepsNeat set (blankLineBefore line) :=
  .get fun _ _ => .ite (fun _ => blankLine_neatly) fun _ => .pure trivial

theorem finish_neatly (pos : Pos) : KeepsNeat set (finish pos) :=
  .lineOf (.ite (fun _ => .modify (fun _ => rfl) fun _ => rfl) fun _ => .pure trivial)

theorem finish_staysFull (pos : Pos) : StaysFull set (finish pos) := by
  intro page value after isFull outcome
  obtain ⟨_, _, ⟨⟩, outcome⟩ := bind_eq_ok.mp outcome
  split at outcome
  · obtain ⟨-, rfl⟩ := Prod.mk.inj (Except.ok.inj outcome)
    exact ⟨isFull.lines, isFull.comments⟩
  · obtain ⟨-, rfl⟩ := Prod.mk.inj (Except.ok.inj outcome)
    exact isFull

theorem takeComments_neatly (pos : Pos) : Neatly set (takeComments pos)
    fun comments => ∀ comment ∈ comments, IsLine comment.text.toList := by
  intro page value after isNeat outcome
  obtain ⟨_, _, ⟨⟩, outcome⟩ := bind_eq_ok.mp outcome
  obtain ⟨_, _, ⟨⟩, ⟨⟩⟩ := bind_eq_ok.mp outcome
  refine ⟨⟨isNeat.lines, fun comment isComment => ?_⟩, fun comment isComment => ?_⟩
  · exact isNeat.comments comment ((List.dropWhile_suffix _).subset isComment)
  · exact isNeat.comments comment ((List.takeWhile_prefix _).subset isComment)

/-- A comment on the last line, if that shows something, or on a line of its own. -/
theorem appendOr_fills {text : String} {isFit : Bool} {tail other : Print Unit} (isLine : IsLine text.toList)
    (tailStays : StaysFull set tail) (otherFills : Fills set other) :
    Fills set (do
      if (← hasOpenLine) && isFit then
        appendToLine text
        tail
      else
        other) := by
  intro page value after isNeat outcome
  obtain ⟨isOpen, middle, isFirst, outcome⟩ := bind_eq_ok.mp outcome
  obtain ⟨rfl, rfl⟩ := Prod.mk.inj (Except.ok.inj isFirst)
  split at outcome
  · next fits =>
    obtain ⟨_, _, isAppend, outcome⟩ := bind_eq_ok.mp outcome
    refine tailStays _ _ _ ?_ outcome
    obtain ⟨-, rfl⟩ := Prod.mk.inj (Except.ok.inj isAppend)
    obtain ⟨lines, comments⟩ := isNeat
    cases linesEq : page.lines with
    | nil => simp [linesEq] at fits
    | cons last rest =>
      rw [linesEq] at lines
      cases lines with
      | waiting => simp [linesEq] at fits
      | begun begun =>
          cases begun with
          | spaced spaced =>
              obtain ⟨_, _, isFirst, legible⟩ := spaced.exists_cons
              obtain ⟨rfl, rfl⟩ := List.cons.inj isFirst
              simp only [linesEq]
              refine ⟨spaced.withFirst ?_, comments⟩
              exact (legible.append (fair_plain " " rfl)).append isLine.legible.fair
  · exact otherFills _ _ _ isNeat outcome

theorem leadingComment_fills {comment : Comment} (isLine : IsLine comment.text.toList) :
    Fills set (leadingComment comment) := by
  refine .lineOf (.get fun page => ?_)
  simp only [Bool.and_assoc]
  exact appendOr_fills isLine (finish_staysFull _) (.bind (blankLineBefore_neatly _) fun _ _ =>
    .before (emit_fills isLine.legible) fun _ => finish_staysFull _)

theorem trailingComment_fills {comment : Comment} (isLine : IsLine comment.text.toList) :
    Fills set (trailingComment comment) := by
  have tail : StaysFull set (do
      let stopLine ← lineOf comment.span.stop
      modify fun page => { page with lastLine := stopLine }) := by
    rintro page _ _ isFull ⟨⟩
    exact ⟨isFull.lines, isFull.comments⟩
  have written : Fills set (do
      emit comment.text
      let stopLine ← lineOf comment.span.stop
      modify fun page => { page with lastLine := stopLine }) :=
    .before (emit_fills isLine.legible) fun _ => tail
  refine .lineOf (.get fun page => ?_)
  simp only [Bool.and_assoc]
  exact appendOr_fills isLine tail (.ite (fun _ => .bind blankLine_neatly fun _ _ => written)
    fun _ => written)

/-- What precedes a node is written neatly. -/
theorem advance_neatly (pos : Pos) (separate : Bool) : KeepsNeat set (advance pos separate) := by
  refine .ite (fun _ => .pure trivial) fun _ => .bind (takeComments_neatly pos) fun pending areLines => ?_
  have rest : KeepsNeat set (do
      pending.forM leadingComment
      if !pending.isEmpty then
        blankLineBefore (← lineOf pos)) :=
    .bind (.forM fun comment isComment => .of_fills (leadingComment_fills (areLines comment isComment)))
      fun _ _ => .ite (fun _ => .lineOf (blankLineBefore_neatly _)) fun _ => .pure trivial
  exact .ite (fun _ => .bind blankLine_neatly fun _ _ => rest) fun _ =>
    .lineOf (.bind (blankLineBefore_neatly _) fun _ _ => rest)

end Lines

/-! ### Rows -/

/-- A row that shows something. -/
structure LegibleRow (row : Row) : Prop where
  cells : LegibleCells row.cells
  formed : row.IsFormed

theorem legibleRow_item {cells : List String} (legible : LegibleCells cells) :
    LegibleRow ⟨true, cells⟩ :=
  ⟨legible, .inl rfl⟩

theorem LegibleCells.singleton {cell : String} (legible : Legible cell) : LegibleCells [cell] :=
  ⟨List.forall_mem_singleton.mpr legible.fair, cell, List.mem_singleton_self _, legible.inked⟩

theorem legibleRow_comment {comment : Comment} (isLine : IsLine comment.text.toList) :
    LegibleRow (.ofComment comment) :=
  ⟨.singleton isLine.legible, .inr ⟨comment.text, rfl⟩⟩

theorem LegibleRow.text {row : Row} (legible : LegibleRow row) : Legible row.text := by
  obtain ⟨isItem, cells⟩ := row
  cases isItem with
  | true => exact legible.cells.filter.joined
  | false =>
      obtain isItem | ⟨cell, rfl⟩ := legible.formed
      · cases isItem
      · obtain ⟨_, isCell, inked⟩ := legible.cells.inked
        obtain rfl := List.mem_singleton.mp isCell
        exact (legible.cells.fair _ isCell).legible inked

theorem LegibleCells.appendToLast {cells : List String} (legible : LegibleCells cells) {text : String}
    (isLine : IsLine text.toList) : LegibleCells (Row.appendToLast text cells) := by
  obtain ⟨fair, inked⟩ := legible
  constructor
  · clear inked
    fun_induction Row.appendToLast text cells with
    | case1 => exact fair
    | case2 cell =>
        rw [List.forall_mem_singleton] at fair ⊢
        exact (fair.append (fair_plain " " rfl)).append isLine.legible.fair
    | case3 cell second cells ih =>
        obtain ⟨first, others⟩ := List.forall_mem_cons.mp fair
        exact List.forall_mem_cons.mpr ⟨first, ih others⟩
  · clear fair
    fun_induction Row.appendToLast text cells with
    | case1 => exact inked
    | case2 cell =>
        refine ⟨_, List.mem_singleton_self _, ?_⟩
        rw [String.toList_append]
        exact isLine.inked.append_right _
    | case3 cell second cells ih =>
        rw [List.exists_mem_cons_iff] at inked ⊢
        exact inked.imp_right ih

/-- Rows that are begun. -/
abbrev BegunRows (rows : Rows) : Prop :=
  Begun LegibleRow .blank rows.rows

/-- Rows to which one can be added. -/
abbrev AwaitingRows (rows : Rows) : Prop :=
  Awaits LegibleRow .blank rows.rows

section Rows

variable {set : Option FileSet} {rows : Rows}

theorem rows_endAt (rows : Rows) (line : Nat) : (rows.endAt line).rows = rows.rows := by
  unfold Rows.endAt
  split <;> rfl

theorem AwaitingRows.gapBefore (begun : BegunRows rows) (line : Nat) :
    AwaitingRows (rows.gapBefore line) := by
  unfold Rows.gapBefore
  split
  · next isDue =>
    have notEmpty : rows.rows ≠ [] := by
      rintro isEmpty
      simp [isEmpty] at isDue
    exact .waiting (begun.spaced_of_ne notEmpty)
  · exact .begun begun

/-- A comment is added as a row or to the last one. -/
theorem addComment_neatly {comment : Comment} (isLine : IsLine comment.text.toList)
    (begun : BegunRows rows) : Neatly set (rows.addComment comment) BegunRows := by
  have isRow := legibleRow_comment isLine
  refine .lineOf (.lineOf ?_)
  split
  · next last others rowsEq =>
    refine .ite (fun fits => .pure ?_) fun _ => .pure ?_
    · rw [BegunRows, rows_endAt]
      rw [BegunRows, rowsEq] at begun
      cases begun with
      | spaced spaced =>
          obtain ⟨_, _, isFirst, legible⟩ := spaced.exists_cons
          obtain ⟨rfl, rfl⟩ := List.cons.inj isFirst
          exact .spaced (spaced.withFirst ⟨legible.cells.appendToLast isLine, legible.formed.append _⟩)
    · rw [BegunRows, rows_endAt]
      exact .spaced ((AwaitingRows.gapBefore begun _).cons isRow)
  · refine .pure ?_
    rw [BegunRows, rows_endAt]
    exact .spaced (.one isRow)

theorem addComments_neatly (begun : BegunRows rows) (pos : Pos) :
    Neatly set (rows.addComments pos) BegunRows :=
  .ite (fun _ => .pure begun) fun _ => .bind (takeComments_neatly pos) fun _ areLines =>
    .foldlM begun fun comment isComment _ => addComment_neatly (areLines comment isComment)

theorem beforeItem_neatly (begun : BegunRows rows) (pos : Pos) :
    Neatly set (rows.beforeItem pos) AwaitingRows :=
  .bind (addComments_neatly begun pos) fun _ begun => .lineOf (.pure (.gapBefore begun _))

theorem addItem_neatly (awaiting : AwaitingRows rows) {cells : List String}
    (legible : LegibleCells cells) (stop : Pos) : Neatly set (rows.addItem cells stop) BegunRows := by
  refine .lineOf (.pure ?_)
  rw [BegunRows, rows_endAt]
  exact .spaced (awaiting.cons (legibleRow_item legible))

/-- The lines of rows are like the rows: each one shows something, or is empty if the row is. -/
theorem linesFrom_related (run : List (List String)) (list : List Row) :
    List.Forall₂ (fun row line => (LegibleRow row → Legible line) ∧ (row = .blank → line = ""))
      (run.map (⟨true, ·⟩) ++ list) (Rows.linesFrom run list) := by
  have aligned (run : List (List String)) :
      List.Forall₂ (fun row line => (LegibleRow row → Legible line) ∧ (row = .blank → line = ""))
        (run.map (⟨true, ·⟩)) (align run) := by
    rw [align, List.forall₂_map_left_iff, List.forall₂_map_right_iff]
    refine List.forall₂_same.mpr fun cells _ =>
      ⟨fun legible => ?_, fun isBlank => by cases isBlank⟩
    exact (legible.cells.padRow _).joined.trimEnd
  fun_induction Rows.linesFrom run list with
  | case1 run => simpa using aligned run
  | case2 run row rest isAligned ih =>
      have isItem : row.isItem = true := (Bool.and_eq_true_iff.mp isAligned).1
      have rowEq : row = ⟨true, row.cells⟩ := by rw [← isItem]
      rw [List.map_append, List.append_assoc] at ih
      rw [rowEq]
      exact ih
  | case3 run row rest notAligned ih =>
      refine List.rel_append (aligned run) (.cons ⟨LegibleRow.text, ?_⟩ ih)
      rintro rfl
      rfl

theorem close_neatly (begun : BegunRows rows) (stop : Pos) :
    Neatly set (rows.close stop) (Begun Legible "") := by
  refine .bind (addComments_neatly begun stop) fun rows begun => .pure ?_
  have related := linesFrom_related [] rows.rows.reverse
  unfold BegunRows at begun
  generalize rows.rows = list at begun related
  cases begun with
  | nothing => exact .nothing
  | spaced spaced => exact .spaced (spaced.reverse.map related)

end Rows

end Layout

end GoMend
