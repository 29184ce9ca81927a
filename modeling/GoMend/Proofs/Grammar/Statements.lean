import GoMend.Proofs.Grammar.Declarations

/-!
# Statements are read in order

Simple statements, blocks and clauses, and the compound statements that are made of them.
-/

namespace GoMend

open Cursor

variable {extent : Extent} {cursor middle last after : Cursor} {low high : Pos} {rules : Rules}

/-- A row of nodes of which there is at least one ends with the last of them. -/
theorem Row.to_last_of_cons {α : Type} {role : Role} {wrap : α → Node} {first : α}
    {others : List α} (row : Row extent low high
      ((first :: others).map fun value => (role, wrap value))) :
    (wrap (others.getLast?.getD first)).span.stop ≤ high ∧
      Row extent low (wrap (others.getLast?.getD first)).span.stop
        ((first :: others).map fun value => (role, wrap value)) := by
  have split : first :: others = (first :: others).dropLast ++ [others.getLast?.getD first] := by
    refine (List.dropLast_append_getLast? _ ?_).symm
    rw [List.getLast?_cons]
    rfl
  rw [split, List.map_append] at row
  rw [split, List.map_append]
  exact row.to_last

namespace Parse

/-! ### Simple statements -/

/-- A list of one expression is an expression. -/
theorem reads_of_single {value : Expr} (notEnd : cursor.current.token ≠ .endOfFile)
    (prevStopLe : cursor.prevStop ≤ cursor.current.pos) (validAfter : after.Valid extent)
    (row : Row extent cursor.current.pos after.prevStop
      ([value].map fun value => (.plain, .expr value))) :
    Reads extent .plain cursor (.expr value) after := by
  obtain ⟨placed, rest⟩ := row.placed_first
  exact ⟨notEnd, prevStopLe, validAfter, placed.mono (Int.le_refl _) rest.le⟩

/-- An assignment whose sides were read before and after its token. -/
theorem assign_reads {first : Expr} {others rhs : List Expr} {tok : Token} {stop : Pos}
    (notEnd : cursor.current.token ≠ .endOfFile) (prevStopLe : cursor.prevStop ≤ cursor.current.pos)
    (leftRow : Row extent cursor.current.pos middle.prevStop
      ((first :: others).map fun value => (.plain, .expr value)))
    (passes : Passes extent middle middle.next) (isTok : middle.current.token = tok)
    (validAfter : after.Valid extent) (stopLe : stop ≤ after.prevStop)
    (rightRow : Row extent middle.next.prevStop stop (rhs.map fun value => (.plain, .expr value))) :
    Reads extent .simple cursor
      (.stmt (.assign ⟨first.span.start, stop⟩ (first :: others) tok rhs middle.current.pos))
      after := by
  have positive := leftRow.placed_first.1.positive
  obtain ⟨lowLe, leftRow⟩ := leftRow.from_first
  have prevLe := passes.prevStop_le
  have posLt := passes.pos_lt
  have beforeRow := leftRow.mono (Int.le_refl _) prevLe
  have afterRow := rightRow.mono (Int.add_one_le_of_lt posLt) (Int.le_refl _)
  have sound : Sound .simple (.stmt (.assign ⟨first.span.start, stop⟩ (first :: others) tok rhs
      middle.current.pos)) := by
    refine .of_rows rfl positive ?_ ?_ beforeRow afterRow fun _ isFirst => ?_
    · simp [Node.token?]
    · simp [Node.parts, Node.children, Node.stmtChildren, Function.comp_def]
    · exact Option.some.inj isFirst ▸ rfl
  have beforeLe := beforeRow.le
  have afterLe := afterRow.le
  have room : first.span.start < stop := Int.lt_of_le_of_lt beforeLe (Int.lt_of_add_one_le afterLe)
  have row : Row extent first.span.start stop ((Node.stmt (.assign ⟨first.span.start, stop⟩
      (first :: others) tok rhs middle.current.pos)).parts .simple) := by
    have whole := beforeRow.append (afterRow.mono (Int.le_of_lt (Int.lt_succ _)) (Int.le_refl _))
    simpa [Node.parts, Node.children, Node.stmtChildren, Function.comp_def, Node.span] using whole
  exact ⟨notEnd, prevStopLe, validAfter, sound, positive, lowLe, room, stopLe,
    .of_row positive room row, .of_row ⟨_, passes.mem_of_token isTok⟩ room row⟩

theorem exprStmt_reads {value : Expr} (reads : Reads extent .plain cursor (.expr value) after) :
    Reads extent .simple cursor (.stmt (.expr value.span value)) after := by
  have placed := reads.placed
  exact ⟨reads.notEnd, reads.prevStop_le, reads.valid,
    .of_row placed.low_le placed.le_high rfl placed.positive rfl (List.cons_ne_nil _ _)
      (.singleton placed.alone.tight)⟩

theorem send_reads (reading : rules.Reading extent) {channel value : Expr}
    (reads : Reads extent .plain cursor (.expr channel) middle)
    (isArrow : middle.current.token = .arrow)
    (outcome : rules.expr middle.next = .ok (value, after)) :
    Reads extent .simple cursor (.stmt (.send ⟨channel.span.start, value.span.stop⟩ channel value))
      after := by
  have passes := reads.valid.passes_next (by simp [isArrow])
  have valueRead := reading.expr passes.valid outcome
  have placed := reads.placed
  have valuePlaced := (valueRead.row.skip passes).row.placed_first.1
  exact ⟨reads.notEnd, reads.prevStop_le, valueRead.valid,
    .of_row placed.low_le valueRead.placed.le_high rfl placed.positive rfl (List.cons_ne_nil _ _)
      (.cons placed.alone (.singleton valuePlaced))⟩

theorem incDec_reads {operand : Expr} {tok : Token}
    (reads : Reads extent .plain cursor (.expr operand) middle)
    (notEnd : middle.current.token ≠ .endOfFile) :
    Reads extent .simple cursor
      (.stmt (.incDec ⟨operand.span.start, middle.next.prevStop⟩ operand tok)) middle.next := by
  have passes := reads.valid.passes_next notEnd
  have placed := reads.placed
  have prevLe := passes.prevStop_le
  have posLt := passes.pos_lt
  exact ⟨reads.notEnd, reads.prevStop_le, passes.valid,
    .of_row placed.low_le (Int.le_refl _) rfl placed.positive rfl (List.cons_ne_nil _ _)
      (.singleton (placed.alone.mono (Int.le_refl _) (by simp only [Node.span, Stmt.span]; lia)))⟩

/-- An empty statement at a position that has been reached. -/
theorem empty_reads {pos : Pos} (validAfter : after.Valid extent) (positive : 0 < pos)
    (lowLe : cursor.prevStop ≤ pos) (leHigh : cursor.prevStop ≤ after.prevStop)
    (stopLe : pos ≤ after.prevStop ∨ after.current.token = .rightBrace) :
    ReadsStep extent cursor (.empty ⟨pos, pos⟩) after where
  valid := validAfter
  sound :=
    have noParts : Row extent pos pos [] := .nil (Int.le_refl _)
    .of_row rfl positive rfl noParts
  clear := .of_empty (Int.le_refl _) rfl rfl
  drawn :=
    { written := .node trivial (.inl rfl) (by rintro _ ⟨⟩)
      straight := .node (by rintro ⟨⟩) (by rintro _ ⟨⟩)
      holds := fun query mem => by
        rw [Node.queries_of_emptyStmt rfl (by rfl)] at mem
        cases mem }
  low_le := lowLe
  start_le_stop := Int.le_refl _
  le_high := leHigh
  places_lt place mem := by
    obtain ⟨child, isChild, -⟩ := Node.mem_places_of_noToken rfl mem
    exact absurd isChild List.not_mem_nil
  starts_lt start mem := by
    rw [Node.starts_of_empty (Int.le_refl _) rfl] at mem
    exact absurd mem List.not_mem_nil
  queries_lt query mem := by
    rw [Node.queries_of_emptyStmt rfl (by rfl)] at mem
    cases mem
  stop_le := stopLe

/-- A label and its statement. -/
theorem labeled_reads {label : Ident} {inner : Stmt}
    (labelRead : Reads extent .plain cursor (.ident label) middle)
    (passes : Passes extent middle middle.next) (innerRead : ReadsStep extent middle.next inner after) :
    ReadsStmt extent cursor (.labeled ⟨label.span.start, inner.span.stop⟩ label inner) after := by
  have labelPlaced := labelRead.placed
  have labelBounds : cursor.current.pos ≤ label.span.start ∧ label.span.start < label.span.stop ∧
      label.span.stop ≤ middle.prevStop :=
    ⟨labelPlaced.low_le, labelPlaced.start_lt_stop, labelPlaced.le_high⟩
  have prevStopLe := labelRead.prevStop_le
  have colonLe := passes.prevStop_le
  have colonLt := passes.pos_lt
  have innerLe := innerRead.low_le
  have innerStartLe := innerRead.start_le_stop
  have afterLe := innerRead.le_high
  have positive : 0 < label.span.start := labelPlaced.positive
  -- An empty statement takes up no room, so what belongs to the statement is bounded by hand.
  have labelPlaces : ∀ pos ∈ (Node.ident label).places,
      label.span.start ≤ pos ∧ pos < label.span.stop :=
    fun pos place => (labelPlaced.sound.holds place).2
  have labelStarts : ∀ pos ∈ (Node.ident label).starts,
      label.span.start ≤ pos ∧ pos < label.span.stop :=
    fun pos start => (Node.span_contains_iff.mp (labelPlaced.clear.clearAt.holds pos start)).2
  have innerPlaces : ∀ pos ∈ (Node.stmt inner).places,
      inner.span.start ≤ pos ∧ pos < inner.span.stop :=
    fun pos place => (innerRead.sound.holds place).2
  have innerStarts : ∀ pos ∈ (Node.stmt inner).starts,
      inner.span.start ≤ pos ∧ pos < inner.span.stop :=
    fun pos start => (Node.span_contains_iff.mp (innerRead.clear.clearAt.holds pos start)).2
  have sound : Sound .stmt (.stmt (.labeled ⟨label.span.start, inner.span.stop⟩ label inner)) := by
    refine .placed ⟨rfl, positive, ?_, Node.tokenBetween_of_none rfl, ?_, by rintro _ ⟨⟩,
      by rintro _ ⟨⟩⟩ ?_
    · intro pos mem
      obtain ⟨child, isChild, place⟩ := Node.mem_places_of_noToken rfl mem
      obtain rfl | rfl := List.mem_pair.mp isChild
      · have bounds := labelPlaces pos place
        exact ⟨bounds.1, (by lia : pos < inner.span.stop)⟩
      · have bounds := innerPlaces pos place
        exact ⟨(by lia : label.span.start ≤ pos), bounds.2⟩
    · refine List.pairwise_pair.mpr fun pos place => ?_
      have bounds := innerPlaces pos place
      simp only [Node.span, Node.ident, Expr.span]
      lia
    · exact List.forall_mem_cons.mpr ⟨labelPlaced.sound, List.forall_mem_singleton.mpr innerRead.sound⟩
  have room : label.span.start < inner.span.stop := by lia
  have solid : (Node.stmt (.labeled ⟨label.span.start, inner.span.stop⟩ label inner)).isSolid :=
    Node.isSolid_iff.mpr ⟨Node.isPositioned_of_pos positive, room⟩
  have bounds : ∀ pos ∈ (Node.ident label).starts ++ (Node.stmt inner).starts,
      label.span.start ≤ pos ∧ pos < inner.span.stop ∧ pos < after.prevStop := by
    refine List.forall_mem_append.mpr ⟨fun pos start => ?_, fun pos start => ?_⟩
    · have bounds := labelStarts pos start
      lia
    · have bounds := innerStarts pos start
      have before := innerRead.starts_lt pos start
      lia
  have clear : (Node.stmt (.labeled ⟨label.span.start, inner.span.stop⟩ label inner)).Clear := by
    refine .of_children solid ?_ ?_ .nil (by rintro _ ⟨⟩) ?_
    · intro pos start
      rw [Node.children, Node.stmtChildren, List.flatMap_cons, List.flatMap_singleton] at start
      exact ⟨(bounds pos start).1, (bounds pos start).2.1⟩
    · refine List.pairwise_pair.mpr (Node.Before.misses fun pos start => ?_)
      have bounds := innerStarts pos start
      simp only [Node.span, Node.ident, Expr.span]
      lia
    · exact List.forall_mem_cons.mpr ⟨labelPlaced.clear, List.forall_mem_singleton.mpr innerRead.clear⟩
  have labelQueries : ∀ pos ∈ (Node.ident label).queries,
      label.span.start ≤ pos ∧ pos < label.span.stop :=
    labelPlaced.drawn.holds
  have queryBounds : ∀ pos ∈ (Node.ident label).queries ++ (Node.stmt inner).queries,
      label.span.start ≤ pos ∧ pos < inner.span.stop ∧ pos < after.prevStop := by
    refine List.forall_mem_append.mpr ⟨fun pos query => ?_, fun pos query => ?_⟩
    · have bounds := labelQueries pos query
      lia
    · have bounds := innerRead.drawn.holds pos query
      have before := innerRead.queries_lt pos query
      simp only [Node.span] at bounds
      lia
  have drawn : (Node.stmt (.labeled ⟨label.span.start, inner.span.stop⟩ label inner)).Drawn
      extent.lexemes := by
    refine .of_children trivial room ?_ (by rintro ⟨⟩) ?_
    · intro pos query
      rw [Node.children, Node.stmtChildren, List.flatMap_cons, List.flatMap_singleton] at query
      exact ⟨(queryBounds pos query).1, (queryBounds pos query).2.1⟩
    · exact List.forall_mem_cons.mpr ⟨labelPlaced.drawn, List.forall_mem_singleton.mpr innerRead.drawn⟩
  refine ⟨⟨innerRead.valid, sound, clear, drawn, ?_, Int.le_of_lt room, ?_, ?_, ?_, ?_,
    innerRead.stop_le⟩, room⟩
  · exact (by lia : cursor.prevStop ≤ label.span.start)
  · lia
  · intro pos mem
    obtain ⟨child, isChild, place⟩ := Node.mem_places_of_noToken rfl mem
    obtain rfl | rfl := List.mem_pair.mp isChild
    · have bounds := labelPlaces pos place
      lia
    · exact innerRead.places_lt pos place
  · intro pos mem
    obtain ⟨-, rfl⟩ | inChild := Node.mem_starts mem
    · exact (by lia : label.span.start < after.prevStop)
    · rw [Node.children, Node.stmtChildren, List.flatMap_cons, List.flatMap_singleton] at inChild
      exact (bounds pos inChild).2.2
  · intro pos mem
    obtain own | inChild := Node.mem_queries.mp mem
    · obtain rfl := Node.eq_start_of_ownQuery rfl own
      exact (by lia : label.span.start < after.prevStop)
    · rw [Node.children, Node.stmtChildren, List.flatMap_cons, List.flatMap_singleton] at inChild
      exact (queryBounds pos inChild).2.2

theorem labeledFrom_reads (reading : rules.Reading extent) {label : Ident} {step : Stmt}
    (labelRead : Reads extent .plain cursor (.ident label) middle)
    (isColon : middle.current.token = .colon)
    (outcome : labeledFrom rules label middle.next = .ok (step, after)) :
    (∃ span inner, step = .labeled span label inner) ∧ ReadsStmt extent cursor step after := by
  have passes := labelRead.valid.passes_next (by simp [isColon])
  -- The range of the statement after the label always ends somewhere.
  have labeled : ∀ {inner : Stmt} {prev : Pos}, ReadsStep extent middle.next inner after →
      (∃ span inner', Stmt.labeled
        ⟨label.span.start, if inner.span.stop = noPos then prev else inner.span.stop⟩ label inner =
          .labeled span label inner') ∧
      ReadsStmt extent cursor (.labeled
        ⟨label.span.start, if inner.span.stop = noPos then prev else inner.span.stop⟩ label inner)
        after := by
    intro inner prev innerRead
    have positive := passes.valid.positive
    have lowLe := innerRead.low_le
    have startLe := innerRead.start_le_stop
    have positioned : inner.span.stop ≠ noPos := by
      simp only [noPos]
      lia
    rw [if_neg positioned]
    exact ⟨⟨_, _, rfl⟩, labeled_reads labelRead passes innerRead⟩
  simp only [labeledFrom, bind_eq_ok, token_eq_ok, ite_eq_ok, pos_eq_ok, pure_eq_ok,
    prevStop_eq_ok] at outcome
  obtain ⟨tok, _, ⟨rfl, rfl⟩, outcome⟩ := outcome
  obtain ⟨isBrace, here, _, ⟨rfl, rfl⟩, inner, _, ⟨rfl, rfl⟩, prev, _, ⟨rfl, rfl⟩, rfl, rfl⟩ |
    ⟨-, found, read, stmtOutcome, outcome⟩ := outcome
  · have hereLe := passes.valid.prevStop_le_pos (by simp [isBrace])
    have positive := passes.valid.positive
    exact labeled (empty_reads passes.valid (by lia) hereLe (Int.le_refl _) (.inr isBrace))
  · have stmtRead := reading.stmt passes.valid stmtOutcome
    cases found with
    | some found =>
        simp only [bind_eq_ok, prevStop_eq_ok, pure_eq_ok] at outcome
        obtain ⟨inner, _, ⟨rfl, rfl⟩, prev, _, ⟨rfl, rfl⟩, rfl, rfl⟩ := outcome
        exact labeled stmtRead.toReadsStep
    | none =>
        simp only [bind_eq_ok, prevStop_eq_ok, pure_eq_ok] at outcome
        obtain ⟨here, _, ⟨rfl, rfl⟩, inner, _, ⟨rfl, rfl⟩, prev, _, ⟨rfl, rfl⟩, rfl, rfl⟩ := outcome
        have readLe := stmtRead.row.le
        exact labeled (empty_reads stmtRead.valid stmtRead.valid.positive readLe readLe
          (.inl (Int.le_refl _)))

/-- What the production of a simple statement gives: an expression or another simple statement, a
label with its statement where labels are allowed, or the header of a loop over a range where one is
allowed. -/
inductive ReadsSimple (extent : Extent) (labelOk rangeOk : Bool) (cursor : Cursor) :
    Stmt → Cursor → Prop
  | expr {value : Expr} {after : Cursor} (reads : Reads extent .plain cursor (.expr value) after) :
      ReadsSimple extent labelOk rangeOk cursor (.expr value.span value) after
  | simple {step : Stmt} {after : Cursor} (reads : Reads extent .simple cursor (.stmt step) after)
      (notExpr : ∀ span value, step ≠ .expr span value) :
      ReadsSimple extent labelOk rangeOk cursor step after
  | labeled {span : Span} {label : Ident} {inner : Stmt} {after : Cursor} (allowed : labelOk)
      (notEnd : cursor.current.token ≠ .endOfFile)
      (reads : ReadsStmt extent cursor (.labeled span label inner) after) :
      ReadsSimple extent labelOk rangeOk cursor (.labeled span label inner) after
  | overRange {span : Span} {key operand : Expr} {value : Option Expr} {tok : Token} {tokPos : Pos}
      {after : Cursor} (allowed : rangeOk) (notEnd : cursor.current.token ≠ .endOfFile)
      (valid : after.Valid extent) (written : ∃ text, ⟨tok, text, tokPos⟩ ∈ extent.lexemes)
      (before : Row extent cursor.prevStop tokPos
        ((.plain, .expr key) :: value.toList.map fun value => (.plain, .expr value)))
      (operandRow : Row extent (tokPos + 1) after.prevStop [(.plain, .expr operand)]) :
      ReadsSimple extent labelOk rangeOk cursor
        (.range span (some key) value (some tok) operand none tokPos) after

theorem rangeClause_reads (reading : rules.Reading extent) {rangeOk labelOk : Bool} {key : Expr}
    {others : List Expr} {tok : Token} {step : Stmt} (allowed : rangeOk)
    (notEnd : cursor.current.token ≠ .endOfFile)
    (leftRow : Row extent cursor.prevStop middle.prevStop
      ((key :: others).map fun value => (.plain, .expr value)))
    (passes : Passes extent middle middle.next) (isTok : middle.current.token = tok)
    (outcome : rangeClause rules key others tok middle.current.pos middle.next =
      .ok (step, after)) :
    ReadsSimple extent labelOk rangeOk cursor step after := by
  simp [rangeClause] at outcome
  obtain ⟨isRange, operand, last, operandOutcome, outcome⟩ := outcome
  have keyword := passes.valid.passes_next (by simp [isRange])
  have operandRead := reading.expr keyword.valid operandOutcome
  have posLt := passes.pos_lt
  have prevLe := passes.prevStop_le
  have operandRow := (operandRead.row.skip keyword).row.mono
    (Int.add_one_le_of_lt posLt) (Int.le_refl _)
  have before := leftRow.mono (Int.le_refl _) prevLe
  split at outcome
  · exact absurd outcome failAt_ne_ok
  · obtain ⟨rfl, rfl⟩ := pure_eq_ok.mp outcome
    refine .overRange allowed notEnd operandRead.valid ⟨_, passes.mem_of_token isTok⟩ ?_
      operandRow
    match others with
    | [] => exact before
    | [value] => exact before
    | second :: third :: rest => simp_all

theorem simpleStmt_reads (reading : rules.Reading extent) {labelOk rangeOk : Bool} {step : Stmt}
    (valid : cursor.Valid extent)
    (outcome : simpleStmt rules labelOk rangeOk cursor = .ok (step, after)) :
    ReadsSimple extent labelOk rangeOk cursor step after := by
  simp [simpleStmt, exprList] at outcome
  obtain ⟨first, others, middle, firstOutcome, outcome⟩ := outcome
  obtain ⟨notEnd, prevStopLe, middleValid, leftRow⟩ :=
    commaSeparated_reads reading.expr valid firstOutcome
  obtain ⟨isAssign, outcome⟩ | ⟨-, rfl, outcome⟩ := outcome
  · have passes := middleValid.passes_next (by
      intro isEnd
      simp [isEnd, Token.isAssignOperator, Token.assignOperator?] at isAssign)
    obtain ⟨⟨⟨allowed, -⟩, -⟩, outcome⟩ | ⟨-, value, values, valuesOutcome, rfl⟩ := outcome
    · exact rangeClause_reads reading allowed notEnd (leftRow.mono prevStopLe (Int.le_refl _)) passes
        rfl outcome
    · obtain ⟨-, valuesLe, validAfter, rightRow⟩ :=
        commaSeparated_reads reading.expr passes.valid valuesOutcome
      obtain ⟨stopLe, rightRow⟩ := rightRow.to_last_of_cons
      exact .simple (assign_reads notEnd prevStopLe leftRow passes rfl validAfter stopLe
        (rightRow.mono valuesLe (Int.le_refl _))) (by simp)
  · have firstRead := reads_of_single notEnd prevStopLe middleValid leftRow
    generalize tokEq : middle.current.token = tok at outcome
    split at outcome
    · simp only [ite_eq_ok, bind_eq_ok, advance_eq_ok, pure_eq_ok] at outcome
      obtain ⟨allowed, _, _, rfl, outcome⟩ | ⟨-, rfl, rfl⟩ := outcome
      · obtain ⟨⟨span, inner, rfl⟩, reads⟩ := labeledFrom_reads reading firstRead tokEq outcome
        exact .labeled allowed notEnd reads
      · exact .expr firstRead
    · simp at outcome
      obtain ⟨value, valueOutcome, rfl⟩ := outcome
      exact .simple (send_reads reading firstRead tokEq valueOutcome) (by simp)
    · simp at outcome
      obtain ⟨rfl, rfl⟩ := outcome
      exact .simple (incDec_reads firstRead (by simp [tokEq])) (by simp)
    · simp at outcome
      obtain ⟨rfl, rfl⟩ := outcome
      exact .simple (incDec_reads firstRead (by simp [tokEq])) (by simp)
    · obtain ⟨rfl, rfl⟩ := pure_eq_ok.mp outcome
      exact .expr firstRead

namespace ReadsSimple

variable {labelOk rangeOk : Bool} {step : Stmt} {span : Span} {value : Expr}

/-- A statement in a header. -/
theorem readsStep (reads : ReadsSimple extent false rangeOk cursor step after) (hasBody : step.hasBody) :
    Reads extent .simple cursor (.stmt step) after := by
  cases reads with
  | expr reads => exact exprStmt_reads reads
  | simple reads notExpr => exact reads
  | labeled allowed notEnd reads => exact absurd allowed Bool.false_ne_true
  | overRange => exact absurd hasBody Bool.false_ne_true

/-- A simple statement that is an expression. -/
theorem readsValue (reads : ReadsSimple extent labelOk rangeOk cursor (.expr span value) after) :
    Reads extent .plain cursor (.expr value) after := by
  generalize stepEq : Stmt.expr span value = step at reads
  cases reads with
  | expr reads =>
      obtain ⟨-, rfl⟩ := Stmt.expr.inj stepEq
      exact reads
  | simple reads notExpr => exact absurd stepEq.symm (notExpr span value)
  | labeled => exact Stmt.noConfusion stepEq
  | overRange => exact Stmt.noConfusion stepEq

/-- A statement that is not the header of a loop over a range has a body if it is a loop. -/
theorem hasBody (reads : ReadsSimple extent labelOk rangeOk cursor step after)
    (notHeader : rangeOk = false ∨ ∀ span key value tok operand tokPos,
      step ≠ .range span key value tok operand none tokPos) : step.hasBody := by
  cases reads with
  | expr reads => rfl
  | simple reads notExpr =>
      have admitted := reads.placed.sound.admits
      cases step <;> first | rfl | exact absurd admitted Bool.false_ne_true
  | labeled allowed notEnd reads => rfl
  | overRange allowed =>
      obtain notAllowed | notHeader := notHeader
      · exact absurd (notAllowed.symm.trans allowed) Bool.false_ne_true
      · exact absurd rfl (notHeader _ _ _ _ _ _)

end ReadsSimple

/-- A simple statement without label and range. -/
theorem headerStmt_reads (reading : rules.Reading extent) :
    ReadsNode extent (simpleStmt rules false false) .simple .stmt := by
  intro cursor step after valid outcome
  have reads := simpleStmt_reads reading valid outcome
  exact reads.readsStep (reads.hasBody (.inl rfl))

/-! ### Lists of statements -/

/-- Statements were read between two cursors, one after the other.  Only the range of the last one
can reach beyond the second cursor. -/
structure ReadsList (extent : Extent) (cursor : Cursor) (stmts : List Stmt) (after : Cursor) :
    Prop where
  valid : after.Valid extent
  le_high : cursor.prevStop ≤ after.prevStop
  sound : ∀ step ∈ stmts, Sound .stmt (.stmt step)
  places : ∀ pos ∈ (stmts.map Node.stmt).flatMap Node.places,
    cursor.prevStop ≤ pos ∧ pos < after.prevStop
  apart : (stmts.map Node.stmt).Pairwise Node.Precedes
  clear : ∀ step ∈ stmts, (Node.stmt step).Clear
  starts : ∀ pos ∈ (stmts.map Node.stmt).flatMap Node.starts,
    cursor.prevStop ≤ pos ∧ pos < after.prevStop
  lined : (stmts.map Node.stmt).Pairwise Node.Before
  room : ∀ step ∈ stmts, step.span.start < step.span.stop
  drawn : ∀ step ∈ stmts, (Node.stmt step).Drawn extent.lexemes
  queries : ∀ pos ∈ (stmts.map Node.stmt).flatMap Node.queries,
    cursor.prevStop ≤ pos ∧ pos < after.prevStop

namespace ReadsList

variable {stmts : List Stmt}

theorem nil (valid : cursor.Valid extent) : ReadsList extent cursor [] cursor :=
  ⟨valid, Int.le_refl _, by simp, by simp, .nil, by simp, by simp, .nil, by simp, by simp, by simp⟩

/-- Something without statements before a list. -/
theorem skip (read : ReadsRow extent cursor [] middle) (rest : ReadsList extent middle stmts after) :
    ReadsList extent cursor stmts after := by
  have readLe := read.row.le
  have restLe := rest.le_high
  refine ⟨rest.valid, by lia, rest.sound, ?_, rest.apart, rest.clear, ?_, rest.lined, rest.room,
    rest.drawn, ?_⟩
  · intro pos mem
    have bounds := rest.places pos mem
    exact ⟨by lia, bounds.2⟩
  · intro pos mem
    have bounds := rest.starts pos mem
    exact ⟨by lia, bounds.2⟩
  · intro pos mem
    have bounds := rest.queries pos mem
    exact ⟨by lia, bounds.2⟩

theorem cons {step : Stmt} (read : ReadsStmt extent cursor step middle)
    (rest : ReadsList extent middle stmts after)
    (apart : step.span.stop ≤ middle.prevStop ∨ stmts = []) :
    ReadsList extent cursor (step :: stmts) after := by
  have readLe := read.le_high
  have restLe := rest.le_high
  refine ⟨rest.valid, by lia, List.forall_mem_cons.mpr ⟨read.sound, rest.sound⟩, ?_, ?_,
    List.forall_mem_cons.mpr ⟨read.clear, rest.clear⟩, ?_, ?_,
    List.forall_mem_cons.mpr ⟨read.start_lt_stop, rest.room⟩,
    List.forall_mem_cons.mpr ⟨read.drawn, rest.drawn⟩, ?_⟩
  · intro pos mem
    simp only [List.map_cons, List.flatMap_cons, List.mem_append] at mem
    obtain mem | mem := mem
    · have lowLe := read.low_le
      have startLe := (read.sound.holds mem).2.1
      have placeLt := read.places_lt pos mem
      simp only [Node.span] at startLe
      exact ⟨by lia, by lia⟩
    · have bounds := rest.places pos mem
      exact ⟨by lia, bounds.2⟩
  · refine List.pairwise_cons.mpr ⟨?_, rest.apart⟩
    intro node mem pos place
    obtain stopLe | rfl := apart
    · have bounds := rest.places pos (List.mem_flatMap.mpr ⟨node, mem, place⟩)
      simp only [Node.span]
      lia
    · exact absurd mem List.not_mem_nil
  · intro pos mem
    simp only [List.map_cons, List.flatMap_cons, List.mem_append] at mem
    obtain mem | mem := mem
    · have lowLe := read.low_le
      have startLe := (Node.span_contains_iff.mp (read.clear.clearAt.holds pos mem)).2.1
      have startLt := read.starts_lt pos mem
      simp only [Node.span] at startLe
      exact ⟨by lia, by lia⟩
    · have bounds := rest.starts pos mem
      exact ⟨by lia, bounds.2⟩
  · refine List.pairwise_cons.mpr ⟨?_, rest.lined⟩
    intro node mem pos start
    obtain stopLe | rfl := apart
    · have bounds := rest.starts pos (List.mem_flatMap.mpr ⟨node, mem, start⟩)
      simp only [Node.span]
      lia
    · exact absurd mem List.not_mem_nil
  · intro pos mem
    simp only [List.map_cons, List.flatMap_cons, List.mem_append] at mem
    obtain mem | mem := mem
    · have lowLe := read.low_le
      have startLe := (read.drawn.holds pos mem).1
      have queryLt := read.queries_lt pos mem
      simp only [Node.span] at startLe
      exact ⟨by lia, by lia⟩
    · have bounds := rest.queries pos mem
      exact ⟨by lia, bounds.2⟩

end ReadsList

/-- Statements are read as long as the next token asks for one, which a closing brace never does. -/
theorem repeatWhile_readsList (reading : rules.Reading extent) {more : Parse Bool}
    (asks : ∀ ⦃cursor goesOn after⦄, more cursor = .ok (goesOn, after) →
      after = cursor ∧ (cursor.current.token = .rightBrace → goesOn = false))
    (count : Nat) {items : List (Option Stmt)} (valid : cursor.Valid extent)
    (outcome : repeatWhile more rules.stmt count cursor = .ok (items, after)) :
    ReadsList extent cursor (items.filterMap id) after ∧
      (cursor.current.token = .rightBrace → items = []) := by
  induction count generalizing cursor items with
  | zero => exact absurd outcome fail_ne_ok
  | succ count ih =>
      simp only [repeatWhile, bind_eq_ok, ite_eq_ok, pure_eq_ok] at outcome
      obtain ⟨goesOn, middle, moreOutcome, outcome⟩ := outcome
      obtain ⟨rfl, stops⟩ := asks moreOutcome
      obtain ⟨rfl, first, next, itemOutcome, rest, last, restOutcome, rfl, rfl⟩ |
        ⟨-, rfl, rfl⟩ := outcome
      · have itemRead := reading.stmt valid itemOutcome
        refine ⟨?_, fun isBrace => absurd (stops isBrace) Bool.false_ne_true.symm⟩
        cases first with
        | none => exact .skip itemRead (ih itemRead.valid restOutcome).1
        | some step =>
            obtain ⟨restRead, atBrace⟩ := ih itemRead.valid restOutcome
            refine .cons itemRead restRead (itemRead.stop_le.imp_right ?_)
            intro isBrace
            simp [atBrace isBrace]
      · exact ⟨.nil valid, fun _ => rfl⟩

theorem stmtList_reads (reading : rules.Reading extent) {stmts : List Stmt}
    (valid : cursor.Valid extent) (outcome : stmtList rules cursor = .ok (stmts, after)) :
    ReadsList extent cursor stmts after := by
  simp only [stmtList, manyWhile, bind_eq_ok, itemLimit_eq_ok, pure_eq_ok] at outcome
  obtain ⟨items, _, ⟨count, _, ⟨rfl, rfl⟩, outcome⟩, rfl, rfl⟩ := outcome
  refine (repeatWhile_readsList reading ?_ _ valid outcome).1
  intro cursor goesOn after asked
  simp only [bind_eq_ok, token_eq_ok] at asked
  obtain ⟨tok, _, ⟨tokEq, rfl⟩, asked⟩ := asked
  rw [← tokEq]
  split at asked <;> simp_all

/-! ### Blocks and clauses -/

/-- A node with a list of statements as its last parts. -/
theorem reads_of_list {role : Role} {node : Node} {heads : List (Role × Node)} {stmts : List Stmt}
    (valid : cursor.Valid extent) (notEnd : cursor.current.token ≠ .endOfFile)
    (startEq : node.span.start = cursor.current.pos) (admitted : role.admits node)
    (bare : node.isBare) (notNested : node.nested = []) (own : node.ownStmts? = some stmts)
    (partsEq : node.parts role = heads ++ stmts.map fun step => (Role.stmt, Node.stmt step))
    (headRow : Row extent cursor.current.pos middle.prevStop heads)
    (headLt : cursor.current.pos < middle.prevStop)
    (listRead : ReadsList extent middle stmts last) (lastLe : last.prevStop ≤ after.prevStop)
    (stopEq : node.span.stop = after.prevStop) (validAfter : after.Valid extent) :
    Reads extent role cursor node after := by
  have noToken := Node.token?_of_isBare bare
  have prevStopLe := valid.prevStop_le_pos notEnd
  have prevPositive := valid.positive
  have positive : 0 < node.span.start := by lia
  have listLe := listRead.le_high
  have room : node.span.start < node.span.stop := by lia
  have childrenEq : node.children = heads.map Prod.snd ++ stmts.map Node.stmt := by
    rw [← Node.map_snd_parts role node, partsEq, List.map_append, List.map_map]
    rfl
  have sound : Sound role node := by
    refine .placed ⟨admitted, positive, ?_, ?_, ?_, ?_, by simp [Node.opener?_eq_none noToken]⟩ ?_
    · intro pos mem
      obtain ⟨child, isChild, place⟩ := Node.mem_places_of_noToken noToken mem
      have place := List.mem_flatMap.mpr ⟨child, isChild, place⟩
      rw [childrenEq, List.flatMap_append, List.mem_append] at place
      obtain place | place := place
      · have bounds := headRow.bounds_of_place place
        lia
      · have bounds := listRead.places pos place
        lia
    · intro count pos token
      rw [noToken] at token
      exact absurd token.symm (Option.some_ne_none _)
    · rw [childrenEq]
      refine List.pairwise_append.mpr ⟨headRow.pairwise_precedes, listRead.apart, ?_⟩
      intro head isHead step isStep pos place
      obtain ⟨part, isPart, rfl⟩ := List.mem_map.mp isHead
      have headBounds := headRow.ordered.bounds_of_mem (List.mem_map_of_mem isPart)
      have bounds := listRead.places pos (List.mem_flatMap.mpr ⟨step, isStep, place⟩)
      lia
    · rw [notNested]
      exact fun _ isNested => absurd isNested List.not_mem_nil
    · rw [partsEq]
      refine List.forall_mem_append.mpr ⟨headRow.sound, ?_⟩
      intro part isPart
      obtain ⟨step, isStep, rfl⟩ := List.mem_map.mp isPart
      exact listRead.sound step isStep
  have clear : node.Clear := by
    refine .of_children (Node.isSolid_iff.mpr ⟨Node.isPositioned_of_pos positive, room⟩) ?_ ?_ ?_ ?_ ?_
    · intro pos start
      rw [childrenEq, List.flatMap_append, List.mem_append] at start
      obtain start | start := start
      · have bounds := headRow.bounds_of_start start
        lia
      · have bounds := listRead.starts pos start
        lia
    · rw [childrenEq]
      refine List.pairwise_append.mpr ⟨headRow.pairwise_before.imp Node.Before.misses,
        listRead.lined.imp Node.Before.misses, ?_⟩
      intro head isHead step isStep
      obtain ⟨part, isPart, rfl⟩ := List.mem_map.mp isHead
      have headBounds := headRow.ordered.bounds_of_mem (List.mem_map_of_mem isPart)
      refine Node.Before.misses fun pos start => ?_
      have bounds := listRead.starts pos (List.mem_flatMap.mpr ⟨step, isStep, start⟩)
      lia
    · rw [own]
      exact listRead.lined
    · rw [own]
      exact fun step isStep positioned => Node.isSolid_iff.mpr ⟨positioned, listRead.room step isStep⟩
    · rw [childrenEq]
      exact List.forall_mem_append.mpr
        ⟨headRow.clear_nodes, List.forall_mem_map.mpr listRead.clear⟩
  have drawn : node.Drawn extent.lexemes := by
    refine .of_children (Node.tokenWritten_of_isBare bare) room ?_ ?_ ?_
    · intro pos query
      rw [childrenEq, List.flatMap_append, List.mem_append] at query
      obtain query | query := query
      · have bounds := headRow.bounds_of_query query
        lia
      · have bounds := listRead.queries pos query
        lia
    · exact fun isAssertion => absurd own (Node.ownStmts?_of_isAssertion isAssertion ▸ nofun)
    · rw [childrenEq]
      exact List.forall_mem_append.mpr
        ⟨headRow.drawn_nodes, List.forall_mem_map.mpr listRead.drawn⟩
  exact ⟨notEnd, prevStopLe, validAfter, sound, positive, by lia, room, by lia, clear, drawn⟩

theorem blockStmt_reads (reading : rules.Reading extent) :
    ReadsNode extent (blockStmt rules) .body Node.block := by
  intro cursor block after valid outcome
  simp [blockStmt] at outcome
  obtain ⟨opens, stmts, last, listOutcome, closes, rfl, rfl⟩ := outcome
  have notEnd : cursor.current.token ≠ .endOfFile := by simp [opens]
  have opening := valid.passes_next notEnd
  have listRead := stmtList_reads reading opening.valid listOutcome
  have closing := listRead.valid.passes_next (by simp [closes])
  have lastLe := closing.prevStop_le
  have lastLt := closing.pos_lt
  refine reads_of_list valid notEnd rfl rfl rfl rfl rfl ?_ (.nil (Int.le_of_lt opening.pos_lt))
    opening.pos_lt listRead (by lia) rfl closing.valid
  rfl

theorem clauseBlock_reads {clause : Parse Stmt} {role : Role}
    (reads : ReadsNode extent clause role.member .stmt) (admitted : ∀ body, role.admits (.block body)) :
    ReadsNode extent (clauseBlock clause) role Node.block := by
  intro cursor block after valid outcome
  simp [clauseBlock] at outcome
  obtain ⟨opens, clauses, last, clausesOutcome, closes, rfl, rfl⟩ := outcome
  have notEnd : cursor.current.token ≠ .endOfFile := by simp [opens]
  have opening := valid.passes_next notEnd
  have clausesRead := manyWhile_readsNodes (mapToken_reads _) reads opening.valid clausesOutcome
  have closing := clausesRead.valid.passes_next (by simp [closes])
  exact .of_room valid notEnd closing.valid rfl (Int.le_refl _) (admitted _) rfl
    (opening.row (clausesRead.skipped closing)) (opening.lt_of_reads (clausesRead.skipped closing))

theorem caseClause_reads (reading : rules.Reading extent) (ofTypes : Bool) :
    ReadsNode extent (caseClause rules ofTypes) .caseClause .stmt := by
  intro cursor clause after valid outcome
  simp [caseClause] at outcome
  obtain ⟨-, isDefault, isColon, stmts, listOutcome, rfl⟩ |
    ⟨isCase, first, others, middle, exprsOutcome, isColon, stmts, listOutcome, rfl⟩ := outcome
  · have notEnd : cursor.current.token ≠ .endOfFile := by simp [isDefault]
    have keyword := valid.passes_next notEnd
    have colon := keyword.valid.passes_next (by simp [isColon])
    have listRead := stmtList_reads reading colon.valid listOutcome
    have keywordLt := keyword.pos_lt
    have colonLe := colon.prevStop_le
    have colonLt := colon.pos_lt
    have headLt : cursor.current.pos < cursor.next.next.prevStop := by lia
    refine reads_of_list valid notEnd rfl rfl rfl rfl rfl ?_ (.nil (Int.le_of_lt headLt)) headLt
      listRead (Int.le_refl _) rfl listRead.valid
    rfl
  · have notEnd : cursor.current.token ≠ .endOfFile := by simp [isCase]
    have keyword := valid.passes_next notEnd
    have itemReads : ReadsNode extent (if ofTypes then rules.type else rules.expr) .plain .expr := by
      cases ofTypes
      · exact reading.expr
      · exact reading.type
    obtain ⟨-, exprsLe, exprsValid, exprsRow⟩ :=
      commaSeparated_reads itemReads keyword.valid exprsOutcome
    have colon := exprsValid.passes_next (by simp [isColon])
    have listRead := stmtList_reads reading colon.valid listOutcome
    have keywordLt := keyword.pos_lt
    have colonLe := colon.prevStop_le
    have colonLt := colon.pos_lt
    have exprsLe' := exprsRow.le
    refine reads_of_list valid notEnd rfl rfl rfl rfl rfl ?_ (exprsRow.mono ?_ ?_) ?_ listRead
      (Int.le_refl _) rfl listRead.valid
    · rfl
    all_goals lia

theorem communication_reads (reading : rules.Reading extent) :
    ReadsNode extent (communication rules) .simple .stmt := by
  intro cursor comm after valid outcome
  simp [communication, exprList] at outcome
  obtain ⟨first, others, middle, firstOutcome, outcome⟩ := outcome
  obtain ⟨notEnd, prevStopLe, middleValid, leftRow⟩ :=
    commaSeparated_reads reading.expr valid firstOutcome
  obtain ⟨isAssign, value, valueOutcome, rfl⟩ | ⟨-, rfl, outcome⟩ := outcome
  · have passes := middleValid.passes_next (by
      intro isEnd
      simp [isEnd] at isAssign)
    have valueRead := reading.expr passes.valid valueOutcome
    have valuePlaced := valueRead.placed.tight.mono valueRead.prevStop_le (Int.le_refl _)
    exact assign_reads notEnd prevStopLe leftRow passes rfl valueRead.valid valueRead.placed.le_high
      (.singleton valuePlaced)
  · have firstRead := reads_of_single notEnd prevStopLe middleValid leftRow
    obtain ⟨⟨-, rfl⟩, rfl⟩ | ⟨isArrow, value, valueOutcome, rfl⟩ := outcome
    · exact exprStmt_reads firstRead
    · exact send_reads reading firstRead isArrow valueOutcome

theorem commClause_reads (reading : rules.Reading extent) :
    ReadsNode extent (commClause rules) .commClause .stmt := by
  intro cursor clause after valid outcome
  simp [commClause] at outcome
  obtain ⟨-, isDefault, isColon, stmts, listOutcome, rfl⟩ |
    ⟨isCase, comm, middle, commOutcome, isColon, stmts, listOutcome, rfl⟩ := outcome
  · have notEnd : cursor.current.token ≠ .endOfFile := by simp [isDefault]
    have keyword := valid.passes_next notEnd
    have colon := keyword.valid.passes_next (by simp [isColon])
    have listRead := stmtList_reads reading colon.valid listOutcome
    have keywordLt := keyword.pos_lt
    have colonLe := colon.prevStop_le
    have colonLt := colon.pos_lt
    have headLt : cursor.current.pos < cursor.next.next.prevStop := by lia
    refine reads_of_list valid notEnd rfl rfl rfl rfl rfl ?_ (.nil (Int.le_of_lt headLt)) headLt
      listRead (Int.le_refl _) rfl listRead.valid
    rfl
  · have notEnd : cursor.current.token ≠ .endOfFile := by simp [isCase]
    have keyword := valid.passes_next notEnd
    have commRead := communication_reads reading keyword.valid commOutcome
    have colon := commRead.valid.passes_next (by simp [isColon])
    have listRead := stmtList_reads reading colon.valid listOutcome
    have commRow := keyword.row (commRead.row.skipped colon)
    have commLt := keyword.lt_of_reads (commRead.row.skipped colon)
    refine reads_of_list valid notEnd rfl rfl rfl rfl rfl ?_ commRow commLt listRead (Int.le_refl _)
      rfl listRead.valid
    rfl

/-! ### Compound statements -/

theorem inHeader_reads {α : Type} {production : Parse α} {parts : α → List (Role × Node)}
    (reads : ReadsParts extent production parts) :
    ReadsParts extent (inHeader production) parts :=
  atLevel_reads reads

/-- The parts of a header that may be missing. -/
def stepParts (step : Option Stmt) : List (Role × Node) :=
  step.toList.map fun step => (.simple, .stmt step)

theorem ifHeader_reads (reading : rules.Reading extent) (start : Pos) :
    ReadsParts extent (ifHeader rules start) fun header =>
      stepParts header.1 ++ [(Role.plain, Node.expr header.2)] := by
  intro cursor header after valid outcome
  simp [ifHeader] at outcome
  obtain ⟨-, ⟨isSemicolon, -, cond, condOutcome, rfl⟩ | ⟨-, first, middle, firstOutcome, outcome⟩⟩ :=
    outcome
  · have semicolon := valid.passes_next (by simp [isSemicolon])
    exact (reading.expr semicolon.valid condOutcome).row.skip semicolon
  · obtain ⟨-, outcome⟩ | ⟨isSemicolon, -, cond, condOutcome, rfl⟩ := outcome
    · generalize foundEq : some first = found at outcome
      split at outcome
      · obtain rfl := Option.some.inj foundEq
        obtain ⟨rfl, rfl⟩ := pure_eq_ok.mp outcome
        exact (simpleStmt_reads reading valid firstOutcome).readsValue.row
      · exact absurd outcome failAt_ne_ok
    · have firstRead := headerStmt_reads reading valid firstOutcome
      have semicolon := firstRead.valid.passes_next (by simp [isSemicolon])
      have condRead := (reading.expr semicolon.valid condOutcome).row.skip semicolon
      exact firstRead.row.append condRead

theorem ifStmt_reads (reading : rules.Reading extent) :
    ReadsNode extent (ifStmt rules) .elseBranch .stmt := by
  intro cursor step after valid outcome
  simp [ifStmt] at outcome
  obtain ⟨isIf, init, cond, middle, headerOutcome, body, last, bodyOutcome, outcome⟩ := outcome
  have notEnd : cursor.current.token ≠ .endOfFile := by simp [isIf]
  have keyword := valid.passes_next notEnd
  have headerRead := inHeader_reads (ifHeader_reads reading _) keyword.valid headerOutcome
  have bodyRead := blockStmt_reads reading headerRead.valid bodyOutcome
  have headRead := headerRead.append bodyRead.row
  obtain ⟨-, ⟨_, endOutcome⟩, rfl⟩ | ⟨isElse, outcome⟩ := outcome
  · have endRead := expectEnd_reads headRead.valid endOutcome
    refine .of_row valid notEnd endRead.valid rfl endRead.row.le rfl rfl (by simp [Node.parts]) ?_
    simpa [Node.parts, stepParts, Node.span, Stmt.span] using keyword.row headRead
  · have elseToken := headRead.valid.passes_next (by simp [isElse])
    generalize last.next.current.token = tok at outcome
    split at outcome
    · simp at outcome
      obtain ⟨otherwise, otherOutcome, rfl⟩ := outcome
      have otherRead := reading.ifStmt elseToken.valid otherOutcome
      have row := keyword.row (headRead.append (otherRead.row.skip elseToken))
      obtain ⟨stopLe, row⟩ := row.to_last
      refine .of_row valid notEnd otherRead.valid rfl stopLe rfl rfl (by simp [Node.parts]) ?_
      simpa [Node.parts, stepParts, Node.span, Stmt.span] using row
    · simp at outcome
      obtain ⟨otherwise, closed, otherOutcome, ⟨_, endOutcome⟩, rfl⟩ := outcome
      have otherRead := (blockStmt_reads reading elseToken.valid otherOutcome).withRole
        (show Role.elseBranch.admits (.block otherwise) from rfl) rfl
      have row := keyword.row (headRead.append (otherRead.row.skip elseToken))
      obtain ⟨stopLe, row⟩ := row.to_last
      have endRead := expectEnd_reads otherRead.valid endOutcome
      refine .of_row valid notEnd endRead.valid rfl (Int.le_trans stopLe endRead.row.le) rfl rfl
        (by simp [Node.parts]) ?_
      simpa [Node.parts, Node.block, stepParts, Node.span, Stmt.span] using row
    · exact absurd outcome expected_ne_ok

/-- The parts that a tag or a condition becomes, which has to be an expression. -/
def valueParts? : Option Stmt → List (Role × Node)
  | some (.expr _ value) => [(.plain, .expr value)]
  | step => stepParts step

theorem ReadsSimple.valueRow {rangeOk : Bool} {step : Stmt}
    (reads : ReadsSimple extent false rangeOk cursor step after) (hasBody : step.hasBody) :
    ReadsRow extent cursor (valueParts? (some step)) after := by
  have stepRead := reads.readsStep hasBody
  cases step with
  | expr span value => exact reads.readsValue.row
  | _ => exact stepRead.row

theorem headerValue_reads (reading : rules.Reading extent) :
    ReadsParts extent (simpleStmt rules false false) fun step => valueParts? (some step) := by
  intro cursor step after valid outcome
  have reads := simpleStmt_reads reading valid outcome
  exact reads.valueRow (reads.hasBody (.inl rfl))

/-- The header of a `switch`, whatever the tag after its statement becomes. -/
theorem switchHeader_reads (reading : rules.Reading extent)
    {tagParts : Option Stmt → List (Role × Node)} (noTag : tagParts none = [])
    (tagReads : ReadsParts extent (simpleStmt rules false false) fun tag => tagParts (some tag)) :
    ReadsParts extent (switchHeader rules) fun header => stepParts header.1 ++ tagParts header.2 := by
  intro cursor header after valid outcome
  simp [switchHeader] at outcome
  obtain ⟨-, rfl, rfl⟩ | ⟨-, outcome⟩ := outcome
  · simp only [noTag]
    exact .nil valid
  obtain ⟨isSemicolon, outcome⟩ | ⟨-, first, middle, firstOutcome, outcome⟩ := outcome
  · have semicolon := valid.passes_next (by simp [isSemicolon])
    simp [isSemicolon] at outcome
    obtain ⟨-, rfl, rfl⟩ | ⟨-, tag, tagOutcome, rfl⟩ := outcome
    · simp only [noTag]
      exact .skip semicolon (.nil semicolon.valid)
    · exact (tagReads semicolon.valid tagOutcome).skip semicolon
  · have firstRead := headerStmt_reads reading valid firstOutcome
    obtain ⟨⟨-, rfl⟩, rfl⟩ | ⟨isSemicolon, outcome⟩ := outcome
    · exact tagReads valid firstOutcome
    · have semicolon := firstRead.valid.passes_next (by simp [isSemicolon])
      obtain ⟨-, rfl, rfl⟩ | ⟨-, tag, tagOutcome, rfl⟩ := outcome
      · simp only [noTag]
        exact firstRead.row.skipped semicolon
      · have tagRead := tagReads semicolon.valid tagOutcome
        exact firstRead.row.append (tagRead.skip semicolon)

/-- The parts that the guard of a type switch becomes. -/
def guardParts : Option Stmt → List (Role × Node)
  | some step => if step.isTypeGuard then [(.guard, .stmt step)] else []
  | none => []

theorem guard_reads (reading : rules.Reading extent) :
    ReadsParts extent (simpleStmt rules false false) fun step => guardParts (some step) := by
  intro cursor step after valid outcome
  have stepRead := headerStmt_reads reading valid outcome
  simp only [guardParts]
  split
  · rename_i isGuard
    have admitted : Role.guard.admits (.stmt step) := by
      cases step with
      | expr span value => rfl
      | assign span lhs tok rhs tokPos =>
          cases lhs with
          | nil => simp [Stmt.isTypeGuard] at isGuard
          | cons first others => rfl
      | _ => simp [Stmt.isTypeGuard] at isGuard
    exact (stepRead.withRole admitted rfl).row
  · exact ⟨stepRead.valid, .nil stepRead.row.row.le⟩

/-- The guard of a type switch assigns with `:=` only. -/
theorem written_of_isTypeGuard {lexemes : List Lexeme} {span : Span} {init : Option Stmt} {guard : Stmt}
    {body : Block} (isGuard : guard.isTypeGuard) :
    (Node.stmt (.typeSwitch span init guard body)).TokenWritten lexemes := by
  unfold Stmt.isTypeGuard at isGuard
  split at isGuard <;> trivial

theorem switchStmt_reads (reading : rules.Reading extent) :
    ReadsNode extent (switchStmt rules) .stmt .stmt := by
  intro cursor step after valid outcome
  simp [switchStmt] at outcome
  obtain ⟨isSwitch, init, tag, middle, headerOutcome, body, last, bodyOutcome, _, read, endOutcome,
    outcome⟩ := outcome
  have notEnd : cursor.current.token ≠ .endOfFile := by simp [isSwitch]
  have keyword := valid.passes_next notEnd
  have valueRead := inHeader_reads (switchHeader_reads reading rfl (headerValue_reads reading))
    keyword.valid headerOutcome
  have guardRead := inHeader_reads (switchHeader_reads reading rfl (guard_reads reading))
    keyword.valid headerOutcome
  have bodyReads : ReadsNode extent (clauseBlock (caseClause rules (tag.any Stmt.isTypeGuard)))
      .caseBody Node.block := clauseBlock_reads (caseClause_reads reading _) fun _ => rfl
  have bodyRead := bodyReads valueRead.valid bodyOutcome
  have endRead := expectEnd_reads bodyRead.valid endOutcome
  have valueRow := keyword.row (valueRead.append bodyRead.row)
  have guardRow := keyword.row (guardRead.append bodyRead.row)
  cases tag with
  | none =>
      obtain ⟨rfl, rfl⟩ := pure_eq_ok.mp outcome
      refine .of_row valid notEnd endRead.valid rfl endRead.row.le rfl rfl (by simp [Node.parts]) ?_
      simpa [Node.parts, stepParts, valueParts?, Node.span, Stmt.span] using valueRow
  | some tag =>
      simp only [Option.any_some, ite_eq_ok, pure_eq_ok] at outcome
      obtain ⟨isGuard, rfl, rfl⟩ | ⟨-, outcome⟩ := outcome
      · have row : Row extent cursor.current.pos last.prevStop
            (stepParts init ++ ([(Role.guard, Node.stmt tag)] ++ [(Role.caseBody, Node.block body)])) := by
          simpa [guardParts, isGuard] using guardRow
        have prevStopLe := valid.prevStop_le_pos notEnd
        have positive : 0 < cursor.current.pos := Int.lt_of_lt_of_le valid.positive prevStopLe
        refine ⟨notEnd, prevStopLe, endRead.valid, ?_⟩
        exact .of_written (Int.le_refl _) endRead.row.le rfl positive rfl
          (written_of_isTypeGuard isGuard)
          row (row.lt_of_ne_nil (by simp))
      · split at outcome
        · obtain ⟨rfl, rfl⟩ := pure_eq_ok.mp outcome
          refine .of_row valid notEnd endRead.valid rfl endRead.row.le rfl rfl (by simp [Node.parts]) ?_
          simpa [Node.parts, stepParts, valueParts?, Node.span, Stmt.span] using valueRow
        · exact absurd outcome failAt_ne_ok

theorem selectStmt_reads (reading : rules.Reading extent) :
    ReadsNode extent (selectStmt rules) .stmt .stmt := by
  intro cursor step after valid outcome
  simp [selectStmt] at outcome
  obtain ⟨isSelect, body, last, bodyOutcome, ⟨_, endOutcome⟩, rfl⟩ := outcome
  have notEnd : cursor.current.token ≠ .endOfFile := by simp [isSelect]
  have keyword := valid.passes_next notEnd
  have bodyReads : ReadsNode extent (clauseBlock (commClause rules)) .commBody Node.block :=
    clauseBlock_reads (commClause_reads reading) fun _ => rfl
  have bodyRead := bodyReads keyword.valid bodyOutcome
  have endRead := expectEnd_reads bodyRead.valid endOutcome
  have bodyPlaced := keyword.placed bodyRead
  exact .of_row valid notEnd endRead.valid rfl
    (Int.le_trans bodyPlaced.le_high endRead.row.le) rfl rfl (List.cons_ne_nil _ _)
      (.singleton bodyPlaced.tight)

/-- What the header of a loop has read. -/
def ReadsLoop (extent : Extent) (cursor : Cursor) (after : Cursor) : LoopHeader → Prop
  | .overRange key value (some tok) operand tokPos =>
      after.Valid extent ∧ (∃ text, ⟨tok, text, tokPos⟩ ∈ extent.lexemes) ∧
        Row extent cursor.prevStop tokPos
          (key.toList.map (fun key => (.plain, .expr key)) ++
            value.toList.map fun value => (.plain, .expr value)) ∧
        Row extent (tokPos + 1) after.prevStop [(.plain, .expr operand)]
  | .overRange key value none operand _ =>
      key = none ∧ value = none ∧ ReadsRow extent cursor [(.plain, .expr operand)] after
  | .clauses init cond post =>
      ReadsRow extent cursor (stepParts init ++ (valueParts? cond ++ stepParts post)) after

/-- The last part of a loop header after a semicolon. -/
theorem loopPost_reads (reading : rules.Reading extent) {init cond : Option Stmt}
    {header : LoopHeader}
    (read : ReadsRow extent cursor (stepParts init ++ valueParts? cond) middle)
    (isSemicolon : middle.current.token = .semicolon)
    (outcome : middle.next.current.token = .leftBrace ∧ header = .clauses init cond none ∧
        after = middle.next ∨
      ¬ middle.next.current.token = .leftBrace ∧ ∃ post,
        simpleStmt rules false false middle.next = .ok (post, after) ∧
          header = .clauses init cond (some post)) :
    ReadsLoop extent cursor after header := by
  have semicolon := read.valid.passes_next (by simp [isSemicolon])
  have read := read.skipped semicolon
  obtain ⟨-, rfl, rfl⟩ | ⟨-, post, postOutcome, rfl⟩ := outcome
  · simp only [ReadsLoop, stepParts, Option.toList_none, List.map_nil, List.append_nil]
    exact read
  · have postRead := headerStmt_reads reading semicolon.valid postOutcome
    simp only [ReadsLoop, ← List.append_assoc]
    exact read.append postRead.row

theorem loopClauses_reads (reading : rules.Reading extent) {init : Option Stmt} {header : LoopHeader}
    (initRead : ReadsRow extent cursor (stepParts init) middle)
    (outcome : loopClauses rules init middle = .ok (header, after)) :
    ReadsLoop extent cursor after header := by
  simp [loopClauses] at outcome
  obtain ⟨isSemicolon, outcome⟩ | ⟨-, cond, last, condOutcome, isSemicolon, outcome⟩ := outcome
  · have noCond : ReadsRow extent middle (valueParts? none) middle := .nil initRead.valid
    exact loopPost_reads reading (initRead.append noCond) isSemicolon outcome
  · have condRead := headerValue_reads reading initRead.valid condOutcome
    exact loopPost_reads reading (initRead.append condRead) isSemicolon outcome

theorem loopHeader_reads (reading : rules.Reading extent) {header : LoopHeader}
    (valid : cursor.Valid extent) (outcome : loopHeader rules cursor = .ok (header, after)) :
    ReadsLoop extent cursor after header := by
  simp only [loopHeader, bind_eq_ok, token_eq_ok] at outcome
  obtain ⟨tok, current, ⟨tokEq, currentEq⟩, outcome⟩ := outcome
  subst current
  split at outcome
  · obtain ⟨rfl, rfl⟩ := pure_eq_ok.mp outcome
    exact .nil valid
  · simp at outcome
    obtain ⟨operand, operandOutcome, rfl⟩ := outcome
    have keyword := valid.passes_next (by simp [← tokEq])
    exact ⟨rfl, rfl, (reading.expr keyword.valid operandOutcome).row.skip keyword⟩
  · simp only [bind_eq_ok, advance_eq_ok] at outcome
    obtain ⟨_, _, rfl, outcome⟩ := outcome
    have semicolon := valid.passes_next (by simp [← tokEq])
    have noInit : ReadsRow extent cursor (stepParts none) cursor.next :=
      .skip semicolon (.nil semicolon.valid)
    exact loopClauses_reads reading noInit outcome
  · simp only [bind_eq_ok] at outcome
    obtain ⟨first, middle, firstOutcome, outcome⟩ := outcome
    have firstRead := simpleStmt_reads reading valid firstOutcome
    split at outcome
    · obtain ⟨rfl, rfl⟩ := pure_eq_ok.mp outcome
      cases firstRead with
      | overRange allowed notEnd middleValid written before operandRow =>
          exact ⟨middleValid, written, before, operandRow⟩
      | simple reads notExpr => exact absurd reads.placed.sound.admits Bool.false_ne_true
    · rename_i notRange
      have hasBody := firstRead.hasBody (.inr fun _ _ _ _ _ _ => notRange _ _ _ _ _ _ _)
      simp at outcome
      obtain ⟨⟨-, rfl⟩, rfl⟩ | ⟨isSemicolon, outcome⟩ := outcome
      · have condRead := firstRead.valueRow hasBody
        exact condRead.append (.nil condRead.valid)
      · have stepRead := firstRead.readsStep hasBody
        have semicolon := stepRead.valid.passes_next (by simp [isSemicolon])
        have initRead : ReadsRow extent cursor (stepParts (some first)) middle.next :=
          stepRead.row.skipped semicolon
        exact loopClauses_reads reading initRead outcome

/-- The body of a loop after the parts of its header. -/
theorem loopBody_row {parts : List (Role × Node)} {body : Block}
    (bodyRead : Reads extent .body middle (.block body) last)
    (header : Row extent low middle.prevStop parts)
    (endRead : ReadsRow extent last [] after) :
    Row extent low body.span.stop (parts ++ [(Role.body, Node.block body)]) ∧
      body.span.stop ≤ after.prevStop := by
  obtain ⟨stopLe, row⟩ := (header.append bodyRead.row.row).to_last
  exact ⟨row, Int.le_trans stopLe endRead.row.le⟩

theorem forStmt_reads (reading : rules.Reading extent) :
    ReadsNode extent (forStmt rules) .stmt .stmt := by
  intro cursor step after valid outcome
  simp [forStmt, inHeader] at outcome
  obtain ⟨isFor, header, middle, headerOutcome, body, last, bodyOutcome, _, read, endOutcome,
    outcome⟩ := outcome
  have notEnd : cursor.current.token ≠ .endOfFile := by simp [isFor]
  have keyword := valid.passes_next notEnd
  have headerRead := loopHeader_reads reading (keyword.valid.withLevel _) headerOutcome
  have keywordLe := Int.le_of_lt keyword.pos_lt
  cases header with
  | overRange key value tok operand tokPos =>
      obtain ⟨rfl, rfl⟩ := pure_eq_ok.mp outcome
      cases tok with
      | none =>
          obtain ⟨rfl, rfl, operandRead⟩ := headerRead
          have bodyRead := blockStmt_reads reading (operandRead.valid.withLevel _) bodyOutcome
          have endRead := expectEnd_reads bodyRead.valid endOutcome
          obtain ⟨row, stopLe⟩ := loopBody_row bodyRead operandRead.row endRead
          exact .of_row valid notEnd endRead.valid rfl stopLe rfl rfl (List.cons_ne_nil _ _)
            (row.mono keywordLe (Int.le_refl _))
      | some tok =>
          obtain ⟨middleValid, written, before, operandRow⟩ := headerRead
          have bodyRead := blockStmt_reads reading (middleValid.withLevel _) bodyOutcome
          have endRead := expectEnd_reads bodyRead.valid endOutcome
          obtain ⟨row, stopLe⟩ := loopBody_row bodyRead operandRow endRead
          have before := before.mono keywordLe (Int.le_refl _)
          have prevStopLe := keyword.prevStop_le
          have positive := valid.positive
          have sound : Sound .stmt (.stmt (.range ⟨cursor.current.pos, body.span.stop⟩ key value
              (some tok) operand (some body) tokPos)) := by
            refine .of_rows rfl ?_ ?_ ?_ before row nofun
            · simp only [Node.span, Stmt.span]
              lia
            · simp [Node.token?]
            · simp [Node.parts]
          have beforeLe := before.le
          have afterLe := row.le
          have positive : 0 < cursor.current.pos := by lia
          have room : cursor.current.pos < body.span.stop := by lia
          have wholeRow : Row extent cursor.current.pos body.span.stop ((Node.stmt (.range
              ⟨cursor.current.pos, body.span.stop⟩ key value (some tok) operand (some body)
              tokPos)).parts .stmt) := by
            have whole := before.append (row.mono (Int.le_of_lt (Int.lt_succ _)) (Int.le_refl _))
            simpa [Node.parts] using whole
          exact ⟨notEnd, prevStopLe, endRead.valid, sound, positive, Int.le_refl _, room, stopLe,
            .of_row positive room wholeRow, .of_row written room wholeRow⟩
  | clauses init cond post =>
      have bodyRead := blockStmt_reads reading (headerRead.valid.withLevel _) bodyOutcome
      have endRead := expectEnd_reads bodyRead.valid endOutcome
      obtain ⟨row, stopLe⟩ := loopBody_row bodyRead headerRead.row endRead
      have row := row.mono keywordLe (Int.le_refl _)
      cases cond with
      | none =>
          obtain ⟨rfl, rfl⟩ := pure_eq_ok.mp outcome
          refine .of_row valid notEnd endRead.valid rfl stopLe rfl rfl (by simp [Node.parts]) ?_
          simpa [Node.parts, stepParts, valueParts?, Node.span, Stmt.span] using row
      | some cond =>
          cases cond with
          | expr span value =>
              obtain ⟨rfl, rfl⟩ := pure_eq_ok.mp outcome
              refine .of_row valid notEnd endRead.valid rfl stopLe rfl rfl (by simp [Node.parts]) ?_
              simpa [Node.parts, stepParts, valueParts?, Node.span, Stmt.span] using row
          | _ => exact absurd outcome failAt_ne_ok

theorem callStmt_reads (reading : rules.Reading extent) {keyword : Token}
    {build : Span → Expr → Stmt} (notEnd : keyword ≠ .endOfFile)
    (isBuild : build = .go ∨ build = .defer) :
    ReadsNode extent (callStmt rules keyword build) .stmt .stmt := by
  intro cursor step after valid outcome
  simp only [callStmt, bind_eq_ok, expect_eq_ok] at outcome
  obtain ⟨start, _, ⟨isKeyword, rfl, rfl⟩, call, middle, callOutcome, outcome⟩ := outcome
  rw [← isKeyword] at notEnd
  have passes := valid.passes_next notEnd
  have callRead := reading.expr passes.valid callOutcome
  split at outcome
  · simp at outcome
    obtain ⟨⟨_, endOutcome⟩, rfl⟩ := outcome
    have endRead := expectEnd_reads callRead.valid endOutcome
    have callPlaced := passes.placed callRead
    obtain rfl | rfl := isBuild
    all_goals
      exact .of_row valid notEnd endRead.valid rfl endRead.row.le rfl rfl (List.cons_ne_nil _ _)
        (.singleton callPlaced)
  · exact absurd outcome failAt_ne_ok

theorem returnStmt_reads (reading : rules.Reading extent) :
    ReadsNode extent (returnStmt rules) .stmt .stmt := by
  intro cursor step after valid outcome
  simp [returnStmt, exprList] at outcome
  obtain ⟨isReturn, outcome⟩ := outcome
  have notEnd : cursor.current.token ≠ .endOfFile := by simp [isReturn]
  have keyword := valid.passes_next notEnd
  have keywordLt := keyword.pos_lt
  generalize cursor.next.current.token = tok at outcome
  split at outcome
  case h_3 =>
    simp at outcome
    obtain ⟨first, others, middle, valuesOutcome, ⟨_, endOutcome⟩, rfl⟩ := outcome
    obtain ⟨-, valuesLe, middleValid, valuesRow⟩ :=
      commaSeparated_reads reading.expr keyword.valid valuesOutcome
    have endRead := expectEnd_reads middleValid endOutcome
    refine .of_row valid notEnd endRead.valid rfl endRead.row.le rfl rfl (List.cons_ne_nil _ _) ?_
    have row := valuesRow.mono (by lia : cursor.current.pos ≤ _) (Int.le_refl _)
    simpa [Node.parts, Node.children, Node.stmtChildren, Function.comp_def, Node.span, Stmt.span]
      using row
  all_goals
    simp at outcome
    obtain ⟨⟨_, endOutcome⟩, rfl⟩ := outcome
    have endRead := expectEnd_reads keyword.valid endOutcome
    exact .of_room valid notEnd endRead.valid rfl endRead.row.le rfl rfl
      (.nil (Int.le_of_lt keywordLt)) keywordLt

theorem branchStmt_reads {keyword : Token} (notEnd : keyword ≠ .endOfFile) :
    ReadsNode extent (branchStmt keyword) .stmt .stmt := by
  intro cursor step after valid outcome
  simp [branchStmt] at outcome
  obtain ⟨isKeyword, outcome⟩ := outcome
  rw [← isKeyword] at notEnd
  have passes := valid.passes_next notEnd
  obtain ⟨-, label, middle, labelOutcome, ⟨_, endOutcome⟩, rfl⟩ | ⟨-, ⟨_, endOutcome⟩, rfl⟩ :=
    outcome
  · have labelRead := ident_reads passes.valid labelOutcome
    have endRead := expectEnd_reads labelRead.valid endOutcome
    exact .of_row valid notEnd endRead.valid rfl endRead.row.le rfl rfl (List.cons_ne_nil _ _)
      (.singleton (passes.placed labelRead))
  · have endRead := expectEnd_reads passes.valid endOutcome
    exact .of_room valid notEnd endRead.valid rfl endRead.row.le rfl rfl
      (.nil (Int.le_of_lt passes.pos_lt)) passes.pos_lt

theorem declStmt_reads (reading : rules.Reading extent) {keyword : Token}
    (notEnd : keyword ≠ .endOfFile) : ReadsNode extent (declStmt rules keyword) .stmt .stmt := by
  intro cursor step after valid outcome
  simp [declStmt] at outcome
  obtain ⟨decl, declOutcome, rfl⟩ := outcome
  have itemReads : ReadsNode extent
      (if keyword = .kwType then typeSpec rules else valueSpec rules keyword) .plain .spec := by
    split
    · exact typeSpec_reads reading
    · exact valueSpec_reads reading keyword
  have declRead := genDecl_reads notEnd itemReads valid declOutcome
  have placed := declRead.placed
  exact ⟨declRead.notEnd, declRead.prevStop_le, declRead.valid,
    .of_row placed.low_le placed.le_high rfl placed.positive rfl (List.cons_ne_nil _ _)
      (.singleton placed.alone.tight)⟩

/-- A production of statements as one that can also give nothing. -/
theorem ReadsNode.some {production : Parse Stmt} (reads : ReadsNode extent production .stmt .stmt) :
    ReadsStmts extent (Option.some <$> production) := by
  intro cursor result after valid outcome
  simp at outcome
  obtain ⟨step, outcome, rfl⟩ := outcome
  exact (reads valid outcome).stmt

theorem statement_reads (reading : rules.Reading extent) : ReadsStmts extent (statement rules) := by
  intro cursor result after valid outcome
  simp only [statement, bind_eq_ok, token_eq_ok, ite_eq_ok] at outcome
  obtain ⟨tok, current, ⟨tokEq, currentEq⟩, outcome⟩ := outcome
  subst current
  obtain ⟨-, step, middle, stepOutcome, outcome⟩ | ⟨-, outcome⟩ := outcome
  · have stepRead := simpleStmt_reads reading valid stepOutcome
    cases stepRead with
    | labeled allowed notEnd reads =>
        obtain ⟨rfl, rfl⟩ := pure_eq_ok.mp outcome
        exact reads
    | expr reads =>
        simp at outcome
        obtain ⟨⟨_, endOutcome⟩, rfl⟩ := outcome
        exact ((exprStmt_reads reads).simple.ended (expectEnd_reads reads.valid endOutcome)).stmt
    | simple reads notExpr =>
        have notLabel : ∀ span label inner, step ≠ .labeled span label inner := by
          rintro span label inner rfl
          exact absurd reads.placed.sound.admits Bool.false_ne_true
        split at outcome
        · exact absurd rfl (notLabel _ _ _)
        · simp at outcome
          obtain ⟨⟨_, endOutcome⟩, rfl⟩ := outcome
          exact (reads.simple.ended (expectEnd_reads reads.valid endOutcome)).stmt
    | overRange allowed => exact absurd allowed Bool.false_ne_true
  · split at outcome
    · exact (declStmt_reads reading (by decide)).some valid outcome
    · exact (declStmt_reads reading (by decide)).some valid outcome
    · exact (declStmt_reads reading (by decide)).some valid outcome
    · exact (callStmt_reads reading (by decide) (.inl rfl)).some valid outcome
    · exact (callStmt_reads reading (by decide) (.inr rfl)).some valid outcome
    · exact (returnStmt_reads reading).some valid outcome
    · exact (branchStmt_reads (by decide)).some valid outcome
    · exact (branchStmt_reads (by decide)).some valid outcome
    · exact (branchStmt_reads (by decide)).some valid outcome
    · exact (branchStmt_reads (by decide)).some valid outcome
    · simp at outcome
      obtain ⟨block, middle, blockOutcome, ⟨_, endOutcome⟩, rfl⟩ := outcome
      have blockRead := (blockStmt_reads reading valid blockOutcome).withRole
        (show Role.stmt.admits (.block block) from rfl) rfl
      exact (blockRead.ended (expectEnd_reads blockRead.valid endOutcome)).stmt
    · have reads : ReadsNode extent (ifStmt rules) .stmt .stmt := by
        intro cursor step after valid outcome
        have ifRead := ifStmt_reads reading valid outcome
        refine ifRead.withRole ?_ rfl
        have admitted := ifRead.placed.sound.admits
        cases step <;> first | rfl | exact absurd admitted Bool.false_ne_true
      exact reads.some valid outcome
    · exact (switchStmt_reads reading).some valid outcome
    · exact (selectStmt_reads reading).some valid outcome
    · exact (forStmt_reads reading).some valid outcome
    · simp at outcome
      obtain ⟨rfl, rfl⟩ := outcome
      have semicolon := valid.passes_next (by simp [← tokEq])
      exact .skip semicolon (.nil semicolon.valid)
    · exact absurd outcome expected_ne_ok

end Parse

end GoMend
