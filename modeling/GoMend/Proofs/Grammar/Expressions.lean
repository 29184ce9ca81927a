import GoMend.Grammar.Expressions
import GoMend.Proofs.Grammar.Types

/-!
# Expressions are read in order

An operand that is extended keeps its beginning, and what extends it stands after it.
-/

namespace GoMend

open Cursor

variable {extent : Extent} {cursor after : Cursor} {low : Pos} {rules : Rules}

/-- An expression that was read up to the cursor. -/
structure ReadUpTo (extent : Extent) (low : Pos) (cursor : Cursor) (value : Expr) : Prop where
  valid : cursor.Valid extent
  placed : Placed extent low cursor.prevStop .plain (.expr value)

theorem Reads.upTo {value : Expr} (reads : Reads extent .plain cursor (.expr value) after) :
    ReadUpTo extent cursor.current.pos after value :=
  ⟨reads.valid, reads.placed⟩

namespace Parse

/-- Something in brackets. -/
theorem enclosed_reads {α : Type} {production : Parse α} {parts : α → List (Role × Node)}
    {middle : Cursor} {value : α} (reads : ReadsParts extent production parts)
    (valid : cursor.Valid extent) (opens : cursor.current.token ≠ .endOfFile)
    (outcome : bracketed production cursor.next = .ok (value, middle))
    (closes : middle.current.token ≠ .endOfFile) :
    Passes extent cursor cursor.next ∧ ReadsRow extent cursor.next (parts value) middle.next := by
  have opening := valid.passes_next opens
  have read := bracketed_reads reads opening.valid outcome
  exact ⟨opening, read.skipped (read.valid.passes_next closes)⟩

theorem keyedElement_reads (reading : rules.Reading extent) :
    ReadsNode extent (keyedElement rules) .plain .expr := by
  intro cursor value after valid outcome
  simp [keyedElement] at outcome
  obtain ⟨key, middle, keyOutcome, outcome⟩ := outcome
  have keyRead := reading.element valid keyOutcome
  obtain ⟨⟨-, rfl⟩, rfl⟩ | ⟨isColon, elem, elemOutcome, rfl⟩ := outcome
  · exact keyRead
  · have colon := keyRead.valid.passes_next (by simp [isColon])
    have elemRead := reading.element colon.valid elemOutcome
    refine ⟨keyRead.notEnd, keyRead.prevStop_le, elemRead.valid,
      .of_row keyRead.placed.low_le elemRead.placed.le_high rfl keyRead.placed.positive rfl
        (List.cons_ne_nil _ _) ?_⟩
    have elemPlaced := (colon.placed elemRead).tight.mono colon.prevStop_le (Int.le_refl _)
    exact .cons keyRead.placed.alone (.singleton elemPlaced)

theorem compositeLit_reads (reading : rules.Reading extent) :
    ReadsNode extent (compositeLit rules none) .plain .expr := by
  intro cursor value after valid outcome
  simp [compositeLit] at outcome
  obtain ⟨opens, elems, middle, elemsOutcome, closes, rfl, rfl⟩ := outcome
  have notEnd : cursor.current.token ≠ .endOfFile := by simp [opens]
  obtain ⟨opening, elemsRead⟩ := enclosed_reads (listUntil_readsNodes (keyedElement_reads reading))
    valid notEnd elemsOutcome (by simp [closes])
  refine .of_room valid notEnd elemsRead.valid rfl (Int.le_refl _) rfl rfl ?_
    (opening.lt_of_reads elemsRead)
  simpa [Node.parts, Node.children, Node.exprChildren, Function.comp_def, Node.span, Expr.span]
    using opening.row elemsRead

theorem compositeLit_upTo (reading : rules.Reading extent) {type value : Expr}
    (typeRead : ReadUpTo extent low cursor type)
    (outcome : compositeLit rules (some type) cursor = .ok (value, after)) :
    ReadUpTo extent low after value := by
  simp [compositeLit] at outcome
  obtain ⟨opens, elems, middle, elemsOutcome, closes, rfl, rfl⟩ := outcome
  obtain ⟨opening, elemsRead⟩ := enclosed_reads (listUntil_readsNodes (keyedElement_reads reading))
    typeRead.valid (by simp [opens]) elemsOutcome (by simp [closes])
  have placed := typeRead.placed
  refine ⟨elemsRead.valid, .of_row placed.low_le (Int.le_refl _) rfl placed.positive rfl
    (List.cons_ne_nil _ _) ?_⟩
  simpa [Node.parts, Node.children, Node.exprChildren, Function.comp_def, Node.span, Expr.span]
    using Row.cons placed.alone (elemsRead.skip opening).row

theorem elementValue_reads (reading : rules.Reading extent) :
    ReadsNode extent (elementValue rules) .plain .expr := by
  intro cursor value after valid outcome
  simp [elementValue] at outcome
  obtain ⟨-, outcome⟩ | ⟨-, outcome⟩ := outcome
  · exact compositeLit_reads reading valid outcome
  · exact reading.expr valid outcome

theorem funcLitOrType_reads (reading : rules.Reading extent) :
    ReadsNode extent (funcLitOrType rules) .plain .expr := by
  intro cursor value after valid outcome
  simp only [funcLitOrType, bind_eq_ok, expect_eq_ok] at outcome
  obtain ⟨start, _, ⟨isFunc, rfl, rfl⟩, type, middle, typeOutcome, outcome⟩ := outcome
  have notEnd : cursor.current.token ≠ .endOfFile := by simp [isFunc]
  have passes := valid.passes_next notEnd
  have prevStopLe := passes.prevStop_le
  have posLt := passes.pos_lt
  have prevPositive := valid.positive
  obtain ⟨-, middleValid, -, typePlaced⟩ :=
    funcTypeFrom_reads reading passes.valid (by lia) (by lia) typeOutcome
  simp only [bind_eq_ok, token_eq_ok, ite_eq_ok, pure_eq_ok] at outcome
  obtain ⟨_, _, ⟨rfl, rfl⟩, ⟨-, body, last, bodyOutcome, rfl, rfl⟩ | ⟨-, rfl, rfl⟩⟩ := outcome
  · have bodyRead := atLevel_readsNode reading.block middleValid bodyOutcome
    refine .of_row valid notEnd bodyRead.valid rfl bodyRead.placed.le_high rfl rfl
      (List.cons_ne_nil _ _) ?_
    exact .cons typePlaced
      (.singleton (bodyRead.placed.tight.mono bodyRead.prevStop_le (Int.le_refl _)))
  · exact ⟨notEnd, prevStopLe, middleValid, typePlaced⟩

theorem operand_reads (reading : rules.Reading extent) :
    ReadsNode extent (operand rules) .plain .expr := by
  intro cursor value after valid outcome
  simp [operand] at outcome
  have notEnd : cursor.current.token ≠ .endOfFile := by
    intro atEnd
    simp [atEnd] at outcome
  have literalCase : cursor.current.token.isLiteral →
      (Expr.lit <$> literal : Parse Expr) cursor = .ok (value, after) →
        Reads extent .plain cursor (.expr value) after := by
    intro isLiteral mapped
    obtain ⟨written, literalOutcome, rfl⟩ := map_eq_ok.mp mapped
    exact literal_reads valid isLiteral literalOutcome
  generalize tokEq : cursor.current.token = tok at outcome
  split at outcome
  case h_1 =>
    simp at outcome
    obtain ⟨name, outcome, rfl⟩ := outcome
    exact ident_reads valid outcome
  case h_7 =>
    simp at outcome
    obtain ⟨opens, inner, middle, innerOutcome, closes, rfl, rfl⟩ := outcome
    obtain ⟨opening, innerRead⟩ := enclosed_reads reading.expr.readsParts valid notEnd
      innerOutcome (by simp [closes])
    exact .of_row valid notEnd innerRead.valid rfl (Int.le_refl _) rfl rfl (List.cons_ne_nil _ _)
      (opening.row innerRead)
  case h_8 => exact funcLitOrType_reads reading valid outcome
  case h_14 => exact absurd outcome expected_ne_ok
  case h_2 | h_3 | h_4 | h_5 | h_6 => exact literalCase (by rw [tokEq]; rfl) outcome
  all_goals exact reading.type valid outcome

theorem selectorOrAssertion_upTo (reading : rules.Reading extent) {operand value : Expr}
    (operandRead : ReadUpTo extent low cursor operand)
    (outcome : selectorOrAssertion rules operand cursor = .ok (value, after)) :
    ReadUpTo extent low after value := by
  simp [selectorOrAssertion] at outcome
  have placed := operandRead.placed
  generalize tokEq : cursor.current.token = tok at outcome
  split at outcome
  · simp at outcome
    obtain ⟨sel, selOutcome, rfl⟩ := outcome
    have selRead := ident_reads operandRead.valid selOutcome
    refine ⟨selRead.valid, .of_row placed.low_le selRead.placed.le_high rfl placed.positive rfl
      (List.cons_ne_nil _ _) ?_⟩
    exact .cons placed.alone
      (.singleton (selRead.placed.tight.mono selRead.prevStop_le (Int.le_refl _)))
  · have opening := operandRead.valid.passes_next (by simp [tokEq])
    simp at outcome
    obtain ⟨-, type, middle, typeOutcome, closes, rfl, rfl⟩ | ⟨isType, closes, rfl, rfl⟩ := outcome
    · have typeRead := reading.type opening.valid typeOutcome
      have closing := typeRead.valid.passes_next (by simp [closes])
      have typeRow := (typeRead.row.skipped closing).skip opening
      exact ⟨closing.valid, .of_row placed.low_le (Int.le_refl _) rfl placed.positive rfl
        (List.cons_ne_nil _ _)
        (.cons placed.alone typeRow.row)⟩
    · have keyword := opening.valid.passes_next (by simp [isType])
      have closing := keyword.valid.passes_next (by simp [closes])
      have emptyRow := ((ReadsRow.nil keyword.valid).skipped closing).skip keyword |>.skip opening
      exact ⟨closing.valid, .of_row placed.low_le (Int.le_refl _) rfl placed.positive rfl
        (List.cons_ne_nil _ _)
        (.cons placed.alone emptyRow.row)⟩
  · exact absurd outcome expected_ne_ok

theorem sliceIndex_reads (reading : rules.Reading extent) :
    ReadsParts extent (sliceIndex rules) fun index =>
      index.toList.map fun value => (.plain, .expr value) := by
  intro cursor index after valid outcome
  simp [sliceIndex] at outcome
  generalize cursor.current.token = tok at outcome
  split at outcome <;> simp at outcome
  · obtain ⟨rfl, rfl⟩ := outcome
    exact .nil valid
  · obtain ⟨rfl, rfl⟩ := outcome
    exact .nil valid
  · obtain ⟨value, valueOutcome, rfl⟩ := outcome
    exact (reading.expr valid valueOutcome).row

/-- The parts of the indices between brackets. -/
def Indices.parts (indices : Indices) : List (Role × Node) :=
  indices.first.toList.map (fun value => (Role.plain, Node.expr value)) ++
    (indices.second.toList.map (fun value => (Role.plain, Node.expr value)) ++
      indices.third.toList.map fun value => (Role.plain, Node.expr value))

/-- What follows the first index. -/
theorem indicesAfterFirst_reads (reading : rules.Reading extent) {first : Option Expr}
    {parts : Indices} (valid : cursor.Valid extent)
    (outcome : (do
      if ← accept .colon then
        let second ← sliceIndex rules
        if ← accept .colon then
          let third ← sliceIndex rules
          return ⟨first, second, third, 2⟩
        else
          return ⟨first, second, none, 1⟩
      else
        return { first } : Parse Indices) cursor = .ok (parts, after)) :
    parts.first = first ∧
      ReadsRow extent cursor
        (parts.second.toList.map (fun value => (Role.plain, Node.expr value)) ++
          parts.third.toList.map fun value => (Role.plain, Node.expr value)) after := by
  simp at outcome
  obtain ⟨⟨-, rfl⟩, rfl⟩ | ⟨isColon, second, middle, secondOutcome, outcome⟩ := outcome
  · exact ⟨rfl, .nil valid⟩
  · have colon := valid.passes_next (by simp [isColon])
    have secondRead := sliceIndex_reads reading colon.valid secondOutcome
    obtain ⟨⟨-, rfl⟩, rfl⟩ | ⟨isColon, third, thirdOutcome, rfl⟩ := outcome
    · refine ⟨rfl, ?_⟩
      simpa using secondRead.skip colon
    · have secondColon := secondRead.valid.passes_next (by simp [isColon])
      have thirdRead := sliceIndex_reads reading secondColon.valid thirdOutcome
      exact ⟨rfl, .skip colon (secondRead.append (thirdRead.skip secondColon))⟩

theorem indices_reads (reading : rules.Reading extent) :
    ReadsParts extent (indices rules) Indices.parts := by
  intro cursor parts after valid outcome
  unfold indices at outcome
  obtain ⟨tok, here, tokOutcome, rest⟩ := bind_eq_ok.mp outcome
  obtain ⟨-, rfl⟩ := token_eq_ok.mp tokOutcome
  obtain ⟨-, rest⟩ | ⟨-, rest⟩ := ite_eq_ok.mp rest
  · obtain ⟨first, middle, firstOutcome, rest⟩ := bind_eq_ok.mp rest
    obtain ⟨rfl, rfl⟩ := pure_eq_ok.mp firstOutcome
    obtain ⟨firstEq, restRead⟩ := indicesAfterFirst_reads reading valid rest
    rw [Indices.parts, firstEq]
    exact restRead
  · obtain ⟨first, middle, firstOutcome, rest⟩ := bind_eq_ok.mp rest
    obtain ⟨value, valueOutcome, rfl⟩ := map_eq_ok.mp firstOutcome
    have valueRead := reading.expr valid valueOutcome
    obtain ⟨firstEq, restRead⟩ := indicesAfterFirst_reads reading valueRead.valid rest
    rw [Indices.parts, firstEq]
    exact valueRead.row.append restRead

theorem indexOrSlice_upTo (reading : rules.Reading extent) {operand value : Expr}
    (operandRead : ReadUpTo extent low cursor operand)
    (outcome : indexOrSlice rules operand cursor = .ok (value, after)) :
    ReadUpTo extent low after value := by
  simp [indexOrSlice] at outcome
  obtain ⟨opens, parts, middle, partsOutcome, closes, outcome⟩ := outcome
  obtain ⟨opening, partsRead⟩ := enclosed_reads (indices_reads reading) operandRead.valid
    (by simp [opens]) partsOutcome (by simp [closes])
  have placed := operandRead.placed
  have row := Row.cons placed.alone (partsRead.skip opening).row
  obtain ⟨-, rfl, rfl⟩ | ⟨-, outcome⟩ := outcome
  · refine ⟨partsRead.valid, .of_row placed.low_le (Int.le_refl _) rfl placed.positive rfl
      (List.cons_ne_nil _ _) ?_⟩
    simpa [Node.parts, Node.children, Node.exprChildren, Indices.parts, Function.comp_def,
      Node.span, Expr.span] using row
  · obtain ⟨first, second, third, colons⟩ := parts
    cases first with
    | none => exact absurd outcome expected_ne_ok
    | some index =>
        simp at outcome
        obtain ⟨rfl, rfl⟩ := outcome
        refine ⟨partsRead.valid, .of_row placed.low_le (Int.le_refl _) rfl placed.positive rfl
          (List.cons_ne_nil _ _) ?_⟩
        -- Without a colon there is no other index, but the row says enough in any case.
        change Row extent _ _
          ([(Role.plain, Node.expr operand), (Role.plain, Node.expr index)] ++ _) at row
        obtain ⟨stop, indexRow, othersRow⟩ := row.exists_middle
        exact indexRow.mono (Int.le_refl _) othersRow.le

theorem call_upTo (reading : rules.Reading extent) {callee value : Expr}
    (calleeRead : ReadUpTo extent low cursor callee)
    (outcome : call rules callee cursor = .ok (value, after)) :
    ReadUpTo extent low after value := by
  simp [call] at outcome
  obtain ⟨opens, args, middle, argsOutcome, closes, rfl, rfl⟩ := outcome
  have argReads : ReadsParts extent
      (do
        let arg ← rules.expr
        Prod.mk arg <$> accept .ellipsis)
      fun arg => [(.plain, .expr arg.1)] := by
    intro cursor arg after valid outcome
    simp at outcome
    obtain ⟨value, middle, valueOutcome, ⟨⟨-, rfl⟩, rfl⟩ | ⟨⟨isEllipsis, rfl⟩, rfl⟩⟩ := outcome
    · exact (reading.expr valid valueOutcome).row
    · have valueRead := reading.expr valid valueOutcome
      exact valueRead.row.skipped (valueRead.valid.passes_next (by simp [isEllipsis]))
  obtain ⟨opening, argsRead⟩ := enclosed_reads (listUntil_reads argReads) calleeRead.valid
    (by simp [opens]) argsOutcome (by simp [closes])
  have placed := calleeRead.placed
  refine ⟨argsRead.valid, .of_row placed.low_le (Int.le_refl _) rfl placed.positive rfl
    (List.cons_ne_nil _ _) ?_⟩
  have row := Row.cons placed.alone (argsRead.skip opening).row
  simp only [← List.map_eq_flatMap] at row
  simpa [Node.parts, Node.children, Node.exprChildren, Function.comp_def, Node.span, Expr.span]
    using row

theorem extension_upTo (reading : rules.Reading extent) {operand : Expr} {extended : Option Expr}
    (operandRead : ReadUpTo extent low cursor operand)
    (outcome : extension rules operand cursor = .ok (extended, after)) :
    ReadUpTo extent low after (extended.getD operand) := by
  simp [extension] at outcome
  generalize tokEq : cursor.current.token = tok at outcome
  split at outcome <;> simp at outcome
  · obtain ⟨value, valueOutcome, rfl⟩ := outcome
    have period := operandRead.valid.passes_next (by simp [tokEq])
    have prevStopLe := period.prevStop_le
    have posLt := period.pos_lt
    have movedRead : ReadUpTo extent low cursor.next operand :=
      ⟨period.valid, operandRead.placed.mono (Int.le_refl _) (by lia)⟩
    exact selectorOrAssertion_upTo reading movedRead valueOutcome
  · obtain ⟨value, valueOutcome, rfl⟩ := outcome
    exact indexOrSlice_upTo reading operandRead valueOutcome
  · obtain ⟨value, valueOutcome, rfl⟩ := outcome
    exact call_upTo reading operandRead valueOutcome
  · obtain ⟨-, value, valueOutcome, rfl⟩ | ⟨-, rfl, rfl⟩ := outcome
    · exact compositeLit_upTo reading operandRead valueOutcome
    · exact operandRead
  · obtain ⟨rfl, rfl⟩ := outcome
    exact operandRead

theorem primaryFrom_upTo (reading : rules.Reading extent) {operand value : Expr}
    (operandRead : ReadUpTo extent low cursor operand)
    (outcome : primaryFrom rules operand cursor = .ok (value, after)) :
    ReadUpTo extent low after value :=
  extendAll_keeps (fun _ _ _ _ read outcome => extension_upTo reading read outcome) operandRead
    outcome

theorem unaryExpr_reads (reading : rules.Reading extent) :
    ReadsNode extent (unaryExpr rules) .plain .expr := by
  intro cursor value after valid outcome
  have prefixed : ∀ {operand : Expr}, cursor.current.token ≠ .endOfFile →
      rules.unary cursor.next = .ok (operand, after) →
      after.Valid extent ∧ operand.span.stop ≤ after.prevStop ∧
        Row extent cursor.current.pos operand.span.stop [(.plain, .expr operand)] := by
    intro operand notEnd outcome
    have passes := valid.passes_next notEnd
    have operandRead := reading.unary passes.valid outcome
    exact ⟨operandRead.valid, operandRead.placed.le_high,
      .singleton (passes.placed operandRead).tight⟩
  have primary : ∀ {operand : Expr} {middle : Cursor},
      Reads extent .plain cursor (.expr operand) middle →
      primaryFrom rules operand middle = .ok (value, after) →
      Reads extent .plain cursor (.expr value) after := by
    intro operand middle operandRead outcome
    have read := primaryFrom_upTo reading operandRead.upTo outcome
    exact ⟨operandRead.notEnd, operandRead.prevStop_le, read.valid, read.placed⟩
  simp [unaryExpr] at outcome
  obtain ⟨isUnary, operand, outcome, rfl⟩ |
    ⟨-, ⟨isArrow, ⟨-, operand, middle, operandOutcome, outcome⟩ | ⟨-, operand, outcome, rfl⟩⟩ |
      ⟨-, ⟨isStar, operand, outcome, rfl⟩ | ⟨-, operand, middle, operandOutcome, outcome⟩⟩⟩ :=
    outcome
  · have notEnd : cursor.current.token ≠ .endOfFile := by
      intro atEnd
      simp [atEnd, isUnaryOperator] at isUnary
    obtain ⟨validAfter, stopLe, row⟩ := prefixed notEnd outcome
    exact .of_row valid notEnd validAfter rfl stopLe rfl rfl (List.cons_ne_nil _ _) row
  · exact primary (reading.type valid operandOutcome) outcome
  · have notEnd : cursor.current.token ≠ .endOfFile := by simp [isArrow]
    obtain ⟨validAfter, stopLe, row⟩ := prefixed notEnd outcome
    exact .of_row valid notEnd validAfter rfl stopLe rfl rfl (List.cons_ne_nil _ _) row
  · have notEnd : cursor.current.token ≠ .endOfFile := by simp [isStar]
    obtain ⟨validAfter, stopLe, row⟩ := prefixed notEnd outcome
    exact .of_row valid notEnd validAfter rfl stopLe rfl rfl (List.cons_ne_nil _ _) row
  · exact primary (operand_reads reading valid operandOutcome) outcome

theorem binaryStep_upTo (reading : rules.Reading extent) {least : Nat} {left : Expr}
    {extended : Option Expr} (leftRead : ReadUpTo extent low cursor left)
    (outcome : binaryStep rules least left cursor = .ok (extended, after)) :
    ReadUpTo extent low after (extended.getD left) := by
  simp [binaryStep] at outcome
  obtain ⟨-, rfl, rfl⟩ | ⟨-, right, rightOutcome, rfl⟩ := outcome
  · exact leftRead
  · have notEnd : cursor.current.token ≠ .endOfFile := by
      intro atEnd
      have stays : cursor.next = cursor := by simp [Cursor.next, atEnd]
      rw [stays] at rightOutcome
      exact (reading.binary _ leftRead.valid rightOutcome).notEnd atEnd
    have operator := leftRead.valid.passes_next notEnd
    have rightRead := reading.binary _ operator.valid rightOutcome
    have placed := leftRead.placed
    refine ⟨rightRead.valid,
      .of_row placed.low_le rightRead.placed.le_high rfl placed.positive rfl (List.cons_ne_nil _ _) ?_⟩
    have rightPlaced := (operator.placed rightRead).tight.mono operator.prevStop_le (Int.le_refl _)
    exact .cons placed.alone (.singleton rightPlaced)

theorem binaryExpr_reads (reading : rules.Reading extent) (least : Nat) :
    ReadsNode extent (binaryExpr rules least) .plain .expr := by
  intro cursor value after valid outcome
  simp [binaryExpr] at outcome
  obtain ⟨left, middle, leftOutcome, outcome⟩ := outcome
  have leftRead := unaryExpr_reads reading valid leftOutcome
  have read := extendAll_keeps
    (fun _ _ _ _ read outcome => binaryStep_upTo reading read outcome) leftRead.upTo outcome
  exact ⟨leftRead.notEnd, leftRead.prevStop_le, read.valid, read.placed⟩

end Parse

end GoMend
