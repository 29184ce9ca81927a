import GoMend.Grammar.Types
import GoMend.Proofs.Grammar.Reading

/-!
# Types are read in order

Names, literals, parameter lists and types are sound nodes that stand between the cursors before
and after them.
-/

namespace GoMend

open Cursor

variable {extent : Extent} {cursor after : Cursor} {low : Pos} {rules : Rules}

namespace Parse

/-- A node that is one lexeme. -/
theorem lexeme_reads {node : Node} (valid : cursor.Valid extent)
    (notEnd : cursor.current.token ≠ .endOfFile) (spanEq : node.span = cursor.current.span)
    (admitted : Role.plain.admits node) (token : node.token? = some (0, cursor.current.pos))
    (written : cursor.current ∈ extent.lexemes → node.TokenWritten extent.lexemes)
    (noParts : node.parts .plain = []) : Reads extent .plain cursor node cursor.next := by
  have passes := valid.passes_next notEnd
  have prevPositive := valid.positive
  have prevStopLe := passes.prevStop_le
  have posLt := passes.pos_lt
  have stopEq := passes.stop_eq
  have startEq : node.span.start = cursor.current.pos := by rw [spanEq]; rfl
  have nodeStopEq : node.span.stop = cursor.current.stop := by rw [spanEq]; rfl
  have before : Row extent node.span.start cursor.current.pos [] := .nil (by lia)
  have rest : Row extent (cursor.current.pos + 1) node.span.stop [] := .nil (by lia)
  have token : node.token? = some (([] : List (Role × Node)).length, cursor.current.pos) := token
  have opens : ∀ first, node.opener? = some first → first.span.start = node.span.start := by
    intro first isFirst
    unfold Node.opener? at isFirst
    split at isFirst
    · cases admitted
    · cases isFirst
  have sound : Sound .plain node := .of_rows admitted (by lia) token noParts before rest opens
  have row : Row extent node.span.start node.span.stop (node.parts .plain) := noParts ▸ .nil (by lia)
  have clear : node.Clear := .of_row (by lia) (by lia) row
  have drawn : node.Drawn extent.lexemes := .of_row (written passes.mem) (by lia) row
  exact ⟨notEnd, prevStopLe, passes.valid, sound, by lia, by lia, by lia, by lia, clear, drawn⟩

theorem ident_reads : ReadsNode extent ident .plain Node.ident := by
  intro cursor name after valid outcome
  simp [ident] at outcome
  obtain ⟨isIdent, rfl, rfl⟩ := outcome
  have notEnd : cursor.current.token ≠ .endOfFile := by simp [isIdent]
  exact lexeme_reads valid notEnd rfl ((valid.passes_next notEnd).isWord isIdent) rfl
    (fun isLexeme => .inl (isIdent ▸ isLexeme)) rfl

theorem literal_reads {value : BasicLit} (valid : cursor.Valid extent)
    (isLiteral : cursor.current.token.isLiteral) (outcome : literal cursor = .ok (value, after)) :
    Reads extent .plain cursor (.lit value) after := by
  have notEnd : cursor.current.token ≠ .endOfFile := by
    intro isEnd
    rw [isEnd] at isLiteral
    cases isLiteral
  simp [literal] at outcome
  obtain ⟨rfl, rfl⟩ := outcome
  exact lexeme_reads valid notEnd rfl rfl rfl (fun isLexeme => ⟨isLiteral, isLexeme⟩) rfl

theorem accept_readsParts (tok : Token) (notEnd : tok ≠ .endOfFile) :
    ReadsParts extent (accept tok) fun _ => [] :=
  fun _ _ _ valid outcome => accept_reads valid outcome notEnd

/-- Items divided by commas. -/
theorem commaSeparated_reads {α : Type} {item : Parse α} {role : Role} {wrap : α → Node}
    (itemReads : ReadsNode extent item role wrap) {first : α} {others : List α}
    (valid : cursor.Valid extent)
    (outcome : commaSeparated item cursor = .ok ((first, others), after)) :
    cursor.current.token ≠ .endOfFile ∧ cursor.prevStop ≤ cursor.current.pos ∧
      after.Valid extent ∧
      Row extent cursor.current.pos after.prevStop
        ((first :: others).map fun value => (role, wrap value)) := by
  simp [commaSeparated] at outcome
  obtain ⟨middle, firstOutcome, othersOutcome⟩ := outcome
  have firstRead := itemReads valid firstOutcome
  have othersRead := manyWhile_readsNodes (accept_readsParts .comma (by decide)) itemReads
    firstRead.valid othersOutcome
  exact ⟨firstRead.notEnd, firstRead.prevStop_le, othersRead.valid,
    .cons firstRead.placed othersRead.row⟩

theorem paramType_reads (reading : rules.Reading extent) :
    ReadsNode extent (paramType rules) .plain .expr := by
  intro cursor value after valid outcome
  simp [paramType] at outcome
  obtain ⟨isEllipsis, elem, elemOutcome, rfl⟩ | ⟨-, outcome⟩ := outcome
  · have notEnd : cursor.current.token ≠ .endOfFile := by simp [isEllipsis]
    have passes := valid.passes_next notEnd
    have elemRead := reading.type passes.valid elemOutcome
    exact .of_row valid notEnd elemRead.valid rfl elemRead.placed.le_high rfl rfl (List.cons_ne_nil _ _)
      (.singleton (passes.placed elemRead).tight)
  · exact reading.type valid outcome

/-- A name, or the qualified name that it begins. -/
theorem qualifiedFrom_placed {first : Ident} {value : Expr} (valid : cursor.Valid extent)
    (firstPlaced : Placed extent low cursor.prevStop .plain (.ident first))
    (outcome : qualifiedFrom first cursor = .ok (value, after)) :
    after.Valid extent ∧ Placed extent low after.prevStop .plain (.expr value) := by
  simp [qualifiedFrom] at outcome
  obtain ⟨⟨-, rfl⟩, rfl⟩ | ⟨isPeriod, sel, selOutcome, rfl⟩ := outcome
  · exact ⟨valid, firstPlaced⟩
  · have passes := valid.passes_next (by simp [isPeriod])
    have selRead := ident_reads passes.valid selOutcome
    refine ⟨selRead.valid, .of_row firstPlaced.low_le selRead.placed.le_high rfl
      firstPlaced.positive rfl (List.cons_ne_nil _ _) ?_⟩
    have selAfter := (passes.placed selRead).tight.mono passes.prevStop_le (Int.le_refl _)
    exact .cons firstPlaced.alone (.singleton selAfter)

/-- The length of an array between its brackets. -/
theorem arrayLength_reads (reading : rules.Reading extent) :
    ReadsParts extent (arrayLength rules) fun length =>
      length.toList.map fun value => (.plain, .expr value) := by
  intro cursor length after valid outcome
  simp [arrayLength] at outcome
  generalize tokEq : cursor.current.token = tok at outcome
  split at outcome
  · simp at outcome
    obtain ⟨rfl, rfl⟩ := outcome
    have notEnd : cursor.current.token ≠ .endOfFile := by simp [tokEq]
    have passes := valid.passes_next notEnd
    have read : Reads extent .plain cursor
        (.expr (.ellipsis ⟨cursor.current.pos, cursor.current.pos + 3⟩ none)) cursor.next :=
      .of_room valid notEnd passes.valid rfl (passes.ellipsis tokEq) rfl rfl
        (.nil (by simp only [Node.span, Expr.span]; lia)) (by simp only [Node.span, Expr.span]; lia)
    exact read.row
  · simp at outcome
    obtain ⟨rfl, rfl⟩ := outcome
    exact .nil valid
  · simp at outcome
    obtain ⟨value, valueOutcome, rfl⟩ := outcome
    exact (bracketed_readsNode reading.expr valid valueOutcome).row

/-- The names and the type of a struct field. -/
theorem structMember_reads (reading : rules.Reading extent) {names : List Ident} {type : Expr}
    (valid : cursor.Valid extent) (outcome : structMember rules cursor = .ok ((names, type), after)) :
    cursor.current.token ≠ .endOfFile ∧ after.Valid extent ∧
      Row extent cursor.current.pos after.prevStop
        (names.map (fun name => (Role.plain, Node.ident name)) ++
          [(Role.plain, Node.expr type)]) := by
  simp [structMember] at outcome
  obtain ⟨-, typeOutcome, rfl⟩ | ⟨-, first, middle, firstOutcome, outcome⟩ := outcome
  · have typeRead := reading.type valid typeOutcome
    exact ⟨typeRead.notEnd, typeRead.valid, .singleton typeRead.placed⟩
  · have firstRead := ident_reads valid firstOutcome
    refine ⟨firstRead.notEnd, ?_⟩
    generalize middle.current.token = tok at outcome
    split at outcome
    · simp at outcome
      obtain ⟨typeOutcome, rfl⟩ := outcome
      obtain ⟨validAfter, placed⟩ := qualifiedFrom_placed firstRead.valid firstRead.placed typeOutcome
      exact ⟨validAfter, .singleton placed⟩
    · simp at outcome
      obtain ⟨⟨rfl, rfl⟩, rfl⟩ := outcome
      exact ⟨firstRead.valid, .singleton firstRead.placed⟩
    · simp at outcome
      obtain ⟨⟨rfl, rfl⟩, rfl⟩ := outcome
      exact ⟨firstRead.valid, .singleton firstRead.placed⟩
    · simp at outcome
      obtain ⟨⟨rfl, rfl⟩, rfl⟩ := outcome
      exact ⟨firstRead.valid, .singleton firstRead.placed⟩
    · simp at outcome
      obtain ⟨others, last, othersOutcome, typeOutcome, rfl⟩ := outcome
      have othersRead := manyWhile_readsNodes (accept_readsParts .comma (by decide)) ident_reads
        firstRead.valid othersOutcome
      have typeRead := reading.type othersRead.valid typeOutcome
      exact ⟨typeRead.valid, .cons firstRead.placed (othersRead.append typeRead.row).row⟩

theorem structField_reads (reading : rules.Reading extent) :
    ReadsNode extent (structField rules) .plain .field := by
  intro cursor field after valid outcome
  simp [structField] at outcome
  obtain ⟨names, type, middle, memberOutcome, outcome⟩ := outcome
  obtain ⟨notEnd, middleValid, memberRow⟩ := structMember_reads reading valid memberOutcome
  obtain ⟨isString, tag, last, tagOutcome, ⟨_, endOutcome⟩, rfl⟩ |
    ⟨-, ⟨_, endOutcome⟩, rfl⟩ := outcome
  · have tagRead := literal_reads middleValid (by simp [isString, Token.isLiteral]) tagOutcome
    have endRead := expectEnd_reads tagRead.valid endOutcome
    refine .of_row valid notEnd endRead.valid rfl endRead.row.le rfl rfl
      (by simp [Node.parts, Node.children]) ?_
    simpa [Node.parts, Node.children, Function.comp_def, Node.span] using
      memberRow.append tagRead.row.row
  · have endRead := expectEnd_reads middleValid endOutcome
    refine .of_row valid notEnd endRead.valid rfl endRead.row.le rfl rfl
      (by simp [Node.parts, Node.children]) ?_
    simpa [Node.parts, Node.children, Function.comp_def, Node.span] using memberRow

/-- The condition of a loop that looks at the token only reads nothing. -/
theorem mapToken_reads (condition : Token → Bool) :
    ReadsParts extent (condition <$> token) fun _ => [] := by
  intro cursor result after valid outcome
  simp at outcome
  obtain ⟨rfl, rfl⟩ := outcome
  exact .nil valid

theorem members_reads {member : Parse Field} (reads : ReadsNode extent member .plain .field) :
    ReadsNode extent (members member) .plain .fieldList := by
  intro cursor list after valid outcome
  simp [members] at outcome
  obtain ⟨opens, fields, middle, fieldsOutcome, closes, rfl, rfl⟩ := outcome
  have notEnd : cursor.current.token ≠ .endOfFile := by simp [opens]
  have opening := valid.passes_next notEnd
  have fieldsRead := manyWhile_readsNodes (mapToken_reads _) reads opening.valid fieldsOutcome
  have closing := fieldsRead.valid.passes_next (by simp [closes])
  refine .of_room valid notEnd closing.valid rfl (Int.le_refl _) rfl rfl ?_
    (opening.lt_of_reads (fieldsRead.skipped closing))
  simpa [Node.parts, Node.children, Function.comp_def, Node.span] using
    opening.row (fieldsRead.skipped closing)

/-- The parts of an entry of a parameter list. -/
def ParamEntry.parts (entry : ParamEntry) : List (Role × Node) :=
  (.plain, .expr entry.first) :: entry.type.toList.map fun type => (.plain, .expr type)

theorem paramEntry_reads (reading : rules.Reading extent) :
    ReadsParts extent (paramEntry rules) ParamEntry.parts := by
  intro cursor entry after valid outcome
  simp [paramEntry] at outcome
  obtain ⟨first, middle, firstOutcome, outcome⟩ := outcome
  have firstRead := paramType_reads reading valid firstOutcome
  generalize middle.current.token = tok at outcome
  split at outcome
  · simp at outcome
    obtain ⟨rfl, rfl⟩ := outcome
    exact firstRead.row
  · simp at outcome
    obtain ⟨rfl, rfl⟩ := outcome
    exact firstRead.row
  · split at outcome
    · simp at outcome
      obtain ⟨type, typeOutcome, rfl⟩ := outcome
      exact firstRead.row.append (paramType_reads reading firstRead.valid typeOutcome).row
    · exact absurd outcome expected_ne_ok

/-- The field of some names and their type. -/
theorem namedField_placed {high : Pos} {names : List Ident} {name : Ident} {type : Expr}
    (row : Row extent low high
      ((names ++ [name]).map (fun name => (Role.plain, Node.ident name)) ++
        [(Role.plain, Node.expr type)])) :
    Placed extent low high .plain
      (.field ⟨⟨((names ++ [name]).head?.getD name).span.start, type.span.stop⟩, names ++ [name],
        type, none⟩) := by
  obtain ⟨stopLe, row⟩ := row.to_last
  obtain ⟨first, others, namesEq⟩ : ∃ first others, names ++ [name] = first :: others :=
    List.exists_cons_of_ne_nil (by simp)
  rw [namesEq] at row ⊢
  have positive := row.positive (.plain, .ident first) (by simp)
  obtain ⟨startLe, row⟩ := row.from_first
  refine .of_row startLe stopLe rfl positive rfl (List.cons_ne_nil _ _) ?_
  change Row extent first.span.start type.span.stop _ at row
  simpa [Node.parts, Node.children, Function.comp_def, Node.span] using row

/-- Names that wait for a type and entries that follow them become fields in the same order. -/
theorem namedFields_row {high : Pos} {waiting : List Ident} {entries : List ParamEntry}
    {fields : List Field}
    (row : Row extent low high
      (waiting.map (fun name => (Role.plain, Node.ident name)) ++ entries.flatMap ParamEntry.parts))
    (outcome : namedFields waiting entries cursor = .ok (fields, after)) :
    after = cursor ∧ Row extent low high (fields.map fun field => (.plain, .field field)) := by
  induction entries generalizing waiting low fields after with
  | nil =>
      cases waiting with
      | nil =>
          simp [namedFields] at outcome
          obtain ⟨rfl, rfl⟩ := outcome
          exact ⟨rfl, row⟩
      | cons name waiting => exact absurd outcome failAt_ne_ok
  | cons entry entries ih =>
      obtain ⟨first, type⟩ := entry
      simp only [namedFields] at outcome
      split at outcome
      next name =>
        have waitingRow : Row extent low high
            ((waiting ++ [name]).map (fun name => (Role.plain, Node.ident name)) ++
              (type.toList.map (fun type => (Role.plain, Node.expr type)) ++
                entries.flatMap ParamEntry.parts)) := by
          simpa [ParamEntry.parts, Node.ident] using row
        cases type with
        | none => exact ih waitingRow outcome
        | some type =>
            simp at outcome
            obtain ⟨others, othersOutcome, rfl⟩ := outcome
            rw [← List.append_assoc] at waitingRow
            obtain ⟨middle, fieldRow, othersRow⟩ := waitingRow.exists_middle
            obtain ⟨rfl, row⟩ := ih othersRow othersOutcome
            refine ⟨rfl, ?_⟩
            have placed := namedField_placed fieldRow
            simpa using Row.cons placed row
      next => exact absurd outcome failAt_ne_ok

theorem unnamedField_placed {high : Pos} {type : Expr} (placed : Placed extent low high .plain (.expr type)) :
    Placed extent low high .plain (.field (unnamedField type)) := by
  refine .of_row placed.low_le placed.le_high rfl placed.positive rfl (List.cons_ne_nil _ _) ?_
  exact .singleton placed.alone.tight

/-- Entries without names become fields in the same order. -/
theorem unnamedFields_row {high : Pos} {entries : List ParamEntry}
    (untyped : ∀ entry ∈ entries, entry.type = none)
    (row : Row extent low high (entries.flatMap ParamEntry.parts)) :
    Row extent low high (entries.map fun entry => (.plain, .field (unnamedField entry.first))) := by
  induction entries generalizing low with
  | nil => exact row
  | cons entry entries ih =>
      obtain ⟨firstUntyped, othersUntyped⟩ := List.forall_mem_cons.mp untyped
      rw [List.flatMap_cons, ParamEntry.parts, firstUntyped] at row
      obtain ⟨placed, rest⟩ := Row.placed_first row
      exact .cons (unnamedField_placed placed) (ih othersUntyped rest)

theorem parameters_reads (reading : rules.Reading extent) :
    ReadsNode extent (parameters rules) .plain .fieldList := by
  intro cursor list after valid outcome
  simp [parameters] at outcome
  obtain ⟨opens, entries, middle, entriesOutcome, closes, outcome⟩ := outcome
  have notEnd : cursor.current.token ≠ .endOfFile := by simp [opens]
  have opening := valid.passes_next notEnd
  have entriesRead := listUntil_reads (paramEntry_reads reading) opening.valid entriesOutcome
  have closing := entriesRead.valid.passes_next (by simp [closes])
  have entriesRow := opening.row (entriesRead.skipped closing)
  have room := opening.lt_of_reads (entriesRead.skipped closing)
  obtain ⟨-, fields, fieldsOutcome, rfl⟩ | ⟨untyped, rfl, rfl⟩ := outcome
  · obtain ⟨rfl, fieldsRow⟩ := namedFields_row entriesRow fieldsOutcome
    refine .of_room valid notEnd closing.valid rfl (Int.le_refl _) rfl rfl ?_ room
    simpa [Node.parts, Node.children, Function.comp_def, Node.span] using fieldsRow
  · refine .of_room valid notEnd closing.valid rfl (Int.le_refl _) rfl rfl ?_ room
    simpa [Node.parts, Node.children, Function.comp_def, Node.span] using
      unnamedFields_row untyped entriesRow

/-- Parameters and results follow each other. -/
theorem signature_reads (reading : rules.Reading extent) {params : FieldList}
    {results : Option FieldList} (valid : cursor.Valid extent)
    (outcome : signature rules cursor = .ok ((params, results), after)) :
    cursor.current.token ≠ .endOfFile ∧ after.Valid extent ∧
      Row extent cursor.current.pos after.prevStop
        ((.plain, .fieldList params) :: results.toList.map fun list => (.plain, .fieldList list)) := by
  simp [signature] at outcome
  obtain ⟨first, middle, paramsOutcome, outcome⟩ := outcome
  have paramsRead := parameters_reads reading valid paramsOutcome
  refine ⟨paramsRead.notEnd, ?_⟩
  obtain ⟨-, second, secondOutcome, rfl, rfl⟩ |
    ⟨-, ⟨-, type, typeOutcome, rfl, rfl⟩ | ⟨-, ⟨rfl, rfl⟩, rfl⟩⟩ := outcome
  · have resultsRead := parameters_reads reading paramsRead.valid secondOutcome
    exact ⟨resultsRead.valid, .cons paramsRead.placed resultsRead.row.row⟩
  · have typeRead := reading.type paramsRead.valid typeOutcome
    have listPlaced : Placed extent middle.prevStop after.prevStop .plain
        (.fieldList ⟨type.span, [unnamedField type]⟩) := by
      have placed := typeRead.placed.mono typeRead.prevStop_le (Int.le_refl _)
      refine .of_row placed.low_le placed.le_high rfl placed.positive rfl (List.cons_ne_nil _ _) ?_
      exact .singleton (unnamedField_placed placed.alone.tight)
    exact ⟨typeRead.valid, .cons paramsRead.placed (.singleton listPlaced)⟩
  · exact ⟨paramsRead.valid, .singleton paramsRead.placed⟩

theorem funcTypeFrom_start {start : Pos} {type : FuncType}
    (outcome : funcTypeFrom rules start cursor = .ok (type, after)) : type.span.start = start := by
  simp [funcTypeFrom] at outcome
  obtain ⟨params, results, outcome, rfl⟩ := outcome
  rfl

/-- A signature whose range begins at or before the cursor. -/
theorem funcTypeFrom_reads (reading : rules.Reading extent) {start : Pos} {type : FuncType}
    (valid : cursor.Valid extent) (positive : 0 < start)
    (startLe : cursor.prevStop ≤ cursor.current.pos → start ≤ cursor.current.pos)
    (outcome : funcTypeFrom rules start cursor = .ok (type, after)) :
    cursor.current.token ≠ .endOfFile ∧ after.Valid extent ∧
      (cursor.current.pos ≤ after.prevStop ∧
        (∀ pos ∈ (Node.expr (.funcType type)).places, cursor.current.pos ≤ pos) ∧
        ∀ pos ∈ (Node.expr (.funcType type)).children.flatMap Node.starts,
          cursor.current.pos ≤ pos) ∧
      Placed extent start after.prevStop .plain (.expr (.funcType type)) := by
  simp [funcTypeFrom] at outcome
  obtain ⟨params, results, outcome, rfl⟩ := outcome
  obtain ⟨notEnd, validAfter, row⟩ := signature_reads reading valid outcome
  have partsEq : (Node.expr (.funcType ⟨⟨start, after.prevStop⟩, params, results⟩)).parts .plain =
      (.plain, .fieldList params) :: results.toList.map fun list => (.plain, .fieldList list) := by
    simp [Node.parts, Node.children, Node.exprChildren, Function.comp_def]
  rw [← partsEq] at row
  refine ⟨notEnd, validAfter, ⟨row.le, ?_, ?_⟩, ?_⟩
  · intro pos mem
    obtain ⟨child, isChild, place⟩ := Node.mem_places_of_noToken rfl mem
    rw [← Node.map_snd_parts .plain] at isChild
    exact (row.bounds_of_place (List.mem_flatMap.mpr ⟨child, isChild, place⟩)).1
  · intro pos mem
    rw [← Node.map_snd_parts .plain] at mem
    exact (row.bounds_of_start mem).1
  · refine .of_row (Int.le_refl _) (Int.le_refl _) rfl positive rfl (List.cons_ne_nil _ _) ?_
    exact row.mono (startLe (valid.prevStop_le_pos notEnd)) (Int.le_refl _)

theorem interfaceMember_reads (reading : rules.Reading extent) :
    ReadsNode extent (interfaceMember rules) .plain .field := by
  intro cursor field after valid outcome
  simp [interfaceMember] at outcome
  obtain ⟨name, middle, nameOutcome, outcome⟩ := outcome
  have nameRead := ident_reads valid nameOutcome
  have namePlaced := nameRead.placed
  obtain ⟨opens, type, last, typeOutcome, ⟨_, endOutcome⟩, rfl⟩ |
    ⟨-, embedded, last, embeddedOutcome, ⟨_, endOutcome⟩, rfl⟩ := outcome
  · have prevStopLe := nameRead.valid.prevStop_le_pos (by simp [opens])
    have positive := nameRead.valid.positive
    obtain ⟨-, lastValid, -, typePlaced⟩ :=
      funcTypeFrom_reads reading nameRead.valid (by lia) (fun _ => Int.le_refl _) typeOutcome
    have endRead := expectEnd_reads lastValid endOutcome
    refine ⟨nameRead.notEnd, nameRead.prevStop_le, endRead.valid,
      .of_row namePlaced.low_le endRead.row.le rfl namePlaced.positive rfl (List.cons_ne_nil _ _) ?_⟩
    exact .cons namePlaced.alone (.singleton (typePlaced.mono prevStopLe (Int.le_refl _)))
  · obtain ⟨lastValid, embeddedPlaced⟩ :=
      qualifiedFrom_placed nameRead.valid namePlaced.alone embeddedOutcome
    have endRead := expectEnd_reads lastValid endOutcome
    have stopLe := Int.le_trans embeddedPlaced.le_high endRead.row.le
    exact ⟨nameRead.notEnd, nameRead.prevStop_le, endRead.valid,
      .of_row namePlaced.low_le stopLe rfl namePlaced.positive rfl (List.cons_ne_nil _ _)
        (.singleton embeddedPlaced.tight)⟩

theorem typeExpr_reads (reading : rules.Reading extent) :
    ReadsNode extent (typeExpr rules) .plain .expr := by
  intro cursor value after valid outcome
  simp [typeExpr] at outcome
  have notEnd : cursor.current.token ≠ .endOfFile := by
    intro atEnd
    simp [atEnd] at outcome
  have passes := valid.passes_next notEnd
  have posLt := passes.pos_lt
  have positive : 0 < cursor.current.pos := by
    have prevPositive := valid.positive
    have prevStopLe := passes.prevStop_le
    lia
  generalize cursor.current.token = tok at outcome
  split at outcome <;> simp at outcome
  · obtain ⟨name, middle, nameOutcome, outcome⟩ := outcome
    have nameRead := ident_reads valid nameOutcome
    obtain ⟨validAfter, placed⟩ := qualifiedFrom_placed nameRead.valid nameRead.placed outcome
    exact ⟨nameRead.notEnd, nameRead.prevStop_le, validAfter, placed⟩
  · obtain ⟨length, middle, lengthOutcome, closes, elem, elemOutcome, rfl⟩ := outcome
    have lengthRead := arrayLength_reads reading passes.valid lengthOutcome
    have closing := lengthRead.valid.passes_next (by simp [closes])
    have elemRead := reading.type closing.valid elemOutcome
    refine .of_row valid notEnd elemRead.valid rfl elemRead.placed.le_high rfl rfl
      (by simp [Node.parts, Node.children, Node.exprChildren]) ?_
    have elemPlaced := (closing.placed elemRead).tight.mono closing.prevStop_le (Int.le_refl _)
    simpa [Node.parts, Node.children, Node.exprChildren, Function.comp_def, Node.span, Expr.span]
      using (passes.row lengthRead).append (.singleton elemPlaced)
  · obtain ⟨fields, fieldsOutcome, rfl⟩ := outcome
    have fieldsRead := members_reads (structField_reads reading) passes.valid fieldsOutcome
    exact .of_row valid notEnd fieldsRead.valid rfl (Int.le_refl _) rfl rfl (List.cons_ne_nil _ _)
      (.singleton (passes.placed fieldsRead))
  · obtain ⟨operand, operandOutcome, rfl⟩ := outcome
    have operandRead := reading.type passes.valid operandOutcome
    exact .of_row valid notEnd operandRead.valid rfl operandRead.placed.le_high rfl rfl
      (List.cons_ne_nil _ _)
      (.singleton (passes.placed operandRead).tight)
  · obtain ⟨type, typeOutcome, rfl⟩ := outcome
    obtain ⟨-, validAfter, -, placed⟩ :=
      funcTypeFrom_reads reading passes.valid positive (by lia) typeOutcome
    exact ⟨notEnd, passes.prevStop_le, validAfter, placed⟩
  · obtain ⟨methods, methodsOutcome, rfl⟩ := outcome
    have methodsRead := members_reads (interfaceMember_reads reading) passes.valid methodsOutcome
    exact .of_row valid notEnd methodsRead.valid rfl (Int.le_refl _) rfl rfl (List.cons_ne_nil _ _)
      (.singleton (passes.placed methodsRead))
  · obtain ⟨opens, key, middle, keyOutcome, closes, value, valueOutcome, rfl⟩ := outcome
    have opening := passes.valid.passes_next (by simp [opens])
    have keyRead := reading.type opening.valid keyOutcome
    have closing := keyRead.valid.passes_next (by simp [closes])
    have valueRead := reading.type closing.valid valueOutcome
    refine .of_row valid notEnd valueRead.valid rfl valueRead.placed.le_high rfl rfl
      (List.cons_ne_nil _ _) ?_
    have valuePlaced := (closing.placed valueRead).tight.mono closing.prevStop_le (Int.le_refl _)
    exact (passes.row (.skip opening keyRead.row)).append (.singleton valuePlaced)
  · obtain ⟨-, elem, elemOutcome, rfl⟩ | ⟨isArrow, elem, elemOutcome, rfl⟩ := outcome
    · have elemRead := reading.type passes.valid elemOutcome
      exact .of_row valid notEnd elemRead.valid rfl elemRead.placed.le_high rfl rfl
        (List.cons_ne_nil _ _)
        (.singleton (passes.placed elemRead).tight)
    · have arrow := passes.valid.passes_next (by simp [isArrow])
      have prevStopLe := arrow.prevStop_le
      have elemRead := reading.type arrow.valid elemOutcome
      exact .of_row valid notEnd elemRead.valid rfl elemRead.placed.le_high rfl rfl
        (List.cons_ne_nil _ _)
        (.singleton ((arrow.placed elemRead).tight.mono (by lia) (Int.le_refl _)))
  · obtain ⟨isChan, elem, elemOutcome, rfl⟩ := outcome
    have keyword := passes.valid.passes_next (by simp [isChan])
    have prevStopLe := keyword.prevStop_le
    have elemRead := reading.type keyword.valid elemOutcome
    exact .of_row valid notEnd elemRead.valid rfl elemRead.placed.le_high rfl rfl (List.cons_ne_nil _ _)
      (.singleton ((keyword.placed elemRead).tight.mono (by lia) (Int.le_refl _)))
  · obtain ⟨inner, middle, innerOutcome, closes, rfl, rfl⟩ := outcome
    have innerRead := reading.type passes.valid innerOutcome
    have closing := innerRead.valid.passes_next (by simp [closes])
    exact .of_row valid notEnd closing.valid rfl (Int.le_refl _) rfl rfl (List.cons_ne_nil _ _)
      (passes.row (innerRead.row.skipped closing))

end Parse

end GoMend
