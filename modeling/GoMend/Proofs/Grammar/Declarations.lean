import GoMend.Grammar.Statements
import GoMend.Proofs.Grammar.Expressions

/-!
# Declarations of items are read in order

The items of `import`, `const`, `var` and `type` declarations.
-/

namespace GoMend

open Cursor

variable {extent : Extent} {cursor after : Cursor} {low : Pos} {rules : Rules}

namespace Parse

/-- An import with its parts, of which the path is the last one. -/
theorem importPath_reads {middle : Cursor} (name : Option Ident) {path : BasicLit}
    (valid : cursor.Valid extent) (notEnd : cursor.current.token ≠ .endOfFile)
    (nameValid : middle.Valid extent)
    (nameRow : Row extent cursor.current.pos middle.current.pos
      (name.toList.map fun name => (.plain, .ident name)))
    (begins : (name.map (·.span.start)).getD middle.current.pos = cursor.current.pos)
    (isString : middle.current.token = .string)
    (outcome : literal middle = .ok (path, after)) :
    Reads extent .plain cursor
      (.spec (.importSpec ⟨⟨cursor.current.pos, path.span.stop⟩, name, path⟩)) after := by
  have pathRead := literal_reads nameValid (by simp [isString, Token.isLiteral]) outcome
  have row : Row extent cursor.current.pos path.span.stop
      ((Node.spec (.importSpec ⟨⟨cursor.current.pos, path.span.stop⟩, name, path⟩)).parts .plain) := by
    have row : Row extent cursor.current.pos path.span.stop _ :=
      nameRow.append (.singleton pathRead.placed.tight)
    simpa [Node.parts, Node.children, Node.specChildren, Function.comp_def] using row
  have room : cursor.current.pos < path.span.stop :=
    row.lt_of_ne_nil (by simp [Node.parts, Node.children, Node.specChildren])
  have pathEq : path.kind = .string ∧ path.span.start = middle.current.pos := by
    simp [literal] at outcome
    obtain ⟨-, pathEq⟩ := outcome
    rw [pathEq]
    exact ⟨isString, rfl⟩
  have positive := valid.positive
  have prevStopLe := valid.prevStop_le_pos notEnd
  refine ⟨notEnd, prevStopLe, pathRead.valid, .of_written (Int.le_refl _) pathRead.placed.le_high rfl
    (Int.lt_of_lt_of_le positive prevStopLe) rfl ⟨pathEq.1, ?_⟩ row room⟩
  rw [pathEq.2]
  exact begins.symm

theorem importSpec_reads : ReadsNode extent importSpec .plain .spec := by
  intro cursor item after valid outcome
  simp [importSpec] at outcome
  generalize tokEq : cursor.current.token = tok at outcome
  split at outcome <;> simp at outcome
  · obtain ⟨name, middle, nameOutcome, isString, path, pathOutcome, rfl⟩ := outcome
    have nameRead := ident_reads valid nameOutcome
    have nameEq : name.span.start = cursor.current.pos := by
      simp [ident] at nameOutcome
      obtain ⟨-, -, nameEq⟩ := nameOutcome
      rw [nameEq]
      rfl
    have nameRow := Row.singleton (nameRead.placed.mono (Int.le_refl _)
      (nameRead.valid.prevStop_le_pos (by simp [isString])))
    exact importPath_reads (some name) valid nameRead.notEnd nameRead.valid nameRow nameEq isString
      pathOutcome
  · obtain ⟨isString, path, pathOutcome, rfl⟩ := outcome
    have notEnd : cursor.current.token ≠ .endOfFile := by simp [tokEq]
    have passes := valid.passes_next notEnd
    have positive : 0 < cursor.current.pos :=
      Int.lt_of_lt_of_le valid.positive passes.prevStop_le
    have isWord : Ident.isWord ⟨⟨cursor.current.pos, cursor.current.pos + 1⟩, "."⟩ := by
      simp [Ident.isWord]
    have pointLt : cursor.current.pos < cursor.current.pos + 1 := Int.lt_succ _
    let point : Node := .ident ⟨⟨cursor.current.pos, cursor.current.pos + 1⟩, "."⟩
    have pointRow : Row extent point.span.start point.span.stop (point.parts .plain) :=
      .nil (Int.le_of_lt pointLt)
    have nothing : Row extent cursor.current.pos cursor.current.pos [] := .nil (Int.le_refl _)
    have noRest : Row extent (cursor.current.pos + 1) (cursor.current.pos + 1) [] :=
      .nil (Int.le_refl _)
    have pointPlaced : Placed extent cursor.current.pos cursor.next.prevStop .plain point :=
      ⟨.of_rows isWord positive rfl rfl nothing noRest (fun _ opens => by cases opens), positive,
        Int.le_refl _, pointLt, passes.pos_lt, .of_row positive pointLt pointRow,
        .of_row (.inr ⟨rfl, _, passes.mem_of_token tokEq⟩) pointLt pointRow⟩
    have pointRow := Row.singleton (pointPlaced.mono (Int.le_refl _)
      (passes.valid.prevStop_le_pos (by simp [isString])))
    exact importPath_reads (some _) valid notEnd passes.valid pointRow rfl isString pathOutcome
  · obtain ⟨isString, path, pathOutcome, rfl⟩ := outcome
    have notEnd : cursor.current.token ≠ .endOfFile := by simp [isString]
    exact importPath_reads none valid notEnd valid (.nil (Int.le_refl _)) rfl isString
      pathOutcome

/-- The parts of an item that declares constants or variables. -/
def valueParts (names : List Ident) (type : Option Expr) (values : List Expr) :
    List (Role × Node) :=
  names.map (fun name => (Role.plain, Node.ident name)) ++
    (type.toList.map (fun type => (Role.plain, Node.expr type)) ++
      values.map fun value => (Role.plain, Node.expr value))

theorem valueSpec_of_row {names : List Ident} {type : Option Expr} {values : List Expr}
    (valid : cursor.Valid extent) (notEnd : cursor.current.token ≠ .endOfFile)
    (validAfter : after.Valid extent) (named : names ≠ [])
    (row : Row extent cursor.current.pos after.prevStop (valueParts names type values)) :
    Reads extent .plain cursor
      (.spec (.valueSpec ⟨cursor.current.pos, after.prevStop⟩ names type values)) after := by
  have parts : (Node.spec (.valueSpec ⟨cursor.current.pos, after.prevStop⟩ names type values)).parts
      .plain = valueParts names type values := by
    simp [Node.parts, Node.children, Node.specChildren, Function.comp_def, valueParts]
  have room := row.lt_of_ne_nil (by simp [valueParts, named])
  have prevStopLe := valid.prevStop_le_pos notEnd
  exact ⟨notEnd, prevStopLe, validAfter, .of_written (Int.le_refl _) (Int.le_refl _) rfl
    (Int.lt_of_lt_of_le valid.positive prevStopLe) rfl named (parts ▸ row) room⟩

/-- The values after names and a type. -/
theorem values_reads (reading : rules.Reading extent) {middle : Cursor} {names : List Ident}
    {type : Option Expr} {first : Expr} {others : List Expr} (valid : cursor.Valid extent)
    (notEnd : cursor.current.token ≠ .endOfFile) (middleValid : middle.Valid extent)
    (named : names ≠ []) (row : Row extent cursor.current.pos middle.prevStop
      (valueParts names type []))
    (isAssign : middle.current.token = .assign)
    (outcome : commaSeparated rules.expr middle.next = .ok ((first, others), after)) :
    Reads extent .plain cursor
      (.spec (.valueSpec ⟨cursor.current.pos, after.prevStop⟩ names type (first :: others)))
      after := by
  have assign := middleValid.passes_next (by simp [isAssign])
  obtain ⟨-, prevStopLe, validAfter, valuesRow⟩ :=
    commaSeparated_reads reading.expr assign.valid outcome
  have posLt := assign.pos_lt
  have assignLe := assign.prevStop_le
  refine valueSpec_of_row valid notEnd validAfter named ?_
  have whole := row.append (valuesRow.mono (by lia) (Int.le_refl _))
  simpa [valueParts] using whole

theorem valueSpec_reads (reading : rules.Reading extent) (keyword : Token) :
    ReadsNode extent (valueSpec rules keyword) .plain .spec := by
  intro cursor item after valid outcome
  simp [valueSpec, identList, exprList] at outcome
  obtain ⟨first, others, middle, namesOutcome, outcome⟩ := outcome
  obtain ⟨notEnd, -, middleValid, namesRow⟩ := commaSeparated_reads ident_reads valid namesOutcome
  have named : first :: others ≠ [] := List.cons_ne_nil _ _
  have untypedRow : Row extent cursor.current.pos middle.prevStop
      (valueParts (first :: others) none []) := by
    simpa [valueParts] using namesRow
  generalize tokEq : middle.current.token = tok at outcome
  split at outcome <;> simp [tokEq] at outcome
  · obtain ⟨value, values, valuesOutcome, rfl⟩ := outcome
    exact values_reads reading valid notEnd middleValid named untypedRow tokEq valuesOutcome
  · obtain ⟨-, rfl, rfl⟩ := outcome
    exact valueSpec_of_row valid notEnd middleValid named untypedRow
  · obtain ⟨-, rfl, rfl⟩ := outcome
    exact valueSpec_of_row valid notEnd middleValid named untypedRow
  · obtain ⟨type, last, typeOutcome, outcome⟩ := outcome
    have typeRead := reading.type middleValid typeOutcome
    have typedRow : Row extent cursor.current.pos last.prevStop
        (valueParts (first :: others) (some type) []) := by
      simpa [valueParts] using namesRow.append typeRead.row.row
    obtain ⟨-, rfl, rfl⟩ | ⟨isAssign, value, values, valuesOutcome, rfl⟩ := outcome
    · exact valueSpec_of_row valid notEnd typeRead.valid named typedRow
    · exact values_reads reading valid notEnd typeRead.valid named typedRow isAssign valuesOutcome

theorem typeSpec_reads (reading : rules.Reading extent) :
    ReadsNode extent (typeSpec rules) .plain .spec := by
  intro cursor item after valid outcome
  simp [typeSpec] at outcome
  obtain ⟨name, middle, nameOutcome, -, outcome⟩ := outcome
  have nameRead := ident_reads valid nameOutcome
  have namePlaced := nameRead.placed
  obtain ⟨-, type, typeOutcome, rfl⟩ | ⟨isAssign, type, typeOutcome, rfl⟩ := outcome
  · have typeRead := reading.type nameRead.valid typeOutcome
    exact ⟨nameRead.notEnd, nameRead.prevStop_le, typeRead.valid,
      .of_row namePlaced.low_le (Int.le_refl _) rfl namePlaced.positive rfl (List.cons_ne_nil _ _)
        (.cons namePlaced.alone typeRead.row.row)⟩
  · have assign := nameRead.valid.passes_next (by simp [isAssign])
    have typeRead := reading.type assign.valid typeOutcome
    exact ⟨nameRead.notEnd, nameRead.prevStop_le, typeRead.valid,
      .of_row namePlaced.low_le (Int.le_refl _) rfl namePlaced.positive rfl (List.cons_ne_nil _ _)
        (.cons namePlaced.alone (typeRead.row.skip assign).row)⟩

theorem genDecl_reads {keyword : Token} {item : Parse Spec} (notEnd : keyword ≠ .endOfFile)
    (reads : ReadsNode extent item .plain .spec) :
    ReadsNode extent (genDecl keyword item) .plain fun item => .decl (.gen item) := by
  intro cursor decl after valid outcome
  simp [genDecl] at outcome
  obtain ⟨isKeyword, outcome⟩ := outcome
  rw [← isKeyword] at notEnd
  have keywordPasses := valid.passes_next notEnd
  obtain ⟨-, spec, middle, specOutcome, ⟨_, endOutcome⟩, rfl⟩ |
    ⟨opens, specs, middle, specsOutcome, closes, ⟨_, endOutcome⟩, rfl⟩ := outcome
  · have specRead := reads keywordPasses.valid specOutcome
    have endRead := expectEnd_reads specRead.valid endOutcome
    exact .of_row valid notEnd endRead.valid rfl endRead.row.le rfl rfl (List.cons_ne_nil _ _)
      (.singleton (keywordPasses.placed specRead))
  · have opening := keywordPasses.valid.passes_next (by simp [opens])
    have specReads : ReadsParts extent (do let spec ← item; (fun _ => spec) <$> expectEnd)
        fun spec => [(.plain, .spec spec)] := by
      intro cursor spec after valid outcome
      simp at outcome
      obtain ⟨middle, valueOutcome, _, endOutcome⟩ := outcome
      have valueRead := reads valid valueOutcome
      exact valueRead.row.append (expectEnd_reads valueRead.valid endOutcome)
    have specsRead := manyWhile_reads (mapToken_reads _) specReads opening.valid specsOutcome
    have closing := specsRead.valid.passes_next (by simp [closes])
    have endRead := expectEnd_reads closing.valid endOutcome
    have specsLt := keywordPasses.lt_of_reads ((specsRead.skipped closing).skip opening)
    refine .of_room valid notEnd endRead.valid rfl endRead.row.le rfl rfl ?_ specsLt
    have row := keywordPasses.row ((specsRead.skipped closing).skip opening)
    simp only [← List.map_eq_flatMap] at row
    simpa [Node.parts, Node.children, Node.declChildren, Function.comp_def, Node.span, Decl.span]
      using row

end Parse

end GoMend
