import GoMend.Proofs.Grammar.Relocate
import GoMend.Proofs.Grammar.SourceFile

/-!
# Trees read at another place

All productions read from lexemes at other places the same trees at these places, and so does the
reading of a whole text.
-/

namespace GoMend

open Relocatable (relocate)

namespace Parse

variable {place : Pos → Pos} {rules : Rules}

/-! ### Types -/

section Types

theorem paramType_relocates (moves : rules.Relocate place) :
    Relocates place (paramType rules) (paramType rules) := by
  refine .bind_token fun tok => ?_
  split
  · refine .bind_pos fun start => .bind_advance (.bind moves.type fun elem => .pure ?_)
    simp [relocate, Span.relocated]
  · exact moves.type

instance : Relocatable ParamEntry :=
  ⟨fun place entry => ⟨entry.first.relocated place, entry.type.map (Expr.relocated place)⟩⟩

theorem paramEntry_relocates (moves : rules.Relocate place) :
    Relocates place (paramEntry rules) (paramEntry rules) := by
  refine .bind (paramType_relocates moves) fun first => .bind_token fun tok => ?_
  split
  · exact .pure rfl
  · exact .pure rfl
  · cases first with
    | ident name => exact .bind (paramType_relocates moves) fun type => .pure rfl
    | _ => exact .expected

theorem namedFields_relocates (waiting : List Ident) (entries : List ParamEntry) :
    Relocates place (namedFields waiting entries)
      (namedFields (relocate place waiting) (relocate place entries)) := by
  induction entries generalizing waiting with
  | nil =>
      cases waiting with
      | nil => exact .pure rfl
      | cons name waiting => exact .failAt
  | cons entry entries ih =>
      obtain ⟨first, type⟩ := entry
      cases first with
      | ident name =>
          cases type with
          | none => simpa [namedFields, relocate] using ih (waiting ++ [name])
          | some type =>
              refine .bind (ih []) fun fields => .pure ?_
              cases waiting <;> simp [relocate, Span.relocated]
      | _ => exact .failAt

theorem relocated_unnamedField (type : Expr) :
    (unnamedField type).relocated place = unnamedField (type.relocated place) := by
  simp [unnamedField]

theorem parameters_relocates (moves : rules.Relocate place) :
    Relocates place (parameters rules) (parameters rules) := by
  refine .bind_expect fun start => .bind (.listUntil (paramEntry_relocates moves) _) fun entries =>
    .bind_expect fun _ => ?_
  have sameAny : (relocate place entries).any (·.type.isSome) = entries.any (·.type.isSome) := by
    simp [relocate, List.any_map, Function.comp_def]
  rw [sameAny]
  split
  · refine .bind (namedFields_relocates [] entries) fun fields => .bind_prevStop fun stop => .pure ?_
    simp [relocate, Span.relocated]
  · refine .bind (.pure ?_) fun fields => .bind_prevStop fun stop => .pure ?_
    · simp [relocate, relocated_unnamedField]
    · simp [relocate, Span.relocated]

theorem signature_relocates (moves : rules.Relocate place) :
    Relocates place (signature rules) (signature rules) := by
  refine .bind (parameters_relocates moves) fun params => .bind_token fun tok => ?_
  split
  · exact .bind (parameters_relocates moves) fun results => .pure rfl
  · split
    · refine .bind moves.type fun type => .pure ?_
      simp [relocate, relocated_unnamedField]
    · exact .pure rfl

theorem funcTypeFrom_relocates (moves : rules.Relocate place) (start : Pos) :
    Relocates place (funcTypeFrom rules start) (funcTypeFrom rules (place start)) := by
  refine .bind_pair (signature_relocates moves) fun params results =>
    .bind_prevStop fun stop => .pure ?_
  cases results <;> simp [relocate, Span.relocated]

theorem qualifiedFrom_relocates (first : Ident) :
    Relocates place (qualifiedFrom first) (qualifiedFrom (first.relocated place)) := by
  refine .bind_accept fun found => ?_
  split
  · refine .bind ident_relocates fun sel => .pure ?_
    simp [relocate, Span.relocated]
  · refine .pure ?_
    simp [relocate]

theorem arrayLength_relocates (moves : rules.Relocate place) :
    Relocates place (arrayLength rules) (arrayLength rules) := by
  refine .bind_token_of fun tok => ?_
  split
  · refine .bind_length (by decide) 3 (fun lexeme kept => kept.ellipsis) fun start isLong =>
      .bind_advance (.pure ?_)
    simp [relocate, Span.relocated, isLong]
  · exact .of_relocates (.pure rfl)
  · refine .of_relocates (.bind (.bracketed (moves.binary 1)) fun length => ?_)
    exact .pure rfl

theorem structMember_relocates (moves : rules.Relocate place) :
    Relocates place (structMember rules) (structMember rules) := by
  refine .bind_token fun tok => ?_
  split
  · exact .bind moves.type fun type => .pure rfl
  · refine .bind ident_relocates fun first => .bind_token fun tok => ?_
    split
    · exact .bind (qualifiedFrom_relocates first) fun type => .pure rfl
    · exact .pure (by simp [relocate])
    · exact .pure (by simp [relocate])
    · exact .pure (by simp [relocate])
    · exact .bind (.manyWhile (.accept _) ident_relocates) fun others =>
        .bind moves.type fun type => .pure rfl

theorem structField_relocates (moves : rules.Relocate place) :
    Relocates place (structField rules) (structField rules) := by
  refine .bind_pos fun start => .bind_pair (structMember_relocates moves) fun names type =>
    .bind_token fun tok => ?_
  split
  · refine .bind (.option literal_relocates) fun tag => .bind_prevStop fun stop =>
      .bind_expectEnd (.pure ?_)
    simp [relocate, Span.relocated]
  · refine .bind (.pure rfl) fun tag => .bind_prevStop fun stop => .bind_expectEnd (.pure ?_)
    simp [relocate, Span.relocated]

theorem interfaceMember_relocates (moves : rules.Relocate place) :
    Relocates place (interfaceMember rules) (interfaceMember rules) := by
  refine .bind ident_relocates fun name => .bind_token fun tok => ?_
  split
  · refine .bind_pos fun start => .bind (funcTypeFrom_relocates moves start) fun type =>
      .bind_prevStop fun stop => .bind (.pure ?_) fun member => .bind_expectEnd (.pure rfl)
    simp [relocate, Span.relocated]
  · refine .bind (qualifiedFrom_relocates name) fun embedded =>
      .bind (.pure ?_) fun member => .bind_expectEnd (.pure rfl)
    simp [relocate, Span.relocated]

theorem members_relocates {member : Parse Field} (read : Relocates place member member) :
    Relocates place (members member) (members member) := by
  refine .bind_expect fun start => .bind (.manyWhile ?more read) fun fields => .bind_expect fun _ =>
    .bind_prevStop fun stop => .pure ?_
  case more => exact .bind_token fun tok => .pure rfl
  simp [relocate, Span.relocated]

theorem typeExpr_relocates (moves : rules.Relocate place) :
    Relocates place (typeExpr rules) (typeExpr rules) := by
  refine .bind_pos fun start => .bind_token fun tok => ?_
  split
  · exact .bind ident_relocates qualifiedFrom_relocates
  · refine .bind_advance (.bind (arrayLength_relocates moves) fun length => .bind_expect fun _ =>
      .bind moves.type fun elem => .pure ?_)
    simp [relocate, Span.relocated]
  · refine .bind_advance (.bind (members_relocates (structField_relocates moves)) fun fields =>
      .bind_prevStop fun stop => .pure ?_)
    simp [relocate, Span.relocated]
  · refine .bind_advance (.bind moves.type fun operand => .pure ?_)
    simp [relocate, Span.relocated]
  · refine .bind_advance (.bind (funcTypeFrom_relocates moves start) fun type => .pure ?_)
    simp [relocate]
  · refine .bind_advance (.bind (members_relocates (interfaceMember_relocates moves))
      fun methods => .bind_prevStop fun stop => .pure ?_)
    simp [relocate, Span.relocated]
  · refine .bind_advance (.bind_expect fun _ => .bind moves.type fun key => .bind_expect fun _ =>
      .bind moves.type fun value => .pure ?_)
    simp [relocate, Span.relocated]
  · refine .bind_advance (.bind_accept fun found => .bind moves.type fun elem => .pure ?_)
    simp [relocate, Span.relocated]
  · refine .bind_advance (.bind_expect fun _ => .bind moves.type fun elem => .pure ?_)
    simp [relocate, Span.relocated]
  · refine .bind_advance (.bind moves.type fun inner => .bind_expect fun _ =>
      .bind_prevStop fun stop => .pure ?_)
    simp [relocate, Span.relocated]
  · exact .expected

end Types

/-! ### Expressions -/

section Expressions

theorem keyedElement_relocates (moves : rules.Relocate place) :
    Relocates place (keyedElement rules) (keyedElement rules) := by
  refine .bind moves.element fun key => .bind_accept fun found => ?_
  split
  · refine .bind moves.element fun value => .pure ?_
    simp [relocate, Span.relocated]
  · exact .pure rfl

theorem compositeLit_relocates (moves : rules.Relocate place) (type : Option Expr) :
    Relocates place (compositeLit rules type) (compositeLit rules (relocate place type)) := by
  refine .bind_expect fun brace =>
    .bind (.bracketed (.listUntil (keyedElement_relocates moves) _)) fun elems =>
      .bind_expect fun _ => .bind_prevStop fun stop => .pure ?_
  cases type <;> simp [relocate, Span.relocated]

theorem elementValue_relocates (moves : rules.Relocate place) :
    Relocates place (elementValue rules) (elementValue rules) := by
  refine .bind_token fun tok => ?_
  split
  · exact compositeLit_relocates moves none
  · exact moves.binary 1

theorem funcLitOrType_relocates (moves : rules.Relocate place) :
    Relocates place (funcLitOrType rules) (funcLitOrType rules) := by
  refine .bind_expect fun start => .bind (funcTypeFrom_relocates moves start) fun type =>
    .bind_token fun tok => ?_
  split
  · refine .bind (.atLevel moves.block _) fun body => .pure ?_
    simp [relocate, Span.relocated]
  · exact .pure (by simp [relocate])

theorem operand_relocates (moves : rules.Relocate place) :
    Relocates place (operand rules) (operand rules) := by
  refine .bind_token fun tok => ?_
  split
  · exact .bind ident_relocates fun name => .pure (by simp [relocate])
  iterate 5 exact .bind literal_relocates fun value => .pure (by simp [relocate])
  · refine .bind_expect fun start => .bind (.bracketed (moves.binary 1)) fun inner =>
      .bind_expect fun _ => .bind_prevStop fun stop => .pure ?_
    simp [relocate, Span.relocated]
  · exact funcLitOrType_relocates moves
  iterate 5 exact moves.type
  · exact .expected

theorem selectorOrAssertion_relocates (moves : rules.Relocate place) (operand : Expr) :
    Relocates place (selectorOrAssertion rules operand)
      (selectorOrAssertion rules (operand.relocated place)) := by
  refine .bind_token fun tok => ?_
  split
  · refine .bind ident_relocates fun sel => .pure ?_
    simp [relocate, Span.relocated]
  · refine .bind_advance (.bind_accept fun found => ?_)
    split
    · refine .bind (.pure rfl) fun type => .bind_expect fun _ => .bind_prevStop fun stop =>
        .pure ?_
      simp [relocate, Span.relocated]
    · refine .bind (.option moves.type) fun type => .bind_expect fun _ =>
        .bind_prevStop fun stop => .pure ?_
      simp [relocate, Span.relocated]
  · exact .expected

theorem sliceIndex_relocates (moves : rules.Relocate place) :
    Relocates place (sliceIndex rules) (sliceIndex rules) := by
  refine .bind_token fun tok => ?_
  split
  · exact .pure rfl
  · exact .pure rfl
  · exact .bind (moves.binary 1) fun value => .pure rfl

instance : Relocatable Indices :=
  ⟨fun place parts => ⟨relocate place parts.first, relocate place parts.second,
    relocate place parts.third, parts.colons⟩⟩

theorem indices_relocates (moves : rules.Relocate place) :
    Relocates place (indices rules) (indices rules) := by
  have rest (first : Option Expr) : Relocates place
      (do
        if ← accept .colon then
          let second ← sliceIndex rules
          if ← accept .colon then
            let third ← sliceIndex rules
            return ⟨first, second, third, 2⟩
          else
            return ⟨first, second, none, 1⟩
        else
          return ({ first } : Indices))
      (do
        if ← accept .colon then
          let second ← sliceIndex rules
          if ← accept .colon then
            let third ← sliceIndex rules
            return ⟨relocate place first, second, third, 2⟩
          else
            return ⟨relocate place first, second, none, 1⟩
        else
          return ({ first := relocate place first } : Indices)) := by
    refine .bind_accept fun found => ?_
    split
    · refine .bind (sliceIndex_relocates moves) fun second => .bind_accept fun found => ?_
      split
      · exact .bind (sliceIndex_relocates moves) fun third => .pure rfl
      · exact .pure rfl
    · exact .pure rfl
  refine .bind_token fun tok => ?_
  split
  · exact .bind (.pure rfl) rest
  · exact .bind (.option (moves.binary 1)) rest

theorem indexOrSlice_relocates (moves : rules.Relocate place) (operand : Expr) :
    Relocates place (indexOrSlice rules operand)
      (indexOrSlice rules (operand.relocated place)) := by
  refine .bind_expect fun _ => .bind (.bracketed (indices_relocates moves)) fun parts =>
    .bind_expect fun _ => .bind_prevStop fun stop => ?_
  obtain ⟨first, second, third, colons⟩ := parts
  dsimp only [relocate]
  split
  · refine .pure ?_
    simp [relocate, Span.relocated]
  · cases first with
    | none => exact .expected
    | some index =>
        refine .pure ?_
        simp [relocate, Span.relocated]

theorem call_relocates (moves : rules.Relocate place) (callee : Expr) :
    Relocates place (call rules callee) (call rules (callee.relocated place)) := by
  refine .bind_expect fun _ => .bind (.bracketed (.listUntil ?arg _)) fun args =>
    .bind_expect fun _ => .bind_prevStop fun stop => .pure ?_
  case arg => exact .bind (moves.binary 1) fun arg => .bind_accept fun found => .pure rfl
  simp [relocate, Span.relocated, List.any_map, Function.comp_def]

theorem Expr.isTypeName_relocated (value : Expr) :
    (value.relocated place).isTypeName = value.isTypeName := by
  cases value with
  | selector span operand sel => cases operand <;> rfl
  | _ => rfl

theorem Expr.isLiteralType_relocated (value : Expr) :
    (value.relocated place).isLiteralType = value.isLiteralType := by
  cases value with
  | selector span operand sel => cases operand <;> rfl
  | _ => rfl

theorem extension_relocates (moves : rules.Relocate place) (operand : Expr) :
    Relocates place (extension rules operand) (extension rules (operand.relocated place)) := by
  refine .bind_token fun tok => ?_
  split
  · exact .bind_advance (.bind (selectorOrAssertion_relocates moves operand) fun value => .pure rfl)
  · exact .bind (indexOrSlice_relocates moves operand) fun value => .pure rfl
  · exact .bind (call_relocates moves operand) fun value => .pure rfl
  · refine .bind_get fun cursor => ?_
    rw [Expr.isLiteralType_relocated, Expr.isTypeName_relocated, Cursor.level_relocated]
    by_cases opens : (operand.isLiteralType && (0 ≤ cursor.level || !operand.isTypeName)) = true
    · rw [if_pos opens, if_pos opens]
      exact .bind (compositeLit_relocates moves (some operand)) fun value => .pure rfl
    · rw [if_neg opens, if_neg opens]
      exact .pure rfl
  · exact .pure rfl

theorem primaryFrom_relocates (moves : rules.Relocate place) (operand : Expr) :
    Relocates place (primaryFrom rules operand) (primaryFrom rules (operand.relocated place)) :=
  .extendAll (extension_relocates moves) operand

theorem unaryExpr_relocates (moves : rules.Relocate place) :
    Relocates place (unaryExpr rules) (unaryExpr rules) := by
  refine .bind_pos fun start => .bind_token fun tok => ?_
  split
  · refine .bind_advance (.bind moves.unary fun operand => .pure ?_)
    simp [relocate, Span.relocated]
  · split
    · refine .bind_get fun cursor => ?_
      rw [Cursor.peek_relocated]
      split
      · exact .bind moves.type (primaryFrom_relocates moves)
      · refine .bind_advance (.bind moves.unary fun operand => .pure ?_)
        simp [relocate, Span.relocated]
    · split
      · refine .bind_advance (.bind moves.unary fun operand => .pure ?_)
        simp [relocate, Span.relocated]
      · exact .bind (operand_relocates moves) (primaryFrom_relocates moves)

theorem binaryStep_relocates (moves : rules.Relocate place) (least : Nat) (left : Expr) :
    Relocates place (binaryStep rules least left)
      (binaryStep rules least (left.relocated place)) := by
  refine .bind_token fun op => ?_
  split
  · exact .pure rfl
  · refine .bind_advance (.bind (moves.binary _) fun right => .pure ?_)
    simp [relocate, Span.relocated]

theorem binaryExpr_relocates (moves : rules.Relocate place) (least : Nat) :
    Relocates place (binaryExpr rules least) (binaryExpr rules least) :=
  .bind (unaryExpr_relocates moves) (.extendAll (binaryStep_relocates moves least))

end Expressions

/-! ### Declarations of items -/

section Declarations

theorem importSpec_relocates : Relocates place importSpec importSpec := by
  have rest (start : Pos) (name : Option Ident) : Relocates place
      (do
        if (← token) = .string then
          let path ← literal
          return Spec.importSpec ⟨⟨start, path.span.stop⟩, name, path⟩
        else
          expected "import path")
      (do
        if (← token) = .string then
          let path ← literal
          return Spec.importSpec ⟨⟨place start, path.span.stop⟩, relocate place name, path⟩
        else
          expected "import path") := by
    refine .bind_token fun tok => ?_
    split
    · refine .bind literal_relocates fun path => .pure ?_
      simp [relocate, Span.relocated, ImportSpec.relocated, BasicLit.relocated]
    · exact .expected
  refine .bind_lexeme fun lexeme kept => ?_
  split
  · exact .bind (.option ident_relocates) (rest lexeme.pos)
  next isPeriod =>
    refine .bind_advance (.bind (.pure ?_) (rest lexeme.pos))
    simp [relocate, Ident.relocated, Span.relocated, (kept (by simp [isPeriod])).period isPeriod]
  · exact .bind (.pure rfl) (rest lexeme.pos)

/-- What a value specification reads behind its names and its type. -/
theorem specValues_relocates (moves : rules.Relocate place) (keyword : Token) (start : Pos)
    (names : List Ident) (type : Option Expr) :
    Relocates place
      (do
        if ← accept .assign then
          let (first, others) ← exprList rules
          return Spec.valueSpec ⟨start, ← prevStop⟩ names type (first :: others)
        else if keyword = .kwVar && type.isNone then
          expected "type"
        else
          return Spec.valueSpec ⟨start, ← prevStop⟩ names type [])
      (do
        if ← accept .assign then
          let (first, others) ← exprList rules
          return Spec.valueSpec ⟨place start, ← prevStop⟩ (relocate place names)
            (relocate place type) (first :: others)
        else if keyword = .kwVar && (relocate place type).isNone then
          expected "type"
        else
          return Spec.valueSpec ⟨place start, ← prevStop⟩ (relocate place names)
            (relocate place type) []) := by
  refine .bind_accept fun found => ?_
  split
  · refine .bind_pair (exprList_relocates moves) fun first others => .bind_prevStop fun stop => .pure ?_
    simp [relocate, Span.relocated]
  · have sameNone : (relocate place type).isNone = type.isNone := Option.isNone_map
    rw [sameNone]
    split
    · exact .expected
    · refine .bind_prevStop fun stop => .pure ?_
      simp [relocate, Span.relocated]

theorem valueSpec_relocates (moves : rules.Relocate place) (keyword : Token) :
    Relocates place (valueSpec rules keyword) (valueSpec rules keyword) := by
  refine .bind_pos fun start => .bind identList_relocates fun names => .bind_token fun tok => ?_
  split
  · exact .bind (.pure rfl) (specValues_relocates moves keyword start names)
  · exact .bind (.pure rfl) (specValues_relocates moves keyword start names)
  · exact .bind (.pure rfl) (specValues_relocates moves keyword start names)
  · exact .bind (.option moves.type) (specValues_relocates moves keyword start names)

theorem typeSpec_relocates (moves : rules.Relocate place) :
    Relocates place (typeSpec rules) (typeSpec rules) := by
  refine .bind ident_relocates fun name => .bind_get fun cursor => ?_
  rw [Cursor.peek_relocated, Cursor.peek_relocated, Cursor.token_relocated]
  split
  · exact .failBind
  · refine .bind_accept fun isAlias => .bind moves.type fun type => .bind_prevStop fun stop => .pure ?_
    simp [relocate, Span.relocated]

theorem genDecl_closes (keyword : Token) {item : Parse Spec} (read : Relocates place item item) :
    Closes place (genDecl keyword item) (genDecl keyword item) := by
  have rest (start : Pos) (grouped : Bool) (specs : List Spec) : Closes place
      (do
        let stop ← prevStop
        expectEnd
        return (⟨⟨start, stop⟩, keyword, specs, grouped⟩ : GenDecl))
      (do
        let stop ← prevStop
        expectEnd
        return (⟨⟨place start, stop⟩, keyword, relocate place specs, grouped⟩ : GenDecl)) := by
    refine .bind .prevStop fun stop => .append .expectEnd fun _ => .pure ?_
    simp [relocate, Span.relocated]
  refine .bind (.expect keyword) fun start => .bind (.accept .leftParen) fun grouped => ?_
  show Closes place (if grouped then _ else _) (if grouped then _ else _)
  split
  · refine .bind (.manyWhile ?more ?one) fun specs => .bind (.expect .rightParen) fun _ =>
      .bind (.pure rfl) (rest start grouped)
    case more => exact .bind_token fun tok => .pure rfl
    case one => exact .bind read fun spec => .bind_expectEnd (.pure rfl)
  · exact .bind read fun spec => .bind (.pure rfl) (rest start grouped)

theorem genDecl_relocates (keyword : Token) {item : Parse Spec} (read : Relocates place item item) :
    Relocates place (genDecl keyword item) (genDecl keyword item) :=
  (genDecl_closes keyword read).toRelocates

end Declarations

/-! ### Simple statements -/

section Statements

theorem rangeClause_relocates (moves : rules.Relocate place) (key : Expr) (others : List Expr)
    (tok : Token) (tokPos : Pos) :
    Relocates place (rangeClause rules key others tok tokPos)
      (rangeClause rules (key.relocated place) (relocate place others) tok (place tokPos)) := by
  refine .bind_expect fun _ => .bind (moves.binary 1) fun operand => ?_
  match others with
  | [] | [value] =>
      refine .pure ?_
      simp [relocate, Span.relocated]
  | _ :: third :: _ => exact .failAt

/-- Positions are replaced so that the missing position stays what it is, and only that one. -/
structure KeepsAbsence (place : Pos → Pos) : Prop where
  absent : place noPos = noPos
  of_absent : ∀ pos, place pos = noPos → pos = noPos

theorem KeepsAbsence.eq_iff (keeps : KeepsAbsence place) (pos : Pos) :
    place pos = noPos ↔ pos = noPos :=
  ⟨keeps.of_absent pos, fun isAbsent => isAbsent ▸ keeps.absent⟩

theorem labeledFrom_relocates (keeps : KeepsAbsence place) (moves : rules.Relocate place)
    (label : Ident) :
    Relocates place (labeledFrom rules label) (labeledFrom rules (label.relocated place)) := by
  have rest (inner : Stmt) : Relocates place
      (do
        let prev ← prevStop
        let stop := if inner.span.stop = noPos then prev else inner.span.stop
        return Stmt.labeled ⟨label.span.start, stop⟩ label inner)
      (do
        let prev ← prevStop
        let stop := if (inner.relocated place).span.stop = noPos then prev
          else (inner.relocated place).span.stop
        return Stmt.labeled ⟨(label.relocated place).span.start, stop⟩ (label.relocated place)
          (inner.relocated place)) := by
    refine .bind_prevStop fun prev => .pure ?_
    by_cases isAbsent : inner.span.stop = noPos
    · simp [relocate, Span.relocated, isAbsent, keeps.absent]
    · simp [relocate, Span.relocated, isAbsent, keeps.eq_iff]
  refine .bind_token fun tok => ?_
  split
  · exact .bind_pos fun here => .bind (.pure rfl) rest
  · refine .bind moves.stmt fun stmt => ?_
    cases stmt with
    | none => exact .bind_prevStop fun here => .bind (.pure rfl) rest
    | some stmt => exact .bind (.pure rfl) rest

theorem simpleStmt_relocates (keeps : KeepsAbsence place) (moves : rules.Relocate place)
    (labelOk rangeOk : Bool) :
    Relocates place (simpleStmt rules labelOk rangeOk) (simpleStmt rules labelOk rangeOk) := by
  refine .bind_pair (exprList_relocates moves) fun first others => .bind_token fun tok => ?_
  have sameEmpty : (relocate place others).isEmpty = others.isEmpty := List.isEmpty_map
  have alone (value : Expr) : Stmt.expr (value.relocated place).span (value.relocated place) =
      relocate place (Stmt.expr value.span value) := by
    simp [relocate]
  split
  · refine .bind_pos fun tokPos => .bind_advance (.bind_token fun next => ?_)
    split
    · exact rangeClause_relocates moves first others tok tokPos
    · refine .bind_pair (exprList_relocates moves) fun value values => .pure ?_
      have last : (relocate place values).getLast?.getD (relocate place value) =
          (values.getLast?.getD value).relocated place := by
        simp only [relocate, List.getLast?_map]
        cases values.getLast? <;> rfl
      simp only [relocate] at last ⊢
      simp [Span.relocated]
  · simp only [relocate] at sameEmpty ⊢
    rw [sameEmpty]
    split
    · exact .expected
    · by_cases isColon : tok = .colon
      · subst isColon
        cases first with
        | ident label =>
            show Relocates place (if labelOk then _ else _) (if labelOk then _ else _)
            split
            · exact .bind_advance (labeledFrom_relocates keeps moves label)
            · exact .pure (alone _)
        | _ => exact .pure (alone _)
      · split
        · exact absurd rfl isColon
        · refine .bind_advance (.bind (moves.binary 1) fun value => .pure ?_)
          simp [relocate, Span.relocated]
        · refine .bind_advance (.bind_prevStop fun stop => .pure ?_)
          simp [relocate, Span.relocated]
        · refine .bind_advance (.bind_prevStop fun stop => .pure ?_)
          simp [relocate, Span.relocated]
        next noSend noIncrement noDecrement _ =>
          split
          · exact absurd rfl isColon
          · exact absurd rfl noSend
          · exact absurd rfl noIncrement
          · exact absurd rfl noDecrement
          · exact .pure (alone _)

theorem stmtList_relocates (moves : rules.Relocate place) :
    Relocates place (stmtList rules) (stmtList rules) := by
  refine .bind (.manyWhile ?more moves.stmt) fun stmts => .pure ?_
  case more =>
    refine .bind_token fun tok => ?_
    split <;> exact .pure rfl
  simp [relocate, List.filterMap_map, List.map_filterMap]

theorem blockStmt_relocates (moves : rules.Relocate place) :
    Relocates place (blockStmt rules) (blockStmt rules) := by
  refine .bind_expect fun start => .bind (stmtList_relocates moves) fun stmts =>
    .bind_expect fun _ => .bind_prevStop fun stop => .pure ?_
  simp [relocate, Span.relocated]

theorem clauseBlock_relocates {clause : Parse Stmt} (read : Relocates place clause clause) :
    Relocates place (clauseBlock clause) (clauseBlock clause) := by
  refine .bind_expect fun start => .bind (.manyWhile ?more read) fun clauses =>
    .bind_expect fun _ => .bind_prevStop fun stop => .pure ?_
  case more => exact .bind_token fun tok => .pure rfl
  simp [relocate, Span.relocated]

theorem caseClause_relocates (moves : rules.Relocate place) (ofTypes : Bool) :
    Relocates place (caseClause rules ofTypes) (caseClause rules ofTypes) := by
  have rest (start : Pos) (exprs : Option (List Expr)) : Relocates place
      (do
        let colon ← expect .colon
        let body ← stmtList rules
        return Stmt.caseClause ⟨start, ← prevStop⟩ exprs body colon)
      (do
        let colon ← expect .colon
        let body ← stmtList rules
        return Stmt.caseClause ⟨place start, ← prevStop⟩ (relocate place exprs) body colon) := by
    refine .bind_expect fun colon => .bind (stmtList_relocates moves) fun body =>
      .bind_prevStop fun stop => .pure ?_
    cases exprs <;> simp [relocate, Span.relocated]
  refine .bind_pos fun start => .bind_accept fun found => ?_
  split
  · refine .bind_pair (.commaSeparated ?value) fun first others => .bind (.pure rfl) (rest start)
    case value =>
      cases ofTypes
      · exact moves.binary 1
      · exact moves.type
  · exact .bind_expect fun _ => .bind (.pure rfl) (rest start)

theorem communication_relocates (moves : rules.Relocate place) :
    Relocates place (communication rules) (communication rules) := by
  refine .bind_pair (exprList_relocates moves) fun first others => .bind_token fun tok => ?_
  have sameEmpty : (relocate place others).isEmpty = others.isEmpty := List.isEmpty_map
  split
  · refine .bind_pos fun tokPos => .bind_advance (.bind (moves.binary 1) fun value => .pure ?_)
    simp [relocate, Span.relocated]
  · simp only [relocate] at sameEmpty ⊢
    rw [sameEmpty]
    split
    · exact .expected
    · refine .bind_accept fun found => ?_
      split
      · refine .bind (moves.binary 1) fun value => .pure ?_
        simp [relocate, Span.relocated]
      · refine .pure ?_
        simp [relocate]

theorem commClause_relocates (moves : rules.Relocate place) :
    Relocates place (commClause rules) (commClause rules) := by
  have rest (start : Pos) (comm : Option Stmt) : Relocates place
      (do
        let colon ← expect .colon
        let body ← stmtList rules
        return Stmt.commClause ⟨start, ← prevStop⟩ comm body colon)
      (do
        let colon ← expect .colon
        let body ← stmtList rules
        return Stmt.commClause ⟨place start, ← prevStop⟩ (relocate place comm) body colon) := by
    refine .bind_expect fun colon => .bind (stmtList_relocates moves) fun body =>
      .bind_prevStop fun stop => .pure ?_
    simp [relocate, Span.relocated]
  refine .bind_pos fun start => .bind_accept fun found => ?_
  split
  · exact .bind (.option (communication_relocates moves)) (rest start)
  · exact .bind_expect fun _ => .bind (.pure rfl) (rest start)

/-- What the header of an `if` reads behind its first statement. -/
theorem ifCondition_relocates (moves : rules.Relocate place) (start : Pos) (first : Option Stmt) :
    Relocates place
      (do
        if ← accept .semicolon then
          if (← token) = .leftBrace then
            fail .missingCondition
          return (first, ← rules.expr)
        else
          match first with
          | some (.expr _ cond) => return (none, cond)
          | _ => failAt start .assignmentAsValue)
      (do
        if ← accept .semicolon then
          if (← token) = .leftBrace then
            fail .missingCondition
          return (relocate place first, ← rules.expr)
        else
          match relocate place first with
          | some (.expr _ cond) => return (none, cond)
          | _ => failAt (place start) .assignmentAsValue) := by
  refine .bind_accept fun found => ?_
  split
  · refine .bind_token fun tok => ?_
    split
    · exact .failBind
    · exact .bind (moves.binary 1) fun cond => .pure rfl
  · cases first with
    | none => exact .failAt
    | some first =>
        cases first with
        | expr span cond => exact .pure rfl
        | _ => exact .failAt

theorem ifHeader_relocates (keeps : KeepsAbsence place) (moves : rules.Relocate place)
    (start : Pos) :
    Relocates place (ifHeader rules start) (ifHeader rules (place start)) := by
  refine .bind_token fun tok => ?_
  split
  · exact .failBind
  · refine .bind_token fun tok => ?_
    split
    · exact .bind (.pure rfl) (ifCondition_relocates moves start)
    · exact .bind (.option (simpleStmt_relocates keeps moves false false))
        (ifCondition_relocates moves start)

theorem ifStmt_relocates (keeps : KeepsAbsence place) (moves : rules.Relocate place) :
    Relocates place (ifStmt rules) (ifStmt rules) := by
  refine .bind_expect fun start => .bind_pair (.inHeader (ifHeader_relocates keeps moves start))
    fun init cond => .bind (blockStmt_relocates moves) fun body => .bind_accept fun found => ?_
  split
  · refine .bind_token fun tok => ?_
    split
    · refine .bind moves.ifStmt fun otherwise => .pure ?_
      simp [relocate, Span.relocated]
    · refine .bind (blockStmt_relocates moves) fun otherwise => .bind_expectEnd (.pure ?_)
      simp [relocate, Span.relocated]
    · exact .expected
  · refine .bind_prevStop fun stop => .bind_expectEnd (.pure ?_)
    simp [relocate, Span.relocated]

theorem switchHeader_relocates (keeps : KeepsAbsence place) (moves : rules.Relocate place) :
    Relocates place (switchHeader rules) (switchHeader rules) := by
  have simple := simpleStmt_relocates keeps moves false false
  have rest (first : Option Stmt) : Relocates place
      (do
        if ← accept .semicolon then
          if (← token) = .leftBrace then
            return (first, none)
          else
            return (first, some (← simpleStmt rules false false))
        else
          return (none, first))
      (do
        if ← accept .semicolon then
          if (← token) = .leftBrace then
            return (relocate place first, none)
          else
            return (relocate place first, some (← simpleStmt rules false false))
        else
          return (none, relocate place first)) := by
    refine .bind_accept fun found => ?_
    split
    · refine .bind_token fun tok => ?_
      split
      · exact .pure rfl
      · exact .bind simple fun tag => .pure rfl
    · exact .pure rfl
  refine .bind_token fun tok => ?_
  split
  · exact .pure rfl
  · refine .bind_token fun tok => ?_
    split
    · exact .bind (.pure rfl) rest
    · exact .bind (.option simple) rest

theorem Expr.isTypeGuard_relocated (value : Expr) :
    (value.relocated place).isTypeGuard = value.isTypeGuard := by
  cases value with
  | typeAssert span operand type => cases type <;> rfl
  | _ => rfl

theorem Stmt.isTypeGuard_relocated (step : Stmt) :
    (step.relocated place).isTypeGuard = step.isTypeGuard := by
  cases step with
  | expr span value => exact Expr.isTypeGuard_relocated value
  | assign span lhs tok rhs tokPos =>
      rcases lhs with _ | ⟨left, _ | ⟨other, lhs⟩⟩ <;> cases tok <;>
        rcases rhs with _ | ⟨value, _ | ⟨other, rhs⟩⟩ <;>
        first | rfl | exact Expr.isTypeGuard_relocated value
  | _ => rfl

theorem switchStmt_relocates (keeps : KeepsAbsence place) (moves : rules.Relocate place) :
    Relocates place (switchStmt rules) (switchStmt rules) := by
  refine .bind_expect fun start => .bind_pair (.inHeader (switchHeader_relocates keeps moves))
    fun init tag => ?_
  have ofTypes : (relocate place tag).any Stmt.isTypeGuard = tag.any Stmt.isTypeGuard := by
    cases tag with
    | none => rfl
    | some tag => exact Stmt.isTypeGuard_relocated tag
  show Relocates place _ (clauseBlock (caseClause rules ((relocate place tag).any _)) >>= _)
  rw [ofTypes]
  refine .bind (clauseBlock_relocates (caseClause_relocates moves _)) fun body =>
    .bind_prevStop fun stop => .bind_expectEnd ?_
  cases tag with
  | none =>
      refine .pure ?_
      simp [relocate, Span.relocated]
  | some tag =>
      simp only [relocate, Option.map_some, Option.any_some]
      split
      · refine .pure ?_
        simp [relocate, Span.relocated]
      · cases tag with
        | expr span value =>
            refine .pure ?_
            simp [relocate, Span.relocated]
        | _ => exact .failAt

theorem selectStmt_relocates (moves : rules.Relocate place) :
    Relocates place (selectStmt rules) (selectStmt rules) := by
  refine .bind_expect fun start => .bind (clauseBlock_relocates (commClause_relocates moves))
    fun body => .bind_expectEnd (.pure ?_)
  simp [relocate, Span.relocated]

/-- The header of a loop at another place. -/
def LoopHeader.relocated (place : Pos → Pos) : LoopHeader → LoopHeader
  | .overRange key value tok operand tokPos =>
      .overRange (relocate place key) (relocate place value) tok (operand.relocated place)
        (place tokPos)
  | .clauses init cond post =>
      .clauses (relocate place init) (relocate place cond) (relocate place post)

instance : Relocatable LoopHeader := ⟨LoopHeader.relocated⟩

theorem loopClauses_relocates (keeps : KeepsAbsence place) (moves : rules.Relocate place)
    (init : Option Stmt) :
    Relocates place (loopClauses rules init) (loopClauses rules (relocate place init)) := by
  have simple := simpleStmt_relocates keeps moves false false
  have last (cond : Option Stmt) : Relocates place
      (do
        let post ←
          if (← token) = .leftBrace then pure none else some <$> simpleStmt rules false false
        return LoopHeader.clauses init cond post)
      (do
        let post ←
          if (← token) = .leftBrace then pure none else some <$> simpleStmt rules false false
        return LoopHeader.clauses (relocate place init) (relocate place cond) post) := by
    refine .bind_token fun tok => ?_
    split
    · exact .bind (.pure rfl) fun post => .pure rfl
    · exact .bind (.option simple) fun post => .pure rfl
  have rest (cond : Option Stmt) : Relocates place
      (do
        if !(← accept .semicolon) then
          expected "';'"
        let post ←
          if (← token) = .leftBrace then pure none else some <$> simpleStmt rules false false
        return LoopHeader.clauses init cond post)
      (do
        if !(← accept .semicolon) then
          expected "';'"
        let post ←
          if (← token) = .leftBrace then pure none else some <$> simpleStmt rules false false
        return LoopHeader.clauses (relocate place init) (relocate place cond) post) := by
    refine .bind_accept fun found => ?_
    cases found
    · exact .of_fails fun _ => ⟨_, rfl⟩
    · exact last cond
  refine .bind_token fun tok => ?_
  split
  · exact .bind (.pure rfl) rest
  · exact .bind (.option simple) rest

theorem loopHeader_relocates (keeps : KeepsAbsence place) (moves : rules.Relocate place) :
    Relocates place (loopHeader rules) (loopHeader rules) := by
  refine .bind_token fun tok => ?_
  split
  · exact .pure rfl
  · refine .bind_advance (.bind (moves.binary 1) fun operand => .pure ?_)
    simp [relocate, LoopHeader.relocated, keeps.absent]
  · exact .bind_advance (loopClauses_relocates keeps moves none)
  · refine .bind (simpleStmt_relocates keeps moves false true) fun first => ?_
    have rest (first : Stmt) : Relocates place
        (do
          if ← accept .semicolon then
            loopClauses rules (some first)
          else
            return LoopHeader.clauses none (some first) none)
        (do
          if ← accept .semicolon then
            loopClauses rules (some (first.relocated place))
          else
            return LoopHeader.clauses none (some (first.relocated place)) none) := by
      refine .bind_accept fun found => ?_
      split
      · exact loopClauses_relocates keeps moves (some first)
      · exact .pure rfl
    cases first with
    | range span key value tok operand body tokPos =>
        refine .pure ?_
        simp [relocate, LoopHeader.relocated]
    | _ => exact rest _

theorem forStmt_relocates (keeps : KeepsAbsence place) (moves : rules.Relocate place) :
    Relocates place (forStmt rules) (forStmt rules) := by
  refine .bind_expect fun start => .bind (.inHeader (loopHeader_relocates keeps moves))
    fun header => .bind (blockStmt_relocates moves) fun body => .bind_expectEnd ?_
  cases header with
  | overRange key value tok operand tokPos =>
      refine .pure ?_
      simp [relocate, Span.relocated]
  | clauses init cond post =>
      cases cond with
      | none =>
          refine .pure ?_
          simp [relocate, Span.relocated]
      | some cond =>
          cases cond with
          | expr span cond =>
              refine .pure ?_
              simp [relocate, Span.relocated]
          | _ => exact .failAt

theorem callStmt_relocates (moves : rules.Relocate place) (keyword : Token)
    {build : Span → Expr → Stmt} (same : ∀ span call,
      (build span call).relocated place = build (span.relocated place) (call.relocated place)) :
    Relocates place (callStmt rules keyword build) (callStmt rules keyword build) := by
  refine .bind_expect fun start => .bind (moves.binary 1) fun call => ?_
  cases call with
  | call span callee args spread =>
      refine .bind_prevStop fun stop => .bind_expectEnd (.pure ?_)
      simp [relocate, Span.relocated, same]
  | _ => exact .failAt

theorem returnStmt_relocates (moves : rules.Relocate place) :
    Relocates place (returnStmt rules) (returnStmt rules) := by
  have rest (start : Pos) (results : List Expr) : Relocates place
      (do
        let stop ← prevStop
        expectEnd
        return Stmt.ret ⟨start, stop⟩ results)
      (do
        let stop ← prevStop
        expectEnd
        return Stmt.ret ⟨place start, stop⟩ (relocate place results)) := by
    refine .bind_prevStop fun stop => .bind_expectEnd (.pure ?_)
    simp [relocate, Span.relocated]
  refine .bind_expect fun start => .bind_token fun tok => ?_
  split
  · exact .bind (.pure rfl) (rest start)
  · exact .bind (.pure rfl) (rest start)
  · exact .bind_pair (exprList_relocates moves) fun first others => .bind (.pure rfl) (rest start)

theorem branchStmt_relocates (keyword : Token) :
    Relocates place (branchStmt keyword) (branchStmt keyword) := by
  have rest (start : Pos) (label : Option Ident) : Relocates place
      (do
        let stop ← prevStop
        expectEnd
        return Stmt.branch ⟨start, stop⟩ keyword label)
      (do
        let stop ← prevStop
        expectEnd
        return Stmt.branch ⟨place start, stop⟩ keyword (relocate place label)) := by
    refine .bind_prevStop fun stop => .bind_expectEnd (.pure ?_)
    simp [relocate, Span.relocated]
  refine .bind_expect fun start => .bind_token fun tok => ?_
  split
  · exact .bind (.option ident_relocates) (rest start)
  · exact .bind (.pure rfl) (rest start)

theorem declStmt_relocates (moves : rules.Relocate place) (keyword : Token) :
    Relocates place (declStmt rules keyword) (declStmt rules keyword) := by
  refine .bind (genDecl_relocates keyword ?_) fun decl => .pure ?_
  · split
    · exact typeSpec_relocates moves
    · exact valueSpec_relocates moves keyword
  · simp [relocate]

theorem statement_relocates (keeps : KeepsAbsence place) (moves : rules.Relocate place) :
    Relocates place (statement rules) (statement rules) := by
  refine .bind_token fun tok => ?_
  split
  · refine .bind (simpleStmt_relocates keeps moves true false) fun step => ?_
    cases step with
    | labeled span label inner => exact .pure rfl
    | _ => exact .bind_expectEnd (.pure rfl)
  · split
    iterate 3 exact .option (declStmt_relocates moves _)
    · exact .option (callStmt_relocates moves _ fun _ _ => by simp)
    · exact .option (callStmt_relocates moves _ fun _ _ => by simp)
    · exact .option (returnStmt_relocates moves)
    iterate 4 exact .option (branchStmt_relocates _)
    · refine .bind (blockStmt_relocates moves) fun body => .bind_expectEnd (.pure ?_)
      simp [relocate]
    · exact .option (ifStmt_relocates keeps moves)
    · exact .option (switchStmt_relocates keeps moves)
    · exact .option (selectStmt_relocates moves)
    · exact .option (forStmt_relocates keeps moves)
    · exact .bind_advance (.pure rfl)
    · exact .expected

end Statements

end Parse

/-! ### Files -/

namespace Rules

variable {place : Pos → Pos} {rules : Rules}

theorem Relocate.unroll (keeps : Parse.KeepsAbsence place) (moves : rules.Relocate place) :
    rules.unroll.Relocate place where
  binary := Parse.binaryExpr_relocates moves
  unary := Parse.unaryExpr_relocates moves
  element := Parse.elementValue_relocates moves
  type := Parse.typeExpr_relocates moves
  block := Parse.blockStmt_relocates moves
  stmt := Parse.statement_relocates keeps moves
  ifStmt := Parse.ifStmt_relocates keeps moves

theorem exhausted_relocate : exhausted.Relocate place where
  binary _ := .fail
  unary := .fail
  element := .fail
  type := .fail
  block := .fail
  stmt := .fail
  ifStmt := .fail

theorem ofDepth_relocate (keeps : Parse.KeepsAbsence place) (depth : Nat) :
    (ofDepth depth).Relocate place := by
  induction depth with
  | zero => exact exhausted_relocate
  | succ depth ih => exact ih.unroll keeps

end Rules

namespace Parse

variable {place : Pos → Pos} {rules : Rules}

theorem funcDecl_closes (moves : rules.Relocate place) :
    Closes place (funcDecl rules) (funcDecl rules) := by
  have last (start : Pos) (recv : Option FieldList) (name : Ident) (type : FuncType)
      (body : Option Block) : Closes place
      (do
        let stop ← prevStop
        expectEnd
        return (⟨⟨start, stop⟩, recv, name, type, body⟩ : FuncDecl))
      (do
        let stop ← prevStop
        expectEnd
        return (⟨⟨place start, stop⟩, relocate place recv, relocate place name, relocate place type,
          relocate place body⟩ : FuncDecl)) := by
    exact .bind .prevStop fun stop => .append .expectEnd fun _ => .pure rfl
  have rest (start : Pos) (recv : Option FieldList) : Closes place
      (do
        let name ← ident
        if (← token) = .leftBracket then
          fail .typeParameters
        let type ← funcTypeFrom rules start
        let body ←
          if (← token) = .leftBrace then
            some <$> atLevel 0 rules.block
          else
            pure none
        let stop ← prevStop
        expectEnd
        return (⟨⟨start, stop⟩, recv, name, type, body⟩ : FuncDecl))
      (do
        let name ← ident
        if (← token) = .leftBracket then
          fail .typeParameters
        let type ← funcTypeFrom rules (place start)
        let body ←
          if (← token) = .leftBrace then
            some <$> atLevel 0 rules.block
          else
            pure none
        let stop ← prevStop
        expectEnd
        return (⟨⟨place start, stop⟩, relocate place recv, name, type, body⟩ : FuncDecl)) := by
    refine .bind ident_relocates fun name => .bind .token fun tok => ?_
    show Closes place (if tok = .leftBracket then _ else _) (if tok = .leftBracket then _ else _)
    split
    · exact .of_fails fun _ => ⟨_, rfl⟩
    · refine .bind (funcTypeFrom_relocates moves start) fun type => .bind .token fun tok => ?_
      show Closes place (if tok = .leftBrace then _ else _) (if tok = .leftBrace then _ else _)
      split
      · exact .bind (.option (.atLevel moves.block _)) (last start recv name type)
      · exact .bind (.pure rfl) (last start recv name type)
  refine .bind (.expect .kwFunc) fun start => .bind .token fun tok => ?_
  show Closes place (if tok = .leftParen then _ else _) (if tok = .leftParen then _ else _)
  split
  · exact .bind (.option (parameters_relocates moves)) (rest start)
  · exact .bind (.pure rfl) (rest start)

theorem declaration_closes (moves : rules.Relocate place) :
    Closes place (declaration rules) (declaration rules) := by
  refine .bind .token fun tok => ?_
  dsimp only [relocate]
  split
  · exact .of_fails fun _ => ⟨_, rfl⟩
  · exact .map (genDecl_closes _ (valueSpec_relocates moves _)) fun _ => rfl
  · exact .map (genDecl_closes _ (valueSpec_relocates moves _)) fun _ => rfl
  · exact .map (genDecl_closes _ (typeSpec_relocates moves)) fun _ => rfl
  · exact .map (funcDecl_closes moves) fun _ => rfl
  · exact .of_fails fun _ => ⟨_, rfl⟩

/-- A file begins with the word `package`, which is not its end. -/
theorem fileContent_begins {first : Lexeme} {rest : List Lexeme} {prevStop : Pos}
    {content : Ident × List Decl} {after : Cursor}
    (outcome : fileContent rules { current := first, ahead := rest, prevStop } = .ok (content, after)) :
    first.token = .kwPackage ∧ rest ≠ [] := by
  obtain ⟨_, middle, opened, outcome⟩ := bind_eq_ok.mp outcome
  obtain ⟨isPackage, rfl, rfl⟩ := expect_eq_ok.mp opened
  refine ⟨isPackage, fun noRest => ?_⟩
  subst noRest
  have notEnd : ¬first.token = .endOfFile := fun isEnd => by cases isEnd.symm.trans isPackage
  obtain ⟨_, _, named, -⟩ := bind_eq_ok.mp outcome
  have isName := (ident_eq_ok.mp named).1
  simp only [Cursor.next, notEnd, if_false] at isName
  cases isName.symm.trans isPackage

/-- What follows the word `package` in a file is read at another place wherever the word itself
stands. -/
theorem fileContent_moved (moves : rules.Relocate place) {first other : Lexeme} {rest : List Lexeme}
    {prevStop prevStop' : Pos} {content : Ident × List Decl} {after : Cursor}
    (kept : Lexeme.AllKept place rest) (tokenEq : other.token = first.token)
    (stopEq : other.stop = place first.stop)
    (outcome : fileContent rules { current := first, ahead := rest, prevStop } = .ok (content, after)) :
    ∃ after', fileContent rules
      { current := other, ahead := rest.map (Lexeme.relocated place), prevStop := prevStop' } =
        .ok (relocate place content, after') := by
  have loops (package : Ident) : Matches place
      (do
        let imports ← manyWhile (do return (← token) = .kwImport) (genDecl .kwImport importSpec)
        let decls ← manyWhile (do return (← token) ≠ .endOfFile) (declaration rules)
        return (package, imports.map .gen ++ decls))
      (do
        let imports ← manyWhile (do return (← token) = .kwImport) (genDecl .kwImport importSpec)
        let decls ← manyWhile (do return (← token) ≠ .endOfFile) (declaration rules)
        return (relocate place package, imports.map .gen ++ decls)) := by
    refine .bind (.manyWhile (.bind_token fun tok => .pure rfl)
      (genDecl_closes _ importSpec_relocates)) fun imports =>
      .bind (.manyWhile (.bind_token fun tok => .pure rfl) (declaration_closes moves))
        fun decls => .pure ?_
    simp [relocate, Function.comp_def]
  have named : Closes place
      (do
        let package ← ident
        if package.isBlank then
          failAt package.span.start .blankPackageName
        expectEnd
        let imports ← manyWhile (do return (← token) = .kwImport) (genDecl .kwImport importSpec)
        let decls ← manyWhile (do return (← token) ≠ .endOfFile) (declaration rules)
        return (package, imports.map .gen ++ decls))
      (do
        let package ← ident
        if package.isBlank then
          failAt package.span.start .blankPackageName
        expectEnd
        let imports ← manyWhile (do return (← token) = .kwImport) (genDecl .kwImport importSpec)
        let decls ← manyWhile (do return (← token) ≠ .endOfFile) (declaration rules)
        return (package, imports.map .gen ++ decls)) := by
    refine .bind ident_relocates fun package => ?_
    show Closes place (if package.isBlank then _ else _) (if package.isBlank then _ else _)
    split
    · exact .of_fails fun _ => ⟨_, rfl⟩
    · exact .append .expectEnd fun _ => loops package
  obtain ⟨isPackage, hasRest⟩ := fileContent_begins outcome
  obtain ⟨_, middle, opened, outcome⟩ := bind_eq_ok.mp outcome
  obtain ⟨-, rfl, rfl⟩ := expect_eq_ok.mp opened
  have notEnd : ¬first.token = .endOfFile := fun isEnd => by cases isEnd.symm.trans isPackage
  have otherNotEnd : ¬other.token = .endOfFile := tokenEq ▸ notEnd
  cases rest with
  | nil => exact absurd rfl hasRest
  | cons lexeme rest =>
      simp only [Cursor.next, notEnd, if_false] at outcome
      have cursorKept : Cursor.KeptBy place ⟨lexeme, rest, first.stop, 0⟩ := kept
      obtain ⟨after', moved, -⟩ := named.moves _ _ _ cursorKept outcome
      refine ⟨after', bind_eq_ok.mpr ⟨_, _, expect_eq_ok.mpr ⟨tokenEq.trans isPackage, rfl, rfl⟩, ?_⟩⟩
      simp only [Cursor.next, otherNotEnd, if_false, List.map_cons, stopEq]
      exact moved

end Parse

end GoMend
