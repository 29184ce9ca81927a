import GoMend.Proofs.Grammar.Behaviour
import GoMend.Proofs.Layout.Spelling

/-!
# Printed expressions are read back

The words of a plain expression are read back as a tree that differs from the printed one in positions
and parentheses only.  What is read of an operand is extended as long as the words of the expression
last, so that every part of the tree is reached in the middle of an extension.
-/

namespace GoMend

mutual

/-- An expression without the positions and the parentheses of its plain parts. -/
def Expr.core : Expr → Expr
  | .ident name => .ident ⟨{}, name.name⟩
  | .binary _ left op right => .binary {} left.core op right.core
  | .paren _ inner => inner.core
  | .selector _ operand sel => .selector {} operand.core ⟨{}, sel.name⟩
  | .index _ operand inner => .index {} operand.core inner.core
  | .call _ callee args spread => .call {} callee.core (Expr.coreAll args) spread
  | other => other
termination_by structural value => value

/-- Expressions without positions and parentheses. -/
def Expr.coreAll : List Expr → List Expr
  | [] => []
  | value :: rest => value.core :: Expr.coreAll rest
termination_by structural values => values

end

namespace Cursor

/-- The words from the cursor to the end. -/
def words (cursor : Cursor) : List Word :=
  cursor.lexemes.map Lexeme.word

variable {cursor : Cursor} {word : Word} {words : List Word}

theorem token_of_words (facing : cursor.words = word :: words) : cursor.current.token = word.1 :=
  congrArg Prod.fst (List.cons.inj facing).1

theorem text_of_words (facing : cursor.words = word :: words) : cursor.current.text = word.2 :=
  congrArg Prod.snd (List.cons.inj facing).1

theorem length_words (cursor : Cursor) : cursor.words.length = cursor.ahead.length + 1 := by
  rw [Cursor.words, List.length_map, lexemes, List.length_cons]

/-- The cursor goes on unless it stands at the end. -/
theorem words_next (facing : cursor.words = word :: words) (notEnd : word.1 ≠ .endOfFile)
    (nonempty : words ≠ []) : cursor.next.words = words := by
  rw [← token_of_words facing] at notEnd
  obtain ⟨-, aheadEq⟩ := List.cons.inj facing
  unfold next
  rw [if_neg notEnd]
  cases ahead : cursor.ahead with
  | nil =>
      rw [ahead] at aheadEq
      exact absurd aheadEq.symm nonempty
  | cons lexeme rest =>
      rw [ahead] at aheadEq
      exact aheadEq

end Cursor

namespace Parse

/-! ### Running productions forward -/

section Running

variable {α β : Type} {cursor middle : Cursor}

theorem bind_of_ok {first : Parse α} {value : α} (outcome : first cursor = .ok (value, middle))
    (next : α → Parse β) : (first >>= next) cursor = next value middle := by
  show (first cursor >>= fun pair => next pair.1 pair.2) = _
  rw [outcome]
  rfl

theorem token_bind (next : Token → Parse β) :
    (token >>= next) cursor = next cursor.current.token cursor :=
  rfl

theorem pos_bind (next : Pos → Parse β) : (pos >>= next) cursor = next cursor.current.pos cursor :=
  rfl

theorem advance_bind (next : PUnit → Parse β) : (advance >>= next) cursor = next ⟨⟩ cursor.next :=
  rfl

theorem expect_bind {tok : Token} (tokenEq : cursor.current.token = tok) (next : Pos → Parse β) :
    (expect tok >>= next) cursor = next cursor.current.pos cursor.next :=
  bind_of_ok (expect_eq_ok.mpr ⟨tokenEq, rfl, rfl⟩) next

theorem accept_bind {tok : Token} (tokenEq : cursor.current.token = tok) (next : Bool → Parse β) :
    (accept tok >>= next) cursor = next true cursor.next :=
  bind_of_ok (accept_eq_ok.mpr (.inl ⟨tokenEq, rfl, rfl⟩)) next

theorem accept_bind_of_ne {tok : Token} (tokenNe : cursor.current.token ≠ tok)
    (next : Bool → Parse β) : (accept tok >>= next) cursor = next false cursor :=
  bind_of_ok (accept_eq_ok.mpr (.inr ⟨tokenNe, rfl, rfl⟩)) next

theorem ident_bind (tokenEq : cursor.current.token = .ident) (next : Ident → Parse β) :
    (ident >>= next) cursor =
      next ⟨cursor.current.span, cursor.current.text⟩ cursor.next :=
  bind_of_ok (ident_eq_ok.mpr ⟨tokenEq, rfl, rfl⟩) next

theorem bracketed_bind {production : Parse α} {value : α}
    (outcome : production { cursor with level := cursor.level + 1 } = .ok (value, middle))
    (next : α → Parse β) :
    (bracketed production >>= next) cursor = next value { middle with level := middle.level - 1 } :=
  bind_of_ok (bracketed_eq_ok.mpr ⟨middle, outcome, rfl⟩) next

end Running

/-! ### Trees that are read -/

variable {rules : Rules} {production : Parse Expr} {extend : Expr → Parse (Option Expr)}
  {value : Expr} {words more rest : List Word}

/-- A production reads words as a tree that is the given one up to positions and parentheses. -/
def Reads (production : Parse Expr) (value : Expr) (words rest : List Word) : Prop :=
  ∀ cursor : Cursor, cursor.words = words ++ rest → ∃ parsed after,
    production cursor = .ok (parsed, after) ∧ parsed.core = value.core ∧ after.words = rest

/-- A production comes, by way of words, to extend a tree that is the given one up to positions and
parentheses, and has enough extensions left for what follows. -/
def Reaches (extend : Expr → Parse (Option Expr)) (production : Parse Expr) (value : Expr)
    (words rest : List Word) : Prop :=
  ∀ cursor : Cursor, cursor.words = words ++ rest → ∃ limit parsed middle,
    production cursor = repeatExtend extend limit parsed middle ∧ parsed.core = value.core ∧
      middle.words = rest ∧ middle.ahead.length < limit

/-- Words extend a tree to another one, up to positions and parentheses. -/
def ExtendsTo (extend : Expr → Parse (Option Expr)) (value next : Expr) (words rest : List Word) :
    Prop :=
  ∀ parsed : Expr, parsed.core = value.core → ∀ cursor : Cursor, cursor.words = words ++ rest →
    ∃ extended after, extend parsed cursor = .ok (some extended, after) ∧
      extended.core = next.core ∧ after.words = rest

theorem Reaches.step {next : Expr} (reaches : Reaches extend production value words (more ++ rest))
    (extends' : ExtendsTo extend value next more rest) (nonempty : more ≠ []) :
    Reaches extend production next (words ++ more) rest := by
  intro cursor facing
  rw [List.append_assoc] at facing
  obtain ⟨limit, parsed, middle, outcome, coreEq, middleEq, enough⟩ := reaches cursor facing
  obtain ⟨extended, after, extendOutcome, extendedEq, afterEq⟩ :=
    extends' parsed coreEq middle middleEq
  have middleLength := middle.length_words
  have afterLength := after.length_words
  rw [middleEq, List.length_append] at middleLength
  rw [afterEq] at afterLength
  have positive := List.length_pos_iff.mpr nonempty
  cases limit with
  | zero => exact absurd enough (Nat.not_lt_zero _)
  | succ limit =>
      refine ⟨limit, extended, after, ?_, extendedEq, afterEq, by omega⟩
      rw [outcome, repeatExtend, bind_of_ok extendOutcome]

/-- What is reached is read if nothing extends it. -/
theorem Reaches.reads (reaches : Reaches extend production value words rest)
    (stops : ∀ parsed cursor, cursor.words = rest → extend parsed cursor = .ok (none, cursor)) :
    Reads production value words rest := by
  intro cursor facing
  obtain ⟨limit, parsed, middle, outcome, coreEq, middleEq, enough⟩ := reaches cursor facing
  cases limit with
  | zero => exact absurd enough (Nat.not_lt_zero _)
  | succ limit =>
      refine ⟨parsed, middle, ?_, coreEq, middleEq⟩
      rw [outcome, repeatExtend, bind_of_ok (stops parsed middle middleEq)]
      rfl

/-- What is read is the first thing to be extended. -/
theorem Reads.reaches (reads : Reads production value words rest) :
    Reaches extend (production >>= extendAll extend) value words rest := by
  intro cursor facing
  obtain ⟨parsed, middle, outcome, coreEq, middleEq⟩ := reads cursor facing
  refine ⟨middle.ahead.length + 1, parsed, middle, ?_, coreEq, middleEq, Nat.lt_succ_self _⟩
  rw [bind_of_ok outcome]
  rfl

/-- What is read of the words between brackets is read, and the cursor comes to stand behind the closing
bracket. -/
theorem between_brackets {α : Type} {production : Parse α} {holds : α → Prop}
    {opening closing : Token} {cursor : Cursor}
    (facing : cursor.words = opening.word :: words ++ closing.word :: rest)
    (inside : ∀ cursor : Cursor, cursor.words = words ++ closing.word :: rest → ∃ value after,
      production cursor = .ok (value, after) ∧ holds value ∧ after.words = closing.word :: rest)
    (notEnd : opening ≠ .endOfFile ∧ closing ≠ .endOfFile) (nonempty : rest ≠ []) :
    ∃ value after stop, holds value ∧ after.words = rest ∧
      ∀ {β : Type} (next : Pos → α → Pos → Parse β),
        (expect opening >>= fun start => bracketed production >>= fun value =>
          expect closing >>= fun stop => next start value stop) cursor =
            next cursor.current.pos value stop after := by
  have insideFacing := Cursor.words_next facing notEnd.1 (by simp)
  obtain ⟨value, middle, outcome, holdsValue, middleFacing⟩ :=
    inside { cursor.next with level := cursor.next.level + 1 } insideFacing
  -- The cursor inside differs in its level only.
  have leveledFacing : ({ middle with level := middle.level - 1 } : Cursor).words =
      closing.word :: rest := middleFacing
  refine ⟨value, _, middle.current.pos, holdsValue,
    Cursor.words_next leveledFacing notEnd.2 nonempty, fun next => ?_⟩
  have isOpening : cursor.current.token = opening := Cursor.token_of_words facing
  rw [expect_bind isOpening, bracketed_bind outcome]
  exact expect_bind (Cursor.token_of_words leveledFacing) _

/-! ### Operands -/

/-- Whether a token extends an operand. -/
def isExtension : Token → Bool
  | .period | .leftBracket | .leftParen | .leftBrace => true
  | _ => false

variable {word : Word}

theorem extension_stops (noExtension : isExtension word.1 = false) (parsed : Expr) (cursor : Cursor)
    (facing : cursor.words = word :: rest) : extension rules parsed cursor = .ok (none, cursor) := by
  rw [← Cursor.token_of_words facing] at noExtension
  rw [extension, token_bind]
  cases tokenEq : cursor.current.token <;> rw [tokenEq] at noExtension <;>
    first | rfl | cases noExtension

theorem binaryStep_stops {least : Nat} (weak : word.1.precedence < least) (parsed : Expr)
    (cursor : Cursor) (facing : cursor.words = word :: rest) :
    binaryStep rules least parsed cursor = .ok (none, cursor) := by
  rw [← Cursor.token_of_words facing] at weak
  rw [binaryStep, token_bind, if_pos weak]
  rfl

/-- A name or a parenthesis opens an operand. -/
theorem unaryExpr_of_operand {cursor : Cursor}
    (opens : cursor.current.token = .ident ∨ cursor.current.token = .leftParen) :
    unaryExpr rules cursor = (operand rules >>= primaryFrom rules) cursor := by
  rw [unaryExpr, pos_bind, token_bind]
  rcases opens with tokenEq | tokenEq
  · rw [tokenEq]
    rfl
  · rw [tokenEq]
    rfl

/-- Words begin as an operand does. -/
def Opens (words : List Word) : Prop :=
  ∃ first others, words = first :: others ∧ (first.1 = .ident ∨ first.1 = .leftParen)

theorem Opens.append (opens : Opens words) (more : List Word) : Opens (words ++ more) := by
  obtain ⟨first, others, rfl, isFirst⟩ := opens
  exact ⟨first, others ++ more, rfl, isFirst⟩

/-- A cursor at an operand stands at none of the other tokens. -/
theorem Opens.token_ne {cursor : Cursor} {tok : Token} (opens : Opens words)
    (facing : cursor.words = words ++ rest) (other : tok ≠ .ident ∧ tok ≠ .leftParen) :
    cursor.current.token ≠ tok := by
  obtain ⟨first, others, rfl, isFirst⟩ := opens
  rw [Cursor.token_of_words facing]
  rintro rfl
  rcases isFirst with isFirst | isFirst
  · exact other.1 isFirst
  · exact other.2 isFirst

theorem Opens.token {cursor : Cursor} (opens : Opens words) (facing : cursor.words = words ++ rest) :
    cursor.current.token = .ident ∨ cursor.current.token = .leftParen := by
  obtain ⟨first, others, rfl, isFirst⟩ := opens
  rwa [Cursor.token_of_words facing]

/-- What is read as an operand is the first thing to be extended. -/
theorem Reads.reaches_unary (reads : Reads (operand rules) value words rest) (opens : Opens words) :
    Reaches (extension rules) (unaryExpr rules) value words rest := by
  intro cursor facing
  rw [unaryExpr_of_operand (opens.token facing)]
  exact reads.reaches cursor facing

theorem ident_reaches {name : Ident} (nonempty : rest ≠ []) :
    Reaches (extension rules) (unaryExpr rules) (.ident name) [(.ident, name.name)] rest := by
  refine Reads.reaches_unary (fun cursor facing => ?_) ⟨(.ident, name.name), [], rfl, .inl rfl⟩
  have tokenEq : cursor.current.token = .ident := Cursor.token_of_words facing
  have nameEq : cursor.current.text = name.name := Cursor.text_of_words facing
  refine ⟨.ident ⟨cursor.current.span, cursor.current.text⟩, cursor.next, ?_, ?_,
    Cursor.words_next facing (by simp) nonempty⟩
  · rw [operand, token_bind, tokenEq]
    exact ident_bind tokenEq _
  · exact congrArg (fun text => Expr.ident ⟨{}, text⟩) nameEq

/-- An expression in parentheses is read as an operand. -/
theorem parens_reaches {outer : Expr}
    (inner : Reads rules.expr value words (Token.rightParen.word :: rest))
    (coreEq : outer.core = value.core) (nonempty : rest ≠ []) :
    Reaches (extension rules) (unaryExpr rules) outer
      (Token.leftParen.word :: words ++ [Token.rightParen.word]) rest := by
  refine Reads.reaches_unary (fun cursor facing => ?_) ⟨Token.leftParen.word, _, rfl, .inr rfl⟩
  rw [List.append_assoc] at facing
  obtain ⟨parsed, after, stop, parsedEq, afterFacing, outcome⟩ :=
    between_brackets facing inner (by decide) nonempty
  have tokenEq : cursor.current.token = .leftParen := Cursor.token_of_words facing
  refine ⟨.paren ⟨cursor.current.pos, after.prevStop⟩ parsed, after, ?_, ?_, afterFacing⟩
  · rw [operand, token_bind, tokenEq]
    exact outcome _
  · exact parsedEq.trans coreEq.symm

/-! ### Extensions -/

theorem selector_extends {operand : Expr} {sel : Ident} {span : Span} (nonempty : rest ≠ []) :
    ExtendsTo (extension rules) operand (.selector span operand sel)
      [Token.period.word, (.ident, sel.name)] rest := by
  intro parsed coreEq cursor facing
  have tokenEq : cursor.current.token = .period := Cursor.token_of_words facing
  have selFacing := Cursor.words_next facing (by simp) (by simp)
  have selEq : cursor.next.current.token = .ident := Cursor.token_of_words selFacing
  have nameEq : cursor.next.current.text = sel.name := Cursor.text_of_words selFacing
  have outcome : selectorOrAssertion rules parsed cursor.next =
      .ok (.selector ⟨parsed.span.start, cursor.next.current.span.stop⟩ parsed
        ⟨cursor.next.current.span, cursor.next.current.text⟩, cursor.next.next) := by
    rw [selectorOrAssertion, token_bind, selEq]
    exact ident_bind selEq _
  have extended : extension rules parsed cursor =
      .ok (some (.selector ⟨parsed.span.start, cursor.next.current.span.stop⟩ parsed
        ⟨cursor.next.current.span, cursor.next.current.text⟩), cursor.next.next) := by
    rw [extension, token_bind, tokenEq]
    change (advance >>= _) cursor = _
    rw [advance_bind, bind_of_ok outcome]
    rfl
  exact ⟨_, _, extended,
    congrArg₂ (fun operand text => Expr.selector {} operand ⟨{}, text⟩) coreEq nameEq,
    Cursor.words_next selFacing (by simp) nonempty⟩

/-- An index is read between its brackets. -/
theorem index_extends {operand index : Expr} {span : Span} (opens : Opens words)
    (reads : Reads rules.expr index words (Token.rightBracket.word :: rest)) (nonempty : rest ≠ []) :
    ExtendsTo (extension rules) operand (.index span operand index)
      (Token.leftBracket.word :: words ++ [Token.rightBracket.word]) rest := by
  intro parsed coreEq cursor facing
  rw [List.append_assoc] at facing
  have single : ∀ cursor : Cursor, cursor.words = words ++ Token.rightBracket.word :: rest →
      ∃ parts after, indices rules cursor = .ok (parts, after) ∧
        (∃ parsed : Expr, parts = { first := some parsed } ∧ parsed.core = index.core) ∧
          after.words = Token.rightBracket.word :: rest := by
    intro cursor facing
    obtain ⟨parsed, after, outcome, parsedEq, afterFacing⟩ := reads cursor facing
    have notColon : after.current.token ≠ .colon := by
      rw [Cursor.token_of_words afterFacing]
      simp
    refine ⟨{ first := some parsed }, after, ?_, ⟨parsed, rfl, parsedEq⟩, afterFacing⟩
    rw [indices, token_bind, if_neg (opens.token_ne facing (by decide)),
      bind_of_ok (map_eq_ok.mpr ⟨parsed, outcome, rfl⟩)]
    change (accept .colon >>= _) after = _
    rw [accept_bind_of_ne notColon]
    rfl
  obtain ⟨parts, after, stop, isSingle, afterFacing, outcome⟩ :=
    between_brackets facing single (by decide) nonempty
  obtain ⟨parsedIndex, rfl, parsedEq⟩ := isSingle
  have tokenEq : cursor.current.token = .leftBracket := Cursor.token_of_words facing
  have indexOutcome : indexOrSlice rules parsed cursor =
      .ok (.index ⟨parsed.span.start, after.prevStop⟩ parsed parsedIndex, after) := by
    rw [indexOrSlice]
    exact outcome _
  have extended : extension rules parsed cursor =
      .ok (some (.index ⟨parsed.span.start, after.prevStop⟩ parsed parsedIndex), after) := by
    rw [extension, token_bind, tokenEq]
    change (indexOrSlice rules parsed >>= _) cursor = _
    rw [bind_of_ok indexOutcome]
    rfl
  exact ⟨_, after, extended, congrArg₂ (Expr.index {}) coreEq parsedEq, afterFacing⟩

/-- An argument, with whether it is followed by dots. -/
def argument (rules : Rules) : Parse (Expr × Bool) := do
  let arg ← rules.expr
  return (arg, ← accept .ellipsis)

/-- Arguments are read one after the other. -/
theorem arguments_read {args : List Expr} (opens : ∀ arg ∈ args, Opens (arg.words 0))
    (each : ∀ arg ∈ args, ∀ word rest, word.1 = .comma ∨ word.1 = .rightParen →
      Reads rules.expr arg (arg.words 0) (word :: rest)) (limit : Nat) (cursor : Cursor)
    (facing : cursor.words =
      [Token.comma.word].intercalate (Expr.wordsOfAll args) ++ Token.rightParen.word :: rest)
    (enough : cursor.ahead.length < limit) :
    ∃ items middle, repeatUntil .rightParen (argument rules) limit cursor = .ok (items, middle) ∧
      Expr.coreAll (items.map (·.1)) = Expr.coreAll args ∧ items.any (·.2) = false ∧
      middle.words = Token.rightParen.word :: rest := by
  induction args generalizing limit cursor with
  | nil =>
      have tokenEq : cursor.current.token = .rightParen := Cursor.token_of_words facing
      cases limit with
      | zero => exact absurd enough (Nat.not_lt_zero _)
      | succ limit =>
          refine ⟨[], cursor, ?_, rfl, rfl, facing⟩
          rw [repeatUntil, token_bind, if_pos (by simp [tokenEq])]
          rfl
  | cons arg args ih =>
      have readArg : ∀ {cursor : Cursor} {word : Word} {more : List Word},
          word.1 = .comma ∨ word.1 = .rightParen → cursor.words = arg.words 0 ++ word :: more →
          ∃ parsed middle, argument rules cursor = .ok ((parsed, false), middle) ∧
            parsed.core = arg.core ∧ middle.words = word :: more := by
        intro cursor word more isClosing facing
        obtain ⟨parsed, middle, outcome, coreEq, middleFacing⟩ :=
          each arg List.mem_cons_self word more isClosing cursor facing
        refine ⟨parsed, middle, ?_, coreEq, middleFacing⟩
        have notDots : middle.current.token ≠ .ellipsis := by
          rw [Cursor.token_of_words middleFacing]
          rcases isClosing with isClosing | isClosing <;> rw [isClosing] <;> decide
        rw [argument, bind_of_ok outcome, accept_bind_of_ne notDots]
        rfl
      have opensArg := opens arg List.mem_cons_self
      cases limit with
      | zero => exact absurd enough (Nat.not_lt_zero _)
      | succ limit =>
          cases args with
          | nil =>
              have facing : cursor.words = arg.words 0 ++ Token.rightParen.word :: rest := by
                simpa [Expr.wordsOfAll] using facing
              obtain ⟨parsed, middle, outcome, coreEq, middleFacing⟩ := readArg (.inr rfl) facing
              have notComma : middle.current.token ≠ .comma := by
                rw [Cursor.token_of_words middleFacing]
                decide
              refine ⟨[(parsed, false)], middle, ?_, ?_, rfl, middleFacing⟩
              · rw [repeatUntil, token_bind, if_neg, bind_of_ok outcome, accept_bind_of_ne notComma]
                · rfl
                · simp [opensArg.token_ne facing (by decide : Token.rightParen ≠ _ ∧ _),
                    opensArg.token_ne facing (by decide : Token.endOfFile ≠ _ ∧ _)]
              · exact congrArg (· :: []) coreEq
          | cons next args =>
              have facing : cursor.words = arg.words 0 ++ Token.comma.word ::
                  ([Token.comma.word].intercalate (Expr.wordsOfAll (next :: args)) ++
                    Token.rightParen.word :: rest) := by
                simpa [Expr.wordsOfAll, List.intercalate_cons_cons] using facing
              obtain ⟨parsed, middle, outcome, coreEq, middleFacing⟩ := readArg (.inl rfl) facing
              have nextFacing := Cursor.words_next middleFacing (by simp) (by simp)
              have cursorLength := cursor.length_words
              have nextLength := middle.next.length_words
              rw [facing] at cursorLength
              rw [nextFacing] at nextLength
              simp only [List.length_append, List.length_cons] at cursorLength nextLength
              obtain ⟨items, after, others, coresEq, noSpread, afterFacing⟩ :=
                ih (fun arg isArg => opens arg (List.mem_cons_of_mem _ isArg))
                  (fun arg isArg => each arg (List.mem_cons_of_mem _ isArg)) limit middle.next
                  nextFacing (by omega)
              refine ⟨(parsed, false) :: items, after, ?_, ?_, by simpa using noSpread, afterFacing⟩
              · have isComma : middle.current.token = .comma := Cursor.token_of_words middleFacing
                rw [repeatUntil, token_bind, if_neg, bind_of_ok outcome, accept_bind isComma]
                · change (repeatUntil _ _ _ >>= _) _ = _
                  rw [bind_of_ok others]
                  rfl
                · simp [opensArg.token_ne facing (by decide : Token.rightParen ≠ _ ∧ _),
                    opensArg.token_ne facing (by decide : Token.endOfFile ≠ _ ∧ _)]
              · exact congrArg₂ List.cons coreEq coresEq

/-- A call is read with its arguments. -/
theorem call_extends {callee : Expr} {args : List Expr} {span : Span}
    (opens : ∀ arg ∈ args, Opens (arg.words 0))
    (each : ∀ arg ∈ args, ∀ word rest, word.1 = .comma ∨ word.1 = .rightParen →
      Reads rules.expr arg (arg.words 0) (word :: rest)) (nonempty : rest ≠ []) :
    ExtendsTo (extension rules) callee (.call span callee args false)
      (Token.leftParen.word :: [Token.comma.word].intercalate (Expr.wordsOfAll args) ++
        [Token.rightParen.word]) rest := by
  intro parsed coreEq cursor facing
  rw [List.append_assoc] at facing
  have listed : ∀ cursor : Cursor, cursor.words =
      [Token.comma.word].intercalate (Expr.wordsOfAll args) ++ Token.rightParen.word :: rest →
      ∃ items after, listUntil .rightParen (argument rules) cursor = .ok (items, after) ∧
        (Expr.coreAll (items.map (·.1)) = Expr.coreAll args ∧ items.any (·.2) = false) ∧
          after.words = Token.rightParen.word :: rest := by
    intro cursor facing
    obtain ⟨items, after, outcome, coresEq, noSpread, afterFacing⟩ :=
      arguments_read opens each (cursor.ahead.length + 1) cursor facing (Nat.lt_succ_self _)
    exact ⟨items, after, outcome, ⟨coresEq, noSpread⟩, afterFacing⟩
  obtain ⟨items, after, stop, isRead, afterFacing, outcome⟩ :=
    between_brackets facing listed (by decide) nonempty
  obtain ⟨coresEq, noSpread⟩ := isRead
  have tokenEq : cursor.current.token = .leftParen := Cursor.token_of_words facing
  have callOutcome : call rules parsed cursor =
      .ok (.call ⟨parsed.span.start, after.prevStop⟩ parsed (items.map (·.1)) (items.any (·.2)),
        after) := by
    rw [call]
    exact outcome _
  have extended : extension rules parsed cursor =
      .ok (some (.call ⟨parsed.span.start, after.prevStop⟩ parsed (items.map (·.1))
        (items.any (·.2))), after) := by
    rw [extension, token_bind, tokenEq]
    change (call rules parsed >>= _) cursor = _
    rw [bind_of_ok callOutcome]
    rfl
  refine ⟨_, after, extended, ?_, afterFacing⟩
  rw [noSpread]
  exact congrArg₂ (Expr.call {} · · false) coreEq coresEq

end Parse

open Parse
open Piece (startsWord)

namespace Expr

/-! ### Reading plain expressions -/

variable {value left right inner operand index callee : Expr} {args : List Expr} {op : Token}
  {sel : Ident} {span : Span}

/-- An expression is a binary operator that needs no parentheses where operators of at least the given
precedence stand. -/
def IsBare (least : Nat) : Expr → Prop
  | .binary _ _ op _ => least ≤ op.precedence
  | _ => False

/-- No operator is as strong as a place behind which extensions stand. -/
theorem not_isBare_highestPrec (value : Expr) : ¬value.IsBare Layout.highestPrec := by
  cases value with
  | binary span left op right =>
      intro strong
      have weak := op.precedence_le
      exact absurd (Nat.le_trans strong weak) (by decide)
  | _ => exact id

/-- Where an expression is no bare operator, its words are read as an operand. -/
def ReadsAlone (value : Expr) : Prop :=
  ∀ ⦃depth least rest⦄, (value.words least).length ≤ depth → ¬value.IsBare least → rest ≠ [] →
    Reaches (extension (Rules.ofDepth depth)) (unaryExpr (Rules.ofDepth depth)) value
      (value.words least) rest

/-- The words of an expression are read on the left of a word that extends no operand and is no
stronger operator than the place of the expression calls for. -/
def ReadsAmong (value : Expr) : Prop :=
  ∀ ⦃depth least lower word rest⦄, (value.words least).length ≤ depth → 1 ≤ lower → lower ≤ least →
    isExtension word.1 = false → word.1.precedence ≤ least →
    Reaches (binaryStep (Rules.ofDepth depth) lower) (binaryExpr (Rules.ofDepth depth) lower) value
      (value.words least) (word :: rest)

theorem ReadsAlone.among (alone : value.ReadsAlone) {depth least lower : Nat} {word : Word}
    {rest : List Word} (enough : (value.words least).length ≤ depth) (notBare : ¬value.IsBare least)
    (noExtension : isExtension word.1 = false) :
    Reaches (binaryStep (Rules.ofDepth depth) lower) (binaryExpr (Rules.ofDepth depth) lower) value
      (value.words least) (word :: rest) :=
  ((alone enough notBare (List.cons_ne_nil _ _)).reads (extension_stops noExtension)).reaches

/-- No operator needs parentheses where any expression stands. -/
theorem IsPlain.words_zero (plain : value.IsPlain) : value.words 0 = value.words 1 := by
  cases plain with
  | @binary span left right op isBinary =>
      have notWeaker : ¬op.precedence < 1 := Nat.not_lt.mpr isBinary
      simp [words, notWeaker]
  | _ => rfl

/-- An expression is read in front of a closing bracket or a comma. -/
theorem IsPlain.reads_expr (plain : value.IsPlain) (among : value.ReadsAmong) {depth : Nat}
    (enough : (value.words 0).length ≤ depth) {word : Word} (noExtension : isExtension word.1 = false)
    (weak : word.1.precedence = 0) (rest : List Word) :
    Parse.Reads (Rules.ofDepth (depth + 1)).expr value (value.words 0) (word :: rest) := by
  rw [plain.words_zero] at enough ⊢
  exact (among enough (Nat.le_refl 1) (Nat.le_refl 1) noExtension (by omega)).reads
    (binaryStep_stops (by omega))

theorem opens_wordsInParens {words : List Word} (opens : Opens words) (needed : Bool) :
    Opens (wordsInParens needed words) := by
  cases needed with
  | false => exact opens
  | true => exact ⟨_, _, rfl, .inr rfl⟩

theorem IsPlain.opens (plain : value.IsPlain) (least : Nat) : Opens (value.words least) := by
  induction plain generalizing least with
  | ident => exact ⟨_, _, rfl, .inl rfl⟩
  | binary _ _ _ ihLeft => exact opens_wordsInParens ((ihLeft _).append _) _
  | paren _ ih => exact opens_wordsInParens (ih 0) _
  | selector _ _ ih => exact (ih _).append _
  | index _ _ ih =>
      rw [words, List.append_assoc]
      exact (ih _).append _
  | call _ _ ih =>
      rw [words, List.append_assoc]
      exact (ih _).append _

/-- An operator that needs no parentheses is read with its operands. -/
theorem readsAmong_bare (readsLeft : left.ReadsAmong) (readsRight : right.ReadsAmong)
    (isBinary : 0 < op.precedence) {depth lower : Nat} {word : Word} {rest : List Word}
    (enough : (left.words op.precedence ++ op.word :: right.words (op.precedence + 1)).length ≤ depth)
    (lower_pos : 1 ≤ lower) (lower_le : lower ≤ op.precedence)
    (noExtension : isExtension word.1 = false) (weak : word.1.precedence ≤ op.precedence) :
    Reaches (binaryStep (Rules.ofDepth depth) lower) (binaryExpr (Rules.ofDepth depth) lower)
      (.binary span left op right)
      (left.words op.precedence ++ op.word :: right.words (op.precedence + 1)) (word :: rest) := by
  have opStays : isExtension op = false ∧ op ≠ .endOfFile := by
    revert isBinary
    cases op <;> decide
  rw [List.length_append, List.length_cons] at enough
  obtain ⟨depth, rfl⟩ := Nat.exists_eq_add_of_le' (Nat.le_trans (by omega : 1 ≤ _) enough)
  have reachesLeft := @readsLeft (depth + 1) op.precedence lower op.word
    (right.words (op.precedence + 1) ++ word :: rest) (by omega) lower_pos lower_le opStays.1
    (Nat.le_refl _)
  refine reachesLeft.step ?_ (List.cons_ne_nil _ _)
  intro parsed coreEq cursor facing
  have tokenEq : cursor.current.token = op := Cursor.token_of_words facing
  have rightFacing := Cursor.words_next facing opStays.2 (by simp)
  have readRight := (@readsRight depth (op.precedence + 1) (op.precedence + 1) word rest (by omega)
    (Nat.succ_pos _) (Nat.le_refl _) noExtension (by omega)).reads
      (binaryStep_stops (Nat.lt_succ_of_le weak))
  obtain ⟨parsedRight, after, outcome, rightEq, afterFacing⟩ := readRight cursor.next rightFacing
  refine ⟨.binary ⟨parsed.span.start, parsedRight.span.stop⟩ parsed op parsedRight, after, ?_, ?_,
    afterFacing⟩
  · rw [binaryStep, token_bind, tokenEq, if_neg (Nat.not_lt.mpr lower_le), advance_bind]
    exact bind_of_ok outcome _
  · exact congrArg₂ (Expr.binary {} · op ·) coreEq rightEq

/-- An operator in parentheses is read as an operand. -/
theorem reads_binary (readsLeft : left.ReadsAmong) (readsRight : right.ReadsAmong)
    (isBinary : 0 < op.precedence) :
    (Expr.binary span left op right).ReadsAlone ∧ (Expr.binary span left op right).ReadsAmong := by
  have alone : (Expr.binary span left op right).ReadsAlone := by
    intro depth least rest enough notBare nonempty
    have needed : op.precedence < least := Nat.not_le.mp notBare
    rw [words, wordsInParens, decide_eq_true needed, if_pos rfl] at enough ⊢
    simp only [List.cons_append, List.length_cons, List.length_append, List.length_nil] at enough
    obtain ⟨depth, rfl⟩ := Nat.exists_eq_add_of_le' (Nat.le_trans (by omega : 1 ≤ _) enough)
    have bare : Reaches (binaryStep (Rules.ofDepth depth) 1) (binaryExpr (Rules.ofDepth depth) 1)
        (.binary span left op right)
        (left.words op.precedence ++ op.word :: right.words (op.precedence + 1))
        (Token.rightParen.word :: rest) :=
      readsAmong_bare readsLeft readsRight isBinary (by simp; omega) (Nat.le_refl 1) isBinary rfl
        (Nat.zero_le _)
    exact parens_reaches (bare.reads (binaryStep_stops Nat.one_pos)) rfl nonempty
  refine ⟨alone, fun depth least lower word rest enough lower_pos lower_le noExtension weak => ?_⟩
  by_cases bare : least ≤ op.precedence
  · have notNeeded : ¬op.precedence < least := Nat.not_lt.mpr bare
    rw [words, wordsInParens, decide_eq_false notNeeded, if_neg Bool.false_ne_true] at enough ⊢
    exact readsAmong_bare readsLeft readsRight isBinary enough lower_pos (lower_le.trans bare)
      noExtension (weak.trans bare)
  · exact alone.among enough bare noExtension

theorem readsAlone_paren (plain : inner.IsPlain) (alone : inner.ReadsAlone)
    (among : inner.ReadsAmong) : (Expr.paren span inner).ReadsAlone := by
  intro depth least rest enough _ nonempty
  by_cases doubled : Layout.isParen inner
  · rw [words, doubled] at enough ⊢
    have notBare : ¬inner.IsBare 0 := by
      cases inner with
      | paren => exact id
      | _ => cases doubled
    intro cursor facing
    obtain ⟨limit, parsed, middle, reached⟩ := alone enough notBare nonempty cursor facing
    exact ⟨limit, parsed, middle, reached⟩
  · rw [words, Bool.not_eq_true _ |>.mp doubled] at enough ⊢
    change (Token.leftParen.word :: inner.words 0 ++ [Token.rightParen.word]).length ≤ depth at enough
    simp only [List.cons_append, List.length_cons, List.length_append, List.length_nil] at enough
    obtain ⟨depth, rfl⟩ := Nat.exists_eq_add_of_le' (Nat.le_trans (by omega : 1 ≤ _) enough)
    exact parens_reaches (plain.reads_expr among (by omega) rfl rfl rest) rfl nonempty

theorem readsAlone_selector (alone : operand.ReadsAlone) :
    (Expr.selector span operand sel).ReadsAlone := by
  intro depth least rest enough _ nonempty
  rw [words, List.length_append] at enough
  exact (alone (Nat.le_trans (Nat.le_add_right _ _) enough) operand.not_isBare_highestPrec
    (by simp)).step (selector_extends nonempty) (List.cons_ne_nil _ _)

theorem readsAlone_index (alone : operand.ReadsAlone) (plain : index.IsPlain)
    (among : index.ReadsAmong) : (Expr.index span operand index).ReadsAlone := by
  intro depth least rest enough _ nonempty
  rw [words, List.append_assoc, List.cons_append] at enough ⊢
  simp only [List.length_append, List.length_cons, List.length_nil] at enough
  obtain ⟨depth, rfl⟩ := Nat.exists_eq_add_of_le' (Nat.le_trans (by omega : 1 ≤ _) enough)
  exact (alone (by omega) operand.not_isBare_highestPrec (by simp)).step
    (index_extends (plain.opens 0) (plain.reads_expr among (by omega) rfl rfl rest) nonempty)
    (List.cons_ne_nil _ _)

/-- The words of an argument are among those of the call. -/
theorem length_words_le {arg : Expr} (isArg : arg ∈ args) :
    (arg.words 0).length ≤ ([Token.comma.word].intercalate (wordsOfAll args)).length := by
  induction args with
  | nil => cases isArg
  | cons first args ih =>
      cases args with
      | nil =>
          obtain rfl := List.mem_singleton.mp isArg
          simp [wordsOfAll]
      | cons second args =>
          rw [wordsOfAll, wordsOfAll, List.intercalate_cons_cons, List.length_append,
            List.length_append]
          rcases List.mem_cons.mp isArg with rfl | isLater
          · omega
          · have le := ih isLater
            rw [wordsOfAll] at le
            omega

theorem readsAlone_call (alone : callee.ReadsAlone) (plain : ∀ arg ∈ args, arg.IsPlain)
    (among : ∀ arg ∈ args, arg.ReadsAmong) : (Expr.call span callee args false).ReadsAlone := by
  intro depth least rest enough _ nonempty
  rw [words, List.append_assoc, List.cons_append] at enough ⊢
  simp only [List.length_append, List.length_cons, List.length_nil] at enough
  obtain ⟨depth, rfl⟩ := Nat.exists_eq_add_of_le' (Nat.le_trans (by omega : 1 ≤ _) enough)
  refine (alone (by omega) callee.not_isBare_highestPrec (by simp)).step
    (call_extends (fun arg isArg => (plain arg isArg).opens 0)
      (fun arg isArg word others isClosing => ?_) nonempty) (List.cons_ne_nil _ _)
  have le := length_words_le isArg
  refine (plain arg isArg).reads_expr (among arg isArg) (by omega) ?_ ?_ others
  · rcases isClosing with isClosing | isClosing <;> rw [isClosing] <;> rfl
  · rcases isClosing with isClosing | isClosing <;> rw [isClosing] <;> rfl

theorem IsPlain.reads (plain : value.IsPlain) : value.ReadsAlone ∧ value.ReadsAmong := by
  have both : ∀ {value : Expr}, (∀ least, ¬value.IsBare least) → value.ReadsAlone →
      value.ReadsAlone ∧ value.ReadsAmong := fun neverBare alone =>
    ⟨alone, fun _ least _ _ _ enough _ _ noExtension _ =>
      alone.among enough (neverBare least) noExtension⟩
  induction plain with
  | ident => exact both (fun _ => id) fun _ _ _ _ _ nonempty => ident_reaches nonempty
  | binary isBinary _ _ ihLeft ihRight => exact reads_binary ihLeft.2 ihRight.2 isBinary
  | paren plain ih => exact both (fun _ => id) (readsAlone_paren plain ih.1 ih.2)
  | selector _ _ ih => exact both (fun _ => id) (readsAlone_selector ih.1)
  | index _ plain ihOperand ihIndex =>
      exact both (fun _ => id) (readsAlone_index ihOperand.1 plain ihIndex.2)
  | call _ plain ihCallee ihArgs =>
      exact both (fun _ => id)
        (readsAlone_call ihCallee.1 plain fun arg isArg => (ihArgs arg isArg).2)

end Expr

/-! ### Printing and reading -/

/-- Read a text as an expression, as far as one begins it.  The cursor stands after the expression. -/
def Expr.ofText (base : Nat) (text : String) : Except Fault (Expr × Cursor) :=
  match Scan.ofText base text with
  | .error fault => .error fault
  | .ok scan =>
      match scan.lexemes with
      | [] => .error ⟨.nestedTooDeeply, base⟩
      | first :: rest =>
          (Rules.ofDepth (File.unrollDepth scan.lexemes.length)).expr
            { current := first, ahead := rest, prevStop := base }

/-- Parentheses stand where they belong: an expression of names, binary operators, parentheses,
selectors, indices and calls, in any nesting, is printed as a text that is read as the same expression
up to positions and parentheses.  Nothing is left of the text but the end of its line. -/
theorem Expr.print_reads_back {value : Expr} (plain : value.IsPlain) (base : Nat) :
    ∃ text parsed after, (Node.expr value).print = .ok text ∧
      ofText base text = .ok (parsed, after) ∧ parsed.core = value.core ∧
      after.lexemes.map Lexeme.word = [(.semicolon, "\n"), (.endOfFile, "")] := by
  obtain ⟨text, printed, scan, scanned, lexemesEq⟩ := plain.print_scans base
  cases lexemes : scan.lexemes with
  | nil => simp [lexemes] at lexemesEq
  | cons first rest =>
      have lengthEq : scan.lexemes.length = (value.words 0).length + 2 := by
        rw [← List.length_map Lexeme.word, lexemesEq, List.length_append]
        rfl
      rw [lexemes] at lexemesEq
      obtain ⟨depth, depthEq⟩ : ∃ depth, File.unrollDepth scan.lexemes.length = depth + 1 :=
        Nat.exists_eq_add_of_le' (by unfold File.unrollDepth; omega)
      have enough : (value.words 0).length ≤ depth := by
        unfold File.unrollDepth at depthEq
        omega
      have closes : isExtension ((.semicolon, "\n") : Word).1 = false := rfl
      obtain ⟨parsed, after, outcome, coreEq, afterEq⟩ :=
        plain.reads_expr plain.reads.2 enough closes rfl [(.endOfFile, "")]
          { current := first, ahead := rest, prevStop := base } lexemesEq
      refine ⟨text, parsed, after, printed, ?_, coreEq, afterEq⟩
      rw [ofText, scanned]
      simp only [lexemes]
      rw [← lexemes, depthEq]
      exact outcome

/-- A name of one letter. -/
def Expr.letter (char : Char) : Expr :=
  .ident ⟨{}, char.toString⟩

/-- A sum as the left operand and the callee of a product, with a call behind it. -/
def Expr.sumTimesCall : Expr :=
  .binary {} (.binary {} (letter 'a') .add (letter 'b')) .mul
    (.call {} (.binary {} (letter 'f') .sub (.selector {} (letter 'g') ⟨{}, "h"⟩))
      [letter 'c', .index {} (letter 'd') (letter 'e')] false)

theorem Expr.print_reads_back_sample :
    (Node.expr sumTimesCall).print = .ok "(a + b) * (f-g.h)(c, d[e])" ∧ sumTimesCall.IsPlain ∧
      ∃ text parsed after, (Node.expr sumTimesCall).print = .ok text ∧
        ofText 1 text = .ok (parsed, after) ∧ parsed.core = sumTimesCall.core ∧
        after.lexemes.map Lexeme.word = [(.semicolon, "\n"), (.endOfFile, "")] := by
  have letters : "abcdefgh".toList.all fun char =>
      startsWord char ∧ Token.keyword? char.toString = none := by
    decide
  have isWord : ∀ char ∈ "abcdefgh".toList, Ident.IsWord ⟨{}, char.toString⟩ := by
    intro char isChar
    have starts := of_decide_eq_true (List.all_eq_true.mp letters char isChar)
    exact ⟨⟨char, [], by simp [Char.toString], starts.1, by simp⟩, starts.2⟩
  have plain : sumTimesCall.IsPlain := by
    refine .binary (by decide) (.binary (by decide) (.ident (isWord 'a' (by decide)))
      (.ident (isWord 'b' (by decide)))) (.call (.binary (by decide) (.ident (isWord 'f' (by decide)))
        (.selector (.ident (isWord 'g' (by decide))) (isWord 'h' (by decide)))) ?_)
    simp only [List.forall_mem_cons, List.not_mem_nil, false_implies, implies_true, and_true]
    exact ⟨.ident (isWord 'c' (by decide)), .index (.ident (isWord 'd' (by decide)))
      (.ident (isWord 'e' (by decide)))⟩
  exact ⟨rfl, plain, print_reads_back plain 1⟩

end GoMend
