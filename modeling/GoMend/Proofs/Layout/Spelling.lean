import GoMend.Layout.Render
import GoMend.Proofs.Lexeme.Spelling

/-!
# How printed expressions are spelled

An expression of names, binary operators, parentheses, selectors, indices and calls is printed as a
text that is scanned to a list of words, which is computed from the tree.  Parentheses stand where an
operator is weaker than its place calls for.  Blanks depend on the depth and on the cutoff, but they
divide no word, and where they are missing the words keep apart by themselves.
-/

namespace GoMend

open Piece (startsWord continuesWord)

/-! ### Plain expressions -/

/-- A name that a source file can write: a word that is no keyword. -/
structure Ident.IsWord (name : Ident) : Prop where
  begins : ∃ first rest, name.name.toList = first :: rest ∧ startsWord first ∧
    ∀ char ∈ rest, continuesWord char
  notKeyword : Token.keyword? name.name = none

/-- An expression that is built, in any nesting, from names, binary operators, parentheses, selectors,
indices and calls without a spread argument. -/
inductive Expr.IsPlain : Expr → Prop where
  | ident {name : Ident} (isWord : name.IsWord) : IsPlain (.ident name)
  | binary {span : Span} {left right : Expr} {op : Token} (isBinary : 0 < op.precedence)
      (leftPlain : left.IsPlain) (rightPlain : right.IsPlain) : IsPlain (.binary span left op right)
  | paren {span : Span} {inner : Expr} (innerPlain : inner.IsPlain) : IsPlain (.paren span inner)
  | selector {span : Span} {operand : Expr} {sel : Ident} (operandPlain : operand.IsPlain)
      (isWord : sel.IsWord) : IsPlain (.selector span operand sel)
  | index {span : Span} {operand index : Expr} (operandPlain : operand.IsPlain)
      (indexPlain : index.IsPlain) : IsPlain (.index span operand index)
  | call {span : Span} {callee : Expr} {args : List Expr} (calleePlain : callee.IsPlain)
      (argsPlain : ∀ arg ∈ args, arg.IsPlain) : IsPlain (.call span callee args false)

/-- Words in parentheses, if they are needed. -/
def wordsInParens (needed : Bool) (words : List Word) : List Word :=
  if needed then Token.leftParen.word :: words ++ [Token.rightParen.word] else words

mutual

/-- The words of a plain expression that stands where operators of at least the given precedence need
no parentheses. -/
def Expr.words (least : Nat) : Expr → List Word
  | .ident name => [(.ident, name.name)]
  | .binary _ left op right =>
      wordsInParens (op.precedence < least)
        (left.words op.precedence ++ op.word :: right.words (op.precedence + 1))
  | .paren _ inner => wordsInParens (!Layout.isParen inner) (inner.words 0)
  | .selector _ operand sel =>
      operand.words Layout.highestPrec ++ [Token.period.word, (.ident, sel.name)]
  | .index _ operand inner =>
      operand.words Layout.highestPrec ++
        Token.leftBracket.word :: inner.words 0 ++ [Token.rightBracket.word]
  | .call _ callee args _ =>
      callee.words Layout.highestPrec ++
        Token.leftParen.word :: [Token.comma.word].intercalate (Expr.wordsOfAll args) ++
          [Token.rightParen.word]
  | _ => []
termination_by structural value => value

/-- The words of expressions one after the other. -/
def Expr.wordsOfAll : List Expr → List (List Word)
  | [] => []
  | value :: rest => value.words 0 :: Expr.wordsOfAll rest
termination_by structural values => values

end

/-- The last word of words can end a statement. -/
def EndsStatement (words : List Word) : Prop :=
  ∃ before word, words = before ++ [word] ∧ word.1.endsStatement

theorem EndsStatement.append {words : List Word} (ends : EndsStatement words) (before : List Word) :
    EndsStatement (before ++ words) := by
  obtain ⟨middle, word, rfl, isEnd⟩ := ends
  exact ⟨before ++ middle, word, (List.append_assoc ..).symm, isEnd⟩

theorem EndsStatement.inParens {words : List Word} (ends : EndsStatement words) (needed : Bool) :
    EndsStatement (wordsInParens needed words) := by
  cases needed with
  | false => exact ends
  | true => exact ⟨Token.leftParen.word :: words, Token.rightParen.word, rfl, rfl⟩

/-- A line end behind a plain expression ends a statement. -/
theorem Expr.IsPlain.endsStatement {value : Expr} (plain : value.IsPlain) (least : Nat) :
    EndsStatement (value.words least) := by
  induction plain generalizing least with
  | @ident name => exact ⟨[], (.ident, name.name), rfl, rfl⟩
  | binary _ _ _ _ ihRight =>
      rw [words]
      exact ((((ihRight _).append [_]).append _)).inParens _
  | paren _ ih =>
      rw [words]
      exact (ih 0).inParens _
  | @selector _ operand sel =>
      rw [words]
      exact ⟨operand.words Layout.highestPrec ++ [Token.period.word], (.ident, sel.name), by simp, rfl⟩
  | index =>
      rw [words]
      exact ⟨_, Token.rightBracket.word, rfl, rfl⟩
  | call =>
      rw [words]
      exact ⟨_, Token.rightParen.word, rfl, rfl⟩

namespace Layout

/-! ### Texts of plain expressions -/

/-- A text begins like an operand and puts words before whatever follows that goes on no word. -/
structure Puts (words : List Word) (text : String) : Prop where
  begins : ∃ first ∈ text.toList.head?, first = '(' ∨ startsWord first
  spelled : ∀ {more later}, (∀ char ∈ more.head?, continuesWord char = false) → Spelled more later →
    Spelled (text.toList ++ more) (words ++ later)

theorem not_continues_of_sign (sign : Char) (isSign : sign ∈ Piece.signs) :
    continuesWord sign = false := by
  have checked : Piece.signs.all fun sign => !continuesWord sign := by decide
  simpa using List.all_eq_true.mp checked sign isSign

namespace Puts

variable {words others : List Word} {text other : String}

/-- A text in front of which an operator can stand. -/
theorem apart (puts : Puts words text) (more : List Char) :
    ∀ char ∈ (text.toList ++ more).head?, Piece.isApart char := by
  obtain ⟨first, isFirst, opens⟩ := puts.begins
  intro char isHead
  rw [List.head?_append, Option.mem_def.mp isFirst] at isHead
  obtain rfl := Option.some.inj isHead
  rcases opens with rfl | starts
  · rfl
  · exact Piece.isApart_of_startsWord starts

theorem ident {name : Ident} (isWord : name.IsWord) : Puts [(.ident, name.name)] name.name := by
  obtain ⟨first, rest, textEq, starts, goesOn⟩ := isWord.begins
  refine ⟨⟨first, by rw [textEq]; rfl, .inr starts⟩, fun ends later => ?_⟩
  have read := Piece.read_word starts goesOn ends
  have nameEq : name.name = String.ofList (first :: rest) := by
    rw [← textEq, String.ofList_toList]
  rw [Piece.word, ← nameEq, isWord.notKeyword] at read
  rw [textEq, nameEq]
  exact .word read later

end Puts

/-! #### Signs in front of what follows -/

section Signs

variable {more : List Char} {later : List Word}

theorem spelled_bracket (token : Token) (isBracket : Piece.isBracket token)
    (spelled : Spelled more later) : Spelled (token.text.toList ++ more) (token.word :: later) := by
  obtain ⟨sign, textEq, -, read⟩ := Piece.read_bracket isBracket more
  have wordEq : token.word = (token, String.ofList [sign]) := by
    rw [Token.word, ← textEq, String.ofList_toList]
  rw [textEq, wordEq]
  exact @Spelled.word sign [] more token later read spelled

/-- No word goes on with a bracket. -/
theorem ends_of_bracket (token : Token) (isBracket : Piece.isBracket token) (more : List Char) :
    ∀ char ∈ (token.text.toList ++ more).head?, continuesWord char = false := by
  obtain ⟨sign, textEq, isSign, -⟩ := Piece.read_bracket isBracket more
  intro char isHead
  rw [textEq] at isHead
  obtain rfl := Option.some.inj isHead
  exact not_continues_of_sign _ isSign

/-- What may divide two words: nothing or a blank. -/
def IsBlank (text : String) : Prop :=
  text = "" ∨ text = " "

theorem IsBlank.spelled {blank : String} (isBlank : IsBlank blank) (spelled : Spelled more later) :
    Spelled (blank.toList ++ more) later := by
  rcases isBlank with rfl | rfl
  · exact spelled
  · exact .blank spelled

/-- What is true of a blank and of what follows is true of the first of the two. -/
theorem IsBlank.head {blank : String} (isBlank : IsBlank blank) {holds : Char → Bool} {value : Bool}
    (atBlank : holds ' ' = value) (atHead : ∀ char ∈ more.head?, holds char = value) :
    ∀ char ∈ (blank.toList ++ more).head?, holds char = value := by
  rcases isBlank with rfl | rfl
  · exact atHead
  · intro char isHead
    obtain rfl := Option.some.inj isHead
    exact atBlank

/-- A binary operator in front of an operand. -/
theorem spelled_binary {op : Token} (isBinary : 0 < op.precedence)
    (apart : ∀ char ∈ more.head?, Piece.isApart char) (spelled : Spelled more later) :
    Spelled (op.text.toList ++ more) (op.word :: later) ∧
      ∀ char ∈ (op.text.toList ++ more).head?, continuesWord char = false := by
  obtain ⟨first, others, textEq, isSign, read⟩ := Piece.read_binary isBinary apart
  have wordEq : op.word = (op, String.ofList (first :: others)) := by
    rw [Token.word, ← textEq, String.ofList_toList]
  rw [textEq, wordEq]
  refine ⟨.word read spelled, fun char isHead => ?_⟩
  obtain rfl := Option.some.inj isHead
  exact not_continues_of_sign _ isSign

end Signs

namespace Puts

variable {words others : List Word} {text other : String}

/-- A text that begins with another one begins like it. -/
theorem begins_append (puts : Puts words text) (behind : String) :
    ∃ first ∈ (text ++ behind).toList.head?, first = '(' ∨ startsWord first := by
  obtain ⟨first, isFirst, opens⟩ := puts.begins
  refine ⟨first, ?_, opens⟩
  rw [String.toList_append, List.head?_append, Option.mem_def.mp isFirst]
  rfl

theorem inParens (puts : Puts words text) (needed : Bool) :
    Puts (wordsInParens needed words) (Layout.inParens needed text) := by
  cases needed with
  | false => exact puts
  | true =>
      refine ⟨⟨'(', ?_, .inl rfl⟩, fun {more later} ends spelled => ?_⟩
      · simp [Layout.inParens]
      · have closed := spelled_bracket .rightParen rfl spelled
        have inner := puts.spelled (ends_of_bracket .rightParen rfl more) closed
        have opened := spelled_bracket .leftParen rfl inner
        change Spelled ((Token.leftParen.text ++ text ++ Token.rightParen.text).toList ++ more) _
        simpa only [wordsInParens, if_true, String.toList_append, List.append_assoc, List.cons_append,
          List.nil_append] using opened

theorem binary {op : Token} (isBinary : 0 < op.precedence) {blank : String} (isBlank : IsBlank blank)
    (left : Puts words text) (right : Puts others other) :
    Puts (words ++ op.word :: others) (text ++ blank ++ op.text ++ blank ++ other) := by
  refine ⟨?_, fun {more later} ends spelled => ?_⟩
  · simpa only [String.append_assoc] using left.begins_append (blank ++ op.text ++ blank ++ other)
  · have rightSpelled := isBlank.spelled (right.spelled ends spelled)
    have apart := isBlank.head (by decide) (right.apart more)
    obtain ⟨opSpelled, opEnds⟩ := spelled_binary isBinary apart rightSpelled
    have leftSpelled := left.spelled (isBlank.head Piece.continuesWord_blank opEnds)
      (isBlank.spelled opSpelled)
    simpa only [String.toList_append, List.append_assoc, List.cons_append] using leftSpelled

theorem selector {sel : Ident} (puts : Puts words text) (isWord : sel.IsWord) :
    Puts (words ++ [Token.period.word, (.ident, sel.name)]) (text ++ "." ++ sel.name) := by
  refine ⟨?_, fun {more later} ends spelled => ?_⟩
  · simpa only [String.append_assoc] using puts.begins_append ("." ++ sel.name)
  · have selSpelled := (Puts.ident isWord).spelled ends spelled
    obtain ⟨first, rest, textEq, starts, -⟩ := isWord.begins
    have point : Spelled ('.' :: (sel.name.toList ++ more))
        (Token.period.word :: (.ident, sel.name) :: later) := by
      rw [textEq] at selSpelled ⊢
      exact @Spelled.word '.' [] _ .period _ (Piece.read_period starts _) selSpelled
    have all := puts.spelled (fun char isHead => by
      obtain rfl := Option.some.inj isHead
      exact not_continues_of_sign '.' (by decide)) point
    simpa [String.toList_append] using all

/-- A text with another one in brackets behind it. -/
theorem inBrackets (opening closing : Token) (isOpening : Piece.isBracket opening)
    (isClosing : Piece.isBracket closing) (puts : Puts words text)
    (inner : ∀ {more later}, (∀ char ∈ more.head?, continuesWord char = false) →
      Spelled more later → Spelled (other.toList ++ more) (others ++ later)) :
    Puts (words ++ opening.word :: others ++ [closing.word])
      (text ++ opening.text ++ other ++ closing.text) := by
  refine ⟨?_, fun {more later} ends spelled => ?_⟩
  · simpa only [String.append_assoc] using puts.begins_append (opening.text ++ other ++ closing.text)
  · have closed := spelled_bracket closing isClosing spelled
    have innerSpelled := inner (ends_of_bracket closing isClosing more) closed
    have opened := spelled_bracket opening isOpening innerSpelled
    have all := puts.spelled (ends_of_bracket opening isOpening _) opened
    simpa only [String.toList_append, List.append_assoc, List.cons_append, List.nil_append] using all

/-- Texts divided by commas put words divided by commas. -/
theorem commas {lists : List (List Word)} {texts : List String} (puts : List.Forall₂ Puts lists texts)
    {more : List Char} {later : List Word} (ends : ∀ char ∈ more.head?, continuesWord char = false)
    (spelled : Spelled more later) :
    Spelled ((Layout.commas texts).toList ++ more) ([Token.comma.word].intercalate lists ++ later) := by
  induction puts with
  | nil => exact spelled
  | @cons words text lists texts first puts ih =>
      cases puts with
      | nil => simpa [Layout.commas] using first.spelled ends spelled
      | @cons words' text' lists texts second puts =>
          have divided : Spelled (',' :: ' ' :: ((Layout.commas (text' :: texts)).toList ++ more))
              (Token.comma.word :: ([Token.comma.word].intercalate (words' :: lists) ++ later)) :=
            spelled_bracket .comma rfl (.blank ih)
          have all := first.spelled (by rintro _ ⟨⟩; decide) divided
          rw [List.intercalate_cons_cons]
          change Spelled ((", ".intercalate (text :: text' :: texts)).toList ++ more) _
          rw [String.intercalate_cons_cons]
          simpa [Layout.commas, String.toList_append] using all

end Puts

/-! ### Printing without a set of files -/

/-- Without a set of files a value is printed, and the page stays as it is. -/
def Yields {α : Type} (action : Print α) (value : α) : Prop :=
  ∀ page, action none page = .ok (value, page)

namespace Yields

variable {α β : Type}

theorem pure (value : α) : Yields (Pure.pure value) value :=
  fun _ => rfl

theorem bind {action : Print α} {next : α → Print β} {value : α} {result : β}
    (first : Yields action value) (second : Yields (next value) result) :
    Yields (action >>= next) result := by
  intro page
  change (action none page >>= fun pair => next pair.1 none pair.2) = _
  rw [first page]
  exact second page

end Yields

/-- An expression is printed as a text that puts its words, whatever stands around it. -/
def PutsWords (value : Expr) : Prop :=
  ∀ shared prec depth, ∃ text, Yields (exprText shared prec depth value) text ∧
    Puts (value.words prec) text

theorem exprTexts_put {args : List Expr} (putsWords : ∀ arg ∈ args, PutsWords arg) (depth : Nat) :
    ∃ texts, Yields (exprTexts depth args) texts ∧ List.Forall₂ Puts (Expr.wordsOfAll args) texts := by
  induction args with
  | nil => exact ⟨[], .pure _, .nil⟩
  | cons arg args ih =>
      obtain ⟨text, textYields, puts⟩ := putsWords arg List.mem_cons_self none 0 depth
      obtain ⟨texts, textsYields, putsOthers⟩ :=
        ih fun arg isArg => putsWords arg (List.mem_cons_of_mem _ isArg)
      exact ⟨text :: texts, .bind textYields (.bind textsYields (.pure _)), .cons puts putsOthers⟩

theorem binary_puts {span : Span} {left right : Expr} {op : Token} (isBinary : 0 < op.precedence)
    (leftPuts : PutsWords left) (rightPuts : PutsWords right) :
    PutsWords (.binary span left op right) := by
  intro shared prec depth
  have isBlank (condition : Prop) [Decidable condition] : IsBlank (if condition then " " else "") := by
    split
    · exact .inr rfl
    · exact .inl rfl
  rw [Expr.words]
  obtain ⟨leftText, leftYields, leftPut⟩ := leftPuts _ _ _
  obtain ⟨rightText, rightYields, rightPut⟩ := rightPuts _ _ _
  exact ⟨_, .bind leftYields (.bind rightYields (.pure _)),
    (leftPut.binary isBinary (isBlank _) rightPut).inParens _⟩

theorem paren_puts {span : Span} {inner : Expr} (innerPuts : PutsWords inner) :
    PutsWords (.paren span inner) := by
  intro shared prec depth
  obtain ⟨text, yields, puts⟩ :=
    innerPuts none 0 (if isParen inner then depth else reducedDepth depth)
  rw [Expr.words]
  exact ⟨_, .bind yields (.pure _), puts.inParens _⟩

theorem selector_puts {span : Span} {operand : Expr} {sel : Ident} (operandPuts : PutsWords operand)
    (isWord : sel.IsWord) : PutsWords (.selector span operand sel) := by
  intro shared prec depth
  obtain ⟨text, yields, puts⟩ := operandPuts none highestPrec depth
  rw [Expr.words]
  exact ⟨_, .bind yields (.pure _), puts.selector isWord⟩

theorem index_puts {span : Span} {operand inner : Expr} (operandPuts : PutsWords operand)
    (innerPuts : PutsWords inner) : PutsWords (.index span operand inner) := by
  intro shared prec depth
  obtain ⟨text, yields, puts⟩ := operandPuts none highestPrec 1
  obtain ⟨innerText, innerYields, innerPut⟩ := innerPuts none 0 (depth + 1)
  rw [Expr.words]
  exact ⟨_, .bind yields (.bind innerYields (.pure _)),
    puts.inBrackets .leftBracket .rightBracket rfl rfl innerPut.spelled⟩

/-- Without a set of files a list in brackets stays on one line. -/
theorem bracketed_yields {brackets : Brackets} {elems : List Expr} {action : Print (List String)}
    {texts : List String} (rows : ElementPlan → ElementState → Print ElementState)
    (yields : Yields action texts) (noSpread : brackets.spread = false)
    (noTexts : elems = [] → texts = []) :
    Yields (bracketed brackets elems action rows)
      (brackets.opening ++ commas texts ++ brackets.closing) := by
  unfold bracketed
  cases last : elems.getLast? with
  | none =>
      rw [noTexts (List.getLast?_eq_none_iff.mp last)]
      simpa [commas] using Yields.pure (brackets.opening ++ brackets.closing)
  | some elem =>
      have noSet : Yields (read : Print (Option FileSet)) none := fun _ => rfl
      refine .bind noSet ?_
      rw [if_pos (by simp [lineIn])]
      simp only [noSpread, Bool.false_eq_true, if_false, String.append_empty]
      exact .bind yields (.pure _)

theorem call_puts {span : Span} {callee : Expr} {args : List Expr} (plain : callee.IsPlain)
    (calleePuts : PutsWords callee) (argsPut : ∀ arg ∈ args, PutsWords arg) :
    PutsWords (.call span callee args false) := by
  intro shared prec depth
  obtain ⟨text, yields, puts⟩ :=
    calleePuts none highestPrec (if 1 < args.length then depth + 1 else depth)
  obtain ⟨texts, textsYields, argTexts⟩ :=
    exprTexts_put argsPut (if 1 < args.length then depth + 1 else depth)
  have noTexts : args = [] → texts = [] := by
    rintro rfl
    cases argTexts
    rfl
  rw [Expr.words]
  refine ⟨text ++ ("(" ++ commas texts ++ ")"), ?_, ?_⟩
  · refine .bind yields (.bind (bracketed_yields _ textsYields rfl noTexts) ?_)
    cases plain <;> exact .pure _
  · rw [← String.append_assoc, ← String.append_assoc]
    exact puts.inBrackets .leftParen .rightParen rfl rfl (Puts.commas argTexts)

theorem IsPlain.putsWords {value : Expr} (plain : value.IsPlain) : PutsWords value := by
  induction plain with
  | ident isWord => exact fun _ _ _ => ⟨_, .pure _, .ident isWord⟩
  | binary isBinary _ _ ihLeft ihRight => exact binary_puts isBinary ihLeft ihRight
  | paren _ ih => exact paren_puts ih
  | selector _ isWord ih => exact selector_puts ih isWord
  | index _ _ ihOperand ihInner => exact index_puts ihOperand ihInner
  | call plain _ ihCallee ihArgs => exact call_puts plain ihCallee ihArgs

end Layout

/-- A plain expression is printed as a text that is scanned to its words, a semicolon for the end of
the line and the end of the file. -/
theorem Expr.IsPlain.print_scans {value : Expr} (plain : value.IsPlain) (base : Nat) :
    ∃ text, (Node.expr value).print = .ok text ∧ ∃ scan, Scan.ofText base text = .ok scan ∧
      scan.lexemes.map Lexeme.word =
        value.words 0 ++ [(Token.semicolon, "\n"), (Token.endOfFile, "")] := by
  obtain ⟨text, yields, puts⟩ := Layout.IsPlain.putsWords plain none 0 1
  have spelled := puts.spelled (by simp) .nil
  simp only [List.append_nil] at spelled
  obtain ⟨pieces, outcome, lexemesEq⟩ := spelled.scan base (base + text.length : Nat) none
  refine ⟨text, ?_, Scan.ofPieces (base + text.length : Nat) none pieces, ?_, ?_⟩
  · change (Layout.exprText none 0 1 value none {} >>= fun pair => Pure.pure pair.1) = _
    rw [yields]
    rfl
  · rw [Scan.ofText, outcome]
  · obtain ⟨before, word, wordsEq, isEnd⟩ := plain.endsStatement 0
    rw [lexemesEq, wordsEq, lastToken_append]
    simp [Scan.ofPieces, Scan.semicolonAfter, isEnd, Lexeme.word]

end GoMend
