import GoMend.Lexeme.Scan
import GoMend.Proofs.Grammar.Reading

/-!
# Lexemes follow each other

The pieces of a text are not empty and make up the whole text, so that each of them begins where
the one before it ends.  The lexemes keep their order when blanks and comments go and line ends
become semicolons.
-/

namespace GoMend

/-! ### Literals begin the text -/

namespace Literal

theorem prefix_fraction (isPart : Char → Bool) (chars : List Char) :
    fraction isPart chars <+: chars := by
  unfold fraction
  split
  · exact List.cons_prefix_cons.mpr ⟨rfl, List.takeWhile_prefix _⟩
  · exact List.nil_prefix

theorem prefix_sign (chars : List Char) : sign chars <+: chars := by
  unfold sign
  split <;> simp

/-- Two parts begin the text if the second one begins what is left of it. -/
theorem prefix_append_drop {first second chars : List Char} (isFirst : first <+: chars)
    (isSecond : second <+: chars.drop first.length) : first ++ second <+: chars := by
  obtain ⟨rest, rfl⟩ := isFirst
  rw [List.drop_left] at isSecond
  exact (List.prefix_append_right_inj first).mpr isSecond

theorem prefix_exponent (lower upper : Char) (chars : List Char) :
    exponent lower upper chars <+: chars := by
  cases chars with
  | nil => exact List.nil_prefix
  | cons mark rest =>
      simp only [exponent]
      split
      · exact List.cons_prefix_cons.mpr
          ⟨rfl, prefix_append_drop (prefix_sign rest) <| List.takeWhile_prefix _⟩
      · exact List.nil_prefix

/-- Parts that are read one after the other begin the text if each of them does. -/
theorem prefix_readParts {readers : List (List Char → List Char)}
    (begin : ∀ reader ∈ readers, ∀ chars, reader chars <+: chars) (chars : List Char) :
    readParts readers chars <+: chars := by
  induction readers generalizing chars with
  | nil => exact List.nil_prefix
  | cons reader readers ih =>
      obtain ⟨first, others⟩ := List.forall_mem_cons.mp begin
      exact prefix_append_drop (first chars) (ih others _)

theorem prefix_hexadecimalTail (chars : List Char) : hexadecimalTail chars <+: chars := by
  refine prefix_readParts ?_ chars
  simp only [List.forall_mem_cons, List.not_mem_nil, false_implies, implies_true, and_true]
  exact ⟨fun _ => List.takeWhile_prefix _, prefix_fraction _, prefix_exponent _ _⟩

theorem prefix_decimalText (chars : List Char) : decimalText chars <+: chars := by
  unfold decimalText
  split
  · exact List.nil_prefix
  · split
    · refine List.cons_prefix_cons.mpr ⟨rfl, prefix_readParts ?_ _⟩
      simp only [List.forall_mem_cons, List.not_mem_nil, false_implies, implies_true, and_true]
      exact ⟨fun _ => List.takeWhile_prefix _, prefix_fraction _, prefix_exponent _ _⟩
    · split
      · split
        · refine List.cons_prefix_cons.mpr ⟨rfl, prefix_readParts ?_ _⟩
          simp only [List.forall_mem_cons, List.not_mem_nil, false_implies, implies_true, and_true]
          exact ⟨fun _ => List.takeWhile_prefix _, prefix_exponent _ _⟩
        · exact List.nil_prefix
      · exact List.nil_prefix

theorem prefix_markedText (isPart : Char → Bool) (mark : Char) (rest : List Char) :
    ∀ text ∈ markedText isPart mark rest, text <+: '0' :: mark :: rest := by
  intro text mem
  simp only [markedText] at mem
  split at mem
  · exact absurd mem (Option.not_mem_none _)
  · obtain rfl := Option.mem_some_iff.mp mem
    exact List.cons_prefix_cons.mpr
      ⟨rfl, List.cons_prefix_cons.mpr ⟨rfl, List.takeWhile_prefix _⟩⟩

theorem prefix_realText (chars : List Char) : realText chars <+: chars := by
  unfold realText
  split
  · rename_i mark rest
    have decimal := prefix_decimalText ('0' :: mark :: rest)
    have marked : ∀ isPart,
        (markedText isPart mark rest).getD (decimalText ('0' :: mark :: rest)) <+:
          '0' :: mark :: rest := by
      intro isPart
      cases found : markedText isPart mark rest with
      | none => exact decimal
      | some text => exact prefix_markedText isPart mark rest text found
    split
    · exact List.cons_prefix_cons.mpr
        ⟨rfl, List.cons_prefix_cons.mpr ⟨rfl, prefix_hexadecimalTail rest⟩⟩
    · split
      · exact marked _
      · split
        · exact marked _
        · exact decimal
  · exact prefix_decimalText chars

theorem prefix_number (chars : List Char) : number chars <+: chars := by
  have mark : ∀ chars, imaginaryMark chars <+: chars := by
    intro chars
    unfold imaginaryMark
    split <;> simp
  unfold number
  split
  · exact List.nil_prefix
  · exact prefix_append_drop (prefix_realText chars) (mark _)

theorem prefix_afterQuote (quote : Char) (chars : List Char) :
    ∀ text ∈ afterQuote quote chars, text <+: chars := by
  fun_induction afterQuote quote chars with
  | case1 => simp
  | case2 => simp
  | case3 escaped rest ih =>
      intro text mem
      obtain ⟨inner, innerMem, rfl⟩ := Option.map_eq_some_iff.mp mem
      exact List.cons_prefix_cons.mpr ⟨rfl, List.cons_prefix_cons.mpr ⟨rfl, ih inner innerMem⟩⟩
  | case4 => simp
  | case5 => simp
  | case6 char rest _ _ _ _ ih =>
      intro text mem
      obtain ⟨inner, innerMem, rfl⟩ := Option.map_eq_some_iff.mp mem
      exact List.cons_prefix_cons.mpr ⟨rfl, ih inner innerMem⟩

theorem prefix_afterRawQuote (chars : List Char) :
    ∀ text ∈ afterRawQuote chars, text <+: chars := by
  induction chars with
  | nil => simp [afterRawQuote]
  | cons char rest ih =>
      intro text mem
      simp only [afterRawQuote] at mem
      split at mem
      · obtain rfl := Option.mem_some_iff.mp mem
        simp
      · obtain ⟨inner, innerMem, rfl⟩ := Option.map_eq_some_iff.mp mem
        exact List.cons_prefix_cons.mpr ⟨rfl, ih inner innerMem⟩

theorem prefix_afterCommentMark (chars : List Char) :
    ∀ text ∈ afterCommentMark chars, text <+: chars := by
  fun_induction afterCommentMark chars with
  | case1 => simp
  | case2 => simp
  | case3 char rest _ ih =>
      intro text mem
      obtain ⟨inner, innerMem, rfl⟩ := Option.map_eq_some_iff.mp mem
      exact List.cons_prefix_cons.mpr ⟨rfl, ih inner innerMem⟩

/-- A number is neither an operator nor a name. -/
theorem numberToken_ne (text : List Char) :
    (numberToken text).isOperator = false ∧ numberToken text ≠ .ident := by
  unfold numberToken
  repeat' split
  all_goals simp [Token.isOperator, Token.isLiteral]

end Literal

/-! ### Pieces -/

namespace Piece

/-- A piece has a length, an ellipsis its three points, an operator its own text, and a name is a
word. -/
structure Solid (piece : Piece) : Prop where
  positive : 0 < piece.chars.length
  ellipsis : ∀ chars, piece = .lexeme .ellipsis chars → 3 ≤ chars.length
  operator : ∀ token chars, piece = .lexeme token chars → token.isOperator →
    String.ofList chars = token.text
  isWord : ∀ chars, piece = .lexeme .ident chars →
    chars.all fun char => char ≠ ' ' && char ≠ ':'

theorem Solid.of_ne {token : Token} {chars : List Char} (positive : 0 < chars.length)
    (notOperator : token.isOperator = false) (notIdent : token ≠ .ident) :
    Solid (.lexeme token chars) := by
  refine ⟨positive, ?_, ?_, ?_⟩
  · intro others same
    rw [(Piece.lexeme.inj same).1] at notOperator
    exact absurd notOperator (by decide)
  · intro other others same isOperator
    rw [(Piece.lexeme.inj same).1, isOperator] at notOperator
    exact absurd notOperator Bool.false_ne_true.symm
  · intro others same
    exact absurd (Piece.lexeme.inj same).1 notIdent

theorem ne_of_continuesWord {char : Char} (continues : continuesWord char) :
    (char ≠ ' ' && char ≠ ':') = true := by
  have notSpace : char ≠ ' ' := by
    rintro rfl
    exact absurd continues (by decide)
  have notColon : char ≠ ':' := by
    rintro rfl
    exact absurd continues (by decide)
  simp [notSpace, notColon]

theorem word_solid {first : Char} {rest : List Char} (starts : startsWord first) :
    (word (first :: rest.takeWhile continuesWord)).Solid := by
  unfold word
  cases found : Token.keyword? (String.ofList (first :: rest.takeWhile continuesWord)) with
  | none =>
      refine ⟨Nat.succ_pos _, nofun, ?_, ?_⟩
      · intro token chars same isOperator
        obtain ⟨rfl, -⟩ := Piece.lexeme.inj same
        exact absurd isOperator (by decide)
      intro chars same
      obtain ⟨-, rfl⟩ := Piece.lexeme.inj same
      simp only [List.all_cons, Bool.and_eq_true, List.all_eq_true]
      constructor
      · have notSpace : first ≠ ' ' := by
          rintro rfl
          exact absurd starts (by decide)
        have notColon : first ≠ ':' := by
          rintro rfl
          exact absurd starts (by decide)
        simp [notSpace, notColon]
      · intro char mem
        simpa using ne_of_continuesWord (List.all_eq_true.mp List.all_takeWhile char mem)
  | some token =>
      have isKeyword := List.find?_some found
      have isKeyword : token.isKeyword := (Bool.and_eq_true_iff.mp isKeyword).1
      refine .of_ne (Nat.succ_pos _) ?_ ?_
      · cases token <;> first | rfl | cases isKeyword
      · rintro rfl
        cases isKeyword

theorem quotedLiteral_solid {quote : Char} {token : Token} {kind : String} {rest : List Char}
    {piece : Piece} (notOperator : token.isOperator = false) (notIdent : token ≠ .ident)
    (outcome : quotedLiteral quote token kind rest = .ok piece) :
    piece.Solid ∧ piece.chars <+: quote :: rest := by
  unfold quotedLiteral at outcome
  split at outcome
  · cases outcome
  · rename_i chars found
    obtain rfl := Except.ok.inj outcome
    exact ⟨.of_ne (Nat.succ_pos _) notOperator notIdent,
      List.cons_prefix_cons.mpr ⟨rfl, Literal.prefix_afterQuote quote rest chars found⟩⟩

theorem text_positive (token : Token) : 0 < token.text.toList.length := by
  cases token <;> decide

/-- An operator is its own text. -/
theorem leadingOperator?_solid {chars text : List Char} {token : Token}
    (found : Token.leadingOperator? chars = some (text, token)) :
    (Piece.lexeme token text).Solid ∧ text <+: chars := by
  have begins := List.find?_some found
  have isOperator : (text, token) ∈ (Token.all.filter Token.isOperator).map
      fun token => (token.text.toList, token) :=
    (List.mergeSort_perm _ _).mem_iff.mp (List.mem_of_find?_eq_some found)
  obtain ⟨_, isToken, entryEq⟩ := List.mem_map.mp isOperator
  obtain ⟨rfl, rfl⟩ := Prod.mk.inj entryEq
  refine ⟨⟨?_, ?_, ?_, ?_⟩, List.isPrefixOf_iff_prefix.mp begins⟩
  · exact text_positive _
  · intro chars same
    obtain ⟨isEllipsis, rfl⟩ := Piece.lexeme.inj same
    rw [isEllipsis]
    decide
  · intro token chars same _
    obtain ⟨rfl, rfl⟩ := Piece.lexeme.inj same
    exact String.ofList_toList
  · intro chars same
    obtain ⟨rfl, -⟩ := Piece.lexeme.inj same
    exact absurd (List.mem_filter.mp isToken).2 (by decide)

/-- The first piece of a text is solid and begins the text. -/
theorem read_solid {first : Char} {rest : List Char} {piece : Piece}
    (outcome : read first rest = .ok piece) :
    piece.Solid ∧ piece.chars <+: first :: rest := by
  unfold read at outcome
  split at outcome
  · next isLineEnd =>
    obtain rfl := Except.ok.inj outcome
    exact ⟨⟨Nat.one_pos, nofun, nofun, nofun⟩, by simp [chars, isLineEnd]⟩
  split at outcome
  · obtain rfl := Except.ok.inj outcome
    exact ⟨⟨Nat.one_pos, nofun, nofun, nofun⟩, by simp [chars]⟩
  split at outcome
  · rename_i isComment
    obtain rfl := Except.ok.inj outcome
    refine ⟨⟨?_, nofun, nofun, nofun⟩, List.takeWhile_prefix _⟩
    have notLineEnd : first ≠ '\n' := by
      rintro rfl
      simp at isComment
    simp [chars, notLineEnd]
  split at outcome
  · rename_i isComment
    split at outcome
    · cases outcome
    · rename_i text found
      obtain rfl := Except.ok.inj outcome
      refine ⟨⟨Nat.succ_pos _, nofun, nofun, nofun⟩, ?_⟩
      obtain ⟨rfl, rest, rfl⟩ : first = '/' ∧ ∃ others, rest = '*' :: others := by
        cases rest <;> simp_all
      exact List.cons_prefix_cons.mpr ⟨rfl, List.cons_prefix_cons.mpr
        ⟨rfl, Literal.prefix_afterCommentMark _ text found⟩⟩
  split at outcome
  · rename_i starts
    obtain rfl := Except.ok.inj outcome
    exact ⟨word_solid starts, List.cons_prefix_cons.mpr ⟨rfl, List.takeWhile_prefix _⟩⟩
  split at outcome
  · have begins := Literal.prefix_number (first :: rest)
    split at outcome
    · cases outcome
    · rename_i notEmpty
      obtain rfl := Except.ok.inj outcome
      obtain ⟨notOperator, notIdent⟩ := Literal.numberToken_ne (Literal.number (first :: rest))
      exact ⟨.of_ne (List.length_pos_iff.mpr notEmpty) notOperator notIdent, begins⟩
  split at outcome
  · next isQuote => exact isQuote ▸ quotedLiteral_solid (by decide) (by decide) outcome
  split at outcome
  · split at outcome
    · cases outcome
    · rename_i text found
      obtain rfl := Except.ok.inj outcome
      exact ⟨.of_ne (Nat.succ_pos _) (by decide) (by decide),
        List.cons_prefix_cons.mpr ⟨rfl, Literal.prefix_afterRawQuote rest text found⟩⟩
  split at outcome
  · next isQuote => exact isQuote ▸ quotedLiteral_solid (by decide) (by decide) outcome
  split at outcome
  · cases outcome
  · rename_i text token found
    obtain rfl := Except.ok.inj outcome
    exact leadingOperator?_solid found

/-- The characters of pieces one after the other. -/
def allChars (pieces : List (Pos × Piece)) : List Char :=
  pieces.flatMap fun entry => entry.2.chars

/-- Pieces that follow each other from a position up to the end of the text. -/
def Tiles (stop : Pos) : Pos → List (Pos × Piece) → Prop
  | pos, [] => pos = stop
  | pos, (start, piece) :: rest =>
      start = pos ∧ piece.Solid ∧ Tiles stop (pos + piece.chars.length) rest

theorem Tiles.le {stop pos : Pos} {pieces : List (Pos × Piece)} (tiles : Tiles stop pos pieces) :
    pos ≤ stop := by
  induction pieces generalizing pos with
  | nil => exact Int.le_of_eq tiles
  | cons entry pieces ih =>
      have rest := ih tiles.2.2
      lia

theorem ofChars_tiles {pos : Pos} {chars : List Char} {pieces : List (Pos × Piece)}
    (outcome : ofChars pos chars = .ok pieces) : Tiles (pos + chars.length) pos pieces := by
  fun_induction ofChars pos chars generalizing pieces with
  | case1 pos =>
      obtain rfl := Except.ok.inj outcome
      simp [Tiles]
  | case2 => cases outcome
  | case3 => cases outcome
  | case4 pos first rest piece readOutcome length later laterOutcome =>
      rename_i ih
      obtain rfl := Except.ok.inj outcome
      obtain ⟨solid, begins⟩ := read_solid readOutcome
      have lengthLe := begins.length_le
      have positive := solid.positive
      have tiles := ih laterOutcome
      rw [List.length_drop] at tiles
      refine ⟨rfl, solid, ?_⟩
      have nextEq : pos + (piece.chars.length : Int) =
          pos + ((piece.chars.length - 1 : Nat) : Int) + 1 := by lia
      rw [List.length_cons] at lengthLe
      have stopEq : pos + ((first :: rest).length : Int) =
          pos + ((piece.chars.length - 1 : Nat) : Int) + 1 +
            ((rest.length - (piece.chars.length - 1) : Nat) : Int) := by
        rw [List.length_cons]
        lia
      rw [nextEq, stopEq]
      exact tiles

/-- The pieces of a text make up the text. -/
theorem allChars_ofChars {pos : Pos} {chars : List Char} {pieces : List (Pos × Piece)}
    (outcome : ofChars pos chars = .ok pieces) : allChars pieces = chars := by
  fun_induction ofChars pos chars generalizing pieces with
  | case1 pos =>
      obtain rfl := Except.ok.inj outcome
      rfl
  | case2 => cases outcome
  | case3 => cases outcome
  | case4 pos first rest piece readOutcome length later laterOutcome =>
      rename_i ih
      obtain rfl := Except.ok.inj outcome
      obtain ⟨solid, behind, isWhole⟩ := read_solid readOutcome
      have positive := solid.positive
      have behindEq : rest.drop (length - 1) = behind := by
        have dropped := congrArg (List.drop piece.chars.length) isWhole
        rw [List.drop_left] at dropped
        obtain ⟨count, countEq⟩ := Nat.exists_eq_succ_of_ne_zero (Nat.ne_of_gt positive)
        rw [countEq, List.drop_succ_cons] at dropped
        rw [dropped]
        exact congrArg (List.drop · rest) (by simp [length, countEq])
      rw [allChars, List.flatMap_cons, ← allChars, ih laterOutcome, behindEq]
      exact isWhole

/-- A piece is solid and stands in the characters of all pieces where its position says. -/
theorem Tiles.stands {stop pos start : Pos} {pieces : List (Pos × Piece)} {piece : Piece}
    (tiles : Tiles stop pos pieces) (isPiece : (start, piece) ∈ pieces) :
    piece.Solid ∧
      ∃ offset : Nat, start = pos + offset ∧ piece.chars <+: (allChars pieces).drop offset := by
  induction pieces generalizing pos with
  | nil => cases isPiece
  | cons entry pieces ih =>
      obtain ⟨first, before⟩ := entry
      obtain ⟨rfl, solid, rest⟩ := tiles
      obtain same | isLater := List.mem_cons.mp isPiece
      · obtain ⟨rfl, rfl⟩ := Prod.mk.inj same
        exact ⟨solid, 0, by simp, List.prefix_append piece.chars (allChars pieces)⟩
      · obtain ⟨solid, offset, startEq, begins⟩ := ih rest isLater
        refine ⟨solid, before.chars.length + offset, by rw [startEq]; push_cast; lia, ?_⟩
        rw [allChars, List.flatMap_cons, ← List.drop_drop, List.drop_left]
        exact begins

end Piece

/-! ### Lexemes -/

namespace Scan

/-- Lexemes with the semicolon before them for which a line end stands. -/
theorem semicolonAfter_lined {extent : Extent} {low pos : Pos} {last : Option Token}
    {lexemes : List Lexeme} (lowLe : low ≤ pos) (ltStop : pos < extent.stop)
    (subset : semicolonAfter last pos ++ lexemes ⊆ extent.lexemes)
    (lined : ∀ low ≤ pos + 1, Lexeme.Lined extent low lexemes) :
    Lexeme.Lined extent low (semicolonAfter last pos ++ lexemes) := by
  unfold semicolonAfter at subset ⊢
  split
  · next ends =>
    rw [if_pos ends] at subset
    have stopEq : (⟨.semicolon, "\n", pos⟩ : Lexeme).stop = pos + 1 := by
      have lengthEq : "\n".length = 1 := by decide
      simp [Lexeme.stop, lengthEq]
    refine .inr ⟨lowLe, ⟨⟨?_, nofun, ?_, nofun⟩, subset List.mem_cons_self⟩, ?_,
      lined _ (Int.le_of_eq stopEq)⟩
    · rw [stopEq]
      exact Int.lt_succ pos
    · exact fun _ notSemicolon => absurd rfl notSemicolon
    · rw [stopEq]
      exact Int.add_one_le_of_lt ltStop
  · exact lined low (by lia)

/-- The lexemes of pieces that follow each other do so as well. -/
theorem ofPieces_lined {stop low pos : Pos} {last : Option Token} {pieces : List (Pos × Piece)}
    {lexemes : List Lexeme} (tiles : Piece.Tiles stop pos pieces) (lowLe : low ≤ pos)
    (subset : (ofPieces stop last pieces).lexemes ⊆ lexemes) :
    Lexeme.Lined ⟨stop + 1, lexemes⟩ low (ofPieces stop last pieces).lexemes := by
  induction pieces generalizing low pos last with
  | nil =>
      have posEq : pos = stop := tiles
      exact semicolonAfter_lined (by lia) (Int.lt_succ stop) subset fun _ _ => .inl rfl
  | cons entry pieces ih =>
      obtain ⟨start, piece⟩ := entry
      obtain ⟨rfl, solid, rest⟩ := tiles
      have positive := solid.positive
      have restLe := rest.le
      cases piece with
      | blank char => exact ih rest (by lia) subset
      | lineEnd =>
          refine semicolonAfter_lined lowLe (by simp only; lia) subset fun low lowLe =>
            ih rest ?_ (List.append_subset.mp subset).2
          exact lowLe
      | comment chars =>
          simp only [Piece.chars] at positive restLe rest
          simp only [ofPieces] at subset ⊢
          split
          · next spans =>
            rw [if_pos spans] at subset
            exact semicolonAfter_lined lowLe (by simp only; lia) subset fun low lowLe =>
              ih rest (by lia) (List.append_subset.mp subset).2
          · next alone =>
            rw [if_neg alone] at subset
            exact ih rest (by lia) subset
      | lexeme token chars =>
          simp only [Piece.chars] at positive restLe rest
          obtain ⟨isLexeme, subset⟩ := List.cons_subset.mp subset
          refine .inr ⟨lowLe, ⟨⟨?_, ?_, ?_, ?_⟩, isLexeme⟩, ?_, ih rest ?_ subset⟩
          · simp only [Lexeme.stop, String.length_ofList]
            lia
          · intro isEllipsis
            simp only at isEllipsis
            have threePoints := solid.ellipsis chars (by rw [isEllipsis])
            simp only [Lexeme.stop, String.length_ofList]
            lia
          · exact fun isOperator _ => solid.operator token chars rfl isOperator
          · intro isIdent
            simp only at isIdent
            have isWord := solid.isWord chars (by rw [isIdent])
            simpa [Ident.isWord] using isWord
          · simp only [Lexeme.stop, String.length_ofList]
            lia
          · simp only [Lexeme.stop, String.length_ofList]
            lia

theorem ofText_lined {base : Nat} {text : String} {scan : Scan}
    (outcome : ofText base text = .ok scan) :
    Lexeme.Lined ⟨(base + text.length : Nat) + 1, scan.lexemes⟩ base scan.lexemes := by
  unfold ofText at outcome
  split at outcome
  · cases outcome
  · rename_i pieces piecesOutcome
    obtain rfl := Except.ok.inj outcome
    have tiles := Piece.ofChars_tiles piecesOutcome
    rw [String.length_toList] at tiles
    refine ofPieces_lined ?_ (Int.le_refl _) (List.Subset.refl _)
    simpa using tiles

/-- A lexeme that stands for no line end is a piece of the text. -/
theorem mem_pieces {stop : Pos} {last : Option Token} {pieces : List (Pos × Piece)}
    {lexeme : Lexeme} (isLexeme : lexeme ∈ (ofPieces stop last pieces).lexemes)
    (notSemicolon : lexeme.token ≠ .semicolon) (notEnd : lexeme.token ≠ .endOfFile) :
    ∃ chars, (lexeme.pos, .lexeme lexeme.token chars) ∈ pieces ∧ lexeme.text = String.ofList chars := by
  have notAfter : ∀ last pos, lexeme ∉ semicolonAfter last pos := by
    intro last pos isSemicolon
    unfold semicolonAfter at isSemicolon
    split at isSemicolon
    · rw [List.mem_singleton.mp isSemicolon] at notSemicolon
      exact notSemicolon rfl
    · cases isSemicolon
  have later {others : List Lexeme} {pos : Pos}
      (isLexeme : lexeme ∈ semicolonAfter last pos ++ others) : lexeme ∈ others :=
    (List.mem_append.mp isLexeme).resolve_left (notAfter _ _)
  induction pieces generalizing last with
  | nil =>
      have isEnd := List.mem_singleton.mp ((List.mem_append.mp isLexeme).resolve_left (notAfter _ _))
      rw [isEnd] at notEnd
      exact absurd rfl notEnd
  | cons entry pieces ih =>
      have behind {last : Option Token} (isLexeme : lexeme ∈ (ofPieces stop last pieces).lexemes) :
          ∃ chars, (lexeme.pos, .lexeme lexeme.token chars) ∈ entry :: pieces ∧
            lexeme.text = String.ofList chars := by
        obtain ⟨chars, isPiece, textEq⟩ := ih isLexeme fun isLexeme =>
          (List.mem_append.mp isLexeme).resolve_left (notAfter _ _)
        exact ⟨chars, List.mem_cons_of_mem _ isPiece, textEq⟩
      obtain ⟨start, piece⟩ := entry
      cases piece with
      | blank char => exact behind isLexeme
      | lineEnd => exact behind (later isLexeme)
      | comment chars =>
          simp only [ofPieces] at isLexeme
          split at isLexeme
          · exact behind (later isLexeme)
          · exact behind isLexeme
      | lexeme token chars =>
          obtain rfl | isLexeme := List.mem_cons.mp isLexeme
          · exact ⟨chars, List.mem_cons_self, rfl⟩
          · exact behind isLexeme

/-- A lexeme that stands for no line end stands in the text where its position says, and an operator
is written as it is. -/
theorem stands_of_mem {base : Nat} {text : String} {scan : Scan} {lexeme : Lexeme}
    (outcome : ofText base text = .ok scan) (isLexeme : lexeme ∈ scan.lexemes)
    (notSemicolon : lexeme.token ≠ .semicolon) (notEnd : lexeme.token ≠ .endOfFile) :
    (lexeme.token.isOperator → lexeme.text = lexeme.token.text) ∧
      ∃ offset : Nat, offset < text.length ∧ lexeme.pos = base + offset ∧
        lexeme.text.toList <+: text.toList.drop offset := by
  unfold ofText at outcome
  split at outcome
  · cases outcome
  · rename_i pieces piecesOutcome
    obtain rfl := Except.ok.inj outcome
    obtain ⟨chars, isPiece, textEq⟩ := mem_pieces isLexeme notSemicolon notEnd
    obtain ⟨solid, offset, posEq, begins⟩ := (Piece.ofChars_tiles piecesOutcome).stands isPiece
    rw [Piece.allChars_ofChars piecesOutcome] at begins
    have inside := Nat.lt_of_lt_of_le solid.positive begins.length_le
    rw [List.length_drop, String.length_toList] at inside
    refine ⟨fun isOperator => textEq.trans (solid.operator _ _ rfl isOperator), offset,
      Nat.lt_of_sub_pos inside, posEq, ?_⟩
    rw [textEq, String.toList_ofList]
    exact begins

end Scan

end GoMend
